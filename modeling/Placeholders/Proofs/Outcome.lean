import Placeholders.Proofs.Retention
import Placeholders.Proofs.Transparency

namespace Placeholders

def MemberField.query (viewer course : RecordId) : MemberField → Query
  | .role => .rolesOf viewer course
  | .enrolDate => .enrolmentDate viewer course
  | .grade => .finalGrade viewer course
  | .group => .groupsOf viewer course
  | .grouping => .groupingsOf viewer course

namespace Request

/-- The one query that a request takes for an audience, if it takes any. -/
def query? (a : Audience) (q : Request) : Option Query :=
  match q, a.viewer, a.course with
  | .account _, .signedIn viewer, _ => some (.account viewer)
  | .customField _, .signedIn viewer, _ => some (.customFields viewer)
  | .course _, _, some id => some (.course id)
  | .member field, .signedIn viewer, some id => some (field.query viewer id)
  | .holders role .email, .signedIn _, some id => some (.roleHolders id role.name)
  | .holders role .fullName, _, some id => some (.roleHolders id role.name)
  | _, _, _ => none

/-- There is nothing to show an audience for a request. -/
def Lacks (a : Audience) (s : Store) (q : Request) : Prop :=
  match q, a.viewer, a.course with
  | .unknown, _, _ => True
  -- It is about a course, and there is none.
  | .course _, _, none => True
  | .holders _ .fullName, _, none => True
  | .holders _ .email, .signedIn _, none => True
  | .member _, .signedIn _, none => True
  -- There is no record of it.
  | .course _, _, some id => ∀ c ∈ s.courses, c.id ≠ id
  | .account _, .signedIn viewer, _ => ∀ p ∈ s.accounts, p.id ≠ viewer
  | .customField name, .signedIn viewer, _ =>
    ∀ f ∈ s.customFields, f.user = viewer → f.name ≠ name
  | .member .enrolDate, .signedIn viewer, some id =>
    ∀ e ∈ s.enrolments, e.user = viewer → e.course ≠ id
  | _, _, _ => False

def Fails (a : Audience) (s : Store) (q : Request) : Prop :=
  ∃ query, q.query? a = some query ∧ s.fails query.kind = true

end Request

namespace Store
variable {s : Store} {user id : RecordId}

theorem account?_eq_none_iff : s.account? id = none ↔ ∀ p ∈ s.accounts, p.id ≠ id := by
  simp [account?]

theorem course?_eq_none_iff : s.course? id = none ↔ ∀ c ∈ s.courses, c.id ≠ id := by
  simp [course?]

theorem lookup_customFieldsOf_eq_none_iff {name : String} :
    (s.customFieldsOf user).lookup name = none ↔
      ∀ f ∈ s.customFields, f.user = user → f.name ≠ name := by
  simp only [customFieldsOf, List.lookup_eq_none_iff, List.forall_mem_map, List.mem_filter,
    decide_eq_true_eq, bne_iff_ne, and_imp]
  exact forall₃_congr fun f _ _ => ne_comm

theorem enrolmentDate_eq_none_iff :
    s.enrolmentDate user id = none ↔ ∀ e ∈ s.enrolments, e.user = user → e.course ≠ id := by
  have start (best : Option Timestamp) (es : List Enrolment) :
      es.foldl (fun best e => some (earlier e.start best)) best = none ↔ best = none ∧ es = [] := by
    induction es generalizing best with
    | nil => simp
    | cons e es ih => simp [ih]
  simp [enrolmentDate, start]

end Store

/-- The results that a resolution can have rule each other out, and so each condition under which
one is known to come about is exactly its condition. -/
theorem Resolution.conditions {x : Resolution} {phrase : String} {failing lacking : Prop}
    (failed : failing → x = .placeholder phrase) (left : ¬failing → lacking → x = .unresolved)
    (shown : ¬failing → ¬lacking → ∃ v, x = .resolved v) :
    (x = .placeholder phrase ↔ failing) ∧ (∀ p, x = .placeholder p → p = phrase) ∧
      (x = .unresolved ↔ ¬failing ∧ lacking) ∧ ((∃ v, x = .resolved v) ↔ ¬failing ∧ ¬lacking) := by
  by_cases hf : failing
  · simp [failed hf, hf, eq_comm]
  · by_cases hl : lacking
    · simp [left hf hl, hf, hl]
    · obtain ⟨v, rfl⟩ := shown hf hl
      simp [hf, hl]

/-- A plan for a request puts the query that the request takes, and finds no text where there is
nothing to show. -/
def Plan.Suits (a : Audience) (s : Store) (q : Request) : Plan → Prop
  | .settled text => q.query? a = none ∧ (text = none ↔ q.Lacks a s)
  | .lookup l => q.query? a = some l.query ∧ (l.text (s.answer l.query) = none ↔ q.Lacks a s)

namespace Request
variable {a : Audience} {c : Config} {viewer id : RecordId}

theorem course_suits (hc : a.course = some id) (s : Store) (field : CourseField) :
    (Plan.lookup (.course a id field)).Suits a s (.course field) := by
  refine ⟨by simp [query?, hc, Lookup.course], ?_⟩
  simp only [Lacks, hc, ← Store.course?_eq_none_iff]
  exact Option.map_eq_none_iff

theorem member_suits (hv : a.viewer = .signedIn viewer) (hc : a.course = some id) (s : Store)
    (field : MemberField) :
    (Plan.lookup (.member a c viewer id field)).Suits a s (.member field) := by
  cases field with
  | enrolDate =>
    refine ⟨by simp [query?, hv, hc, Lookup.member, MemberField.query], ?_⟩
    simp only [Lacks, hv, hc, ← Store.enrolmentDate_eq_none_iff]
    exact Option.map_eq_none_iff
  | role => simp [Plan.Suits, Lookup.member, query?, MemberField.query, Lacks, hv, hc]
  | grade => simp [Plan.Suits, Lookup.member, query?, MemberField.query, Lacks, hv, hc]
  | group => simp [Plan.Suits, Lookup.member, query?, MemberField.query, Lacks, hv, hc]
  | grouping => simp [Plan.Suits, Lookup.member, query?, MemberField.query, Lacks, hv, hc]

theorem names_suits (hc : a.course = some id) (s : Store) (role : Role) :
    (Plan.lookup (.holders c id role .fullName)).Suits a s (.holders role .fullName) := by
  simp [Plan.Suits, Lookup.holders, query?, Lacks, hc]

theorem holders_suits (hv : a.viewer = .signedIn viewer) (hc : a.course = some id) (s : Store)
    (role : Role) (field : HolderField) :
    (Plan.lookup (.holders c id role field)).Suits a s (.holders role field) := by
  cases field with
  | email => simp [Plan.Suits, Lookup.holders, query?, Lacks, hv, hc]
  | fullName => exact names_suits hc s role

theorem inCourse_suits {s : Store} {q : Request} {lookup : RecordId → Lookup}
    (nowhere : a.course = none → q.query? a = none ∧ q.Lacks a s)
    (within : ∀ id, a.course = some id → (Plan.lookup (lookup id)).Suits a s q) :
    (Plan.inCourse a lookup).Suits a s q := by
  unfold Plan.inCourse
  cases hc : a.course with
  | none =>
    obtain ⟨unasked, lacks⟩ := nowhere hc
    exact ⟨unasked, iff_of_true rfl lacks⟩
  | some id => exact within id hc

theorem planSignedIn_suits (hv : a.viewer = .signedIn viewer) (s : Store) (q : Request) :
    (q.planSignedIn a c viewer).Suits a s q := by
  cases q with
  | account field =>
    refine ⟨by simp [query?, hv, Lookup.account], ?_⟩
    simp only [Lacks, hv, ← Store.account?_eq_none_iff]
    exact Option.map_eq_none_iff
  | customField name =>
    refine ⟨by simp [query?, hv, Lookup.customField], ?_⟩
    simp only [Lacks, hv]
    exact Store.lookup_customFieldsOf_eq_none_iff
  | course field =>
    refine inCourse_suits ?_ fun id hc => course_suits hc s field
    intro hc
    simp [query?, Lacks, hc]
  | member field =>
    refine inCourse_suits ?_ fun id hc => member_suits hv hc s field
    intro hc
    simp [query?, Lacks, hv, hc]
  | holders role field =>
    refine inCourse_suits ?_ fun id hc => holders_suits hv hc s role field
    intro hc
    cases field <;> simp [query?, Lacks, hv, hc]
  | unknown => simp [planSignedIn, Plan.Suits, query?, Lacks]

/-- Most of what is withheld from an anonymous viewer has a text all the same. -/
theorem planAnonymous_suits (hv : a.viewer = .anonymous) (s : Store) (q : Request) :
    (q.planAnonymous a c).Suits a s q := by
  cases q with
  | course field =>
    refine inCourse_suits ?_ fun id hc => course_suits hc s field
    intro hc
    simp [query?, Lacks, hc]
  | holders role field =>
    cases field with
    | email => simp [planAnonymous, Plan.Suits, query?, Lacks, hv]
    | fullName =>
      refine inCourse_suits ?_ fun id hc => names_suits hc s role
      intro hc
      simp [query?, Lacks, hc]
  | account field => simp [planAnonymous, Plan.Suits, query?, Lacks, hv]
  | customField name => simp [planAnonymous, Plan.Suits, query?, Lacks, hv]
  | member field => cases field <;> simp [planAnonymous, Plan.Suits, query?, Lacks, hv]
  | unknown => simp [planAnonymous, Plan.Suits, query?, Lacks]

theorem plan_suits (a : Audience) (c : Config) (s : Store) (q : Request) :
    (q.plan a c).Suits a s q := by
  unfold plan
  cases hv : a.viewer with
  | signedIn viewer => exact planSignedIn_suits hv s q
  | anonymous => exact planAnonymous_suits hv s q

end Request

namespace Resolver

/-- The memos that a session of a resolver comes by, be it with texts or with single tokens. -/
inductive Reaches (r : Resolver) : Memo LookupKey → Prop
  | start : Reaches r .empty
  | text {m : Memo LookupKey} (h : Reaches r m) (c : Call) :
    Reaches r (Session.fill ⟨r, m⟩ c).memo
  | token {m : Memo LookupKey} (h : Reaches r m) (t : Token) : Reaches r (r.resolveToken m t).memo

variable {r : Resolver} {m : Memo LookupKey} {segments : List String}

theorem tokenErrand_makes {t : Token} {l : Lookup} (h : (r.tokenErrand t).lookup? = some l) :
    r.Makes l := by
  cases t with
  | simple t => exact segmentsErrand_makes h
  | metadata t => exact metadataErrand_makes h

theorem Reaches.trusts (h : r.Reaches m) : r.Trusts m := by
  induction h with
  | start => exact r.trusts_empty
  | @text m _ c ih => exact Session.fill_sound (s := ⟨r, m⟩) ih c
  | token _ t ih =>
    rw [resolveToken_run]
    exact Errand.run_trusts ih fun _ => tokenErrand_makes

theorem plan_suits (r : Resolver) (segments : List String) :
    (r.plan segments).Suits r.audience r.store (Request.ofSegments segments) :=
  Request.plan_suits r.audience r.config r.store _

theorem segmentsErrand_answer (r : Resolver) (segments : List String) :
    let q := Request.ofSegments segments
    let answer := (r.segmentsErrand segments).answer r.store
    (q.Fails r.audience r.store → answer = .placeholder (r.phrase "lookuperror")) ∧
      (¬q.Fails r.audience r.store → q.Lacks r.audience r.store → answer = .unresolved) ∧
        (¬q.Fails r.audience r.store → ¬q.Lacks r.audience r.store →
          ∃ v, answer = .resolved v) := by
  intro q answer
  have suits : (r.plan segments).Suits r.audience r.store q := r.plan_suits segments
  cases hp : r.plan segments with
  | settled text =>
    rw [hp] at suits
    obtain ⟨unasked, lacks⟩ := suits
    have settled : answer = r.simpleResolution (.ok text) := by
      simp only [answer, segmentsErrand, hp, Errand.answer]
    have spared : ¬q.Fails r.audience r.store := by
      rintro ⟨query, hq, _⟩
      rw [unasked] at hq
      cases hq
    rw [settled, ← lacks]
    refine ⟨fun h => absurd h spared, fun _ none => ?_, fun _ some => ?_⟩
    · rw [none]
      rfl
    · obtain ⟨v, rfl⟩ := Option.ne_none_iff_exists'.mp some
      exact ⟨v, rfl⟩
  | lookup l =>
    rw [hp] at suits
    obtain ⟨asked, lacks⟩ := suits
    have looked : answer = r.simpleResolution (l.outcome r.store) := by
      simp only [answer, segmentsErrand, hp, Errand.answer]
    have fails : q.Fails r.audience r.store ↔ r.store.fails l.query.kind = true := by
      simp [Request.Fails, asked]
    rw [looked, fails, ← lacks, Lookup.outcome]
    refine ⟨fun down => ?_, fun up none => ?_, fun up some => ?_⟩
    · rw [Store.ask_of_fails down]
      rfl
    · rw [Store.ask_of_answers (Bool.eq_false_iff.mpr up)]
      simp only [Except.map, none]
      rfl
    · obtain ⟨v, hv⟩ := Option.ne_none_iff_exists'.mp some
      rw [Store.ask_of_answers (Bool.eq_false_iff.mpr up)]
      simp only [Except.map, hv]
      exact ⟨v, rfl⟩

theorem resolveSegments_result (h : r.Trusts m) (segments : List String) :
    (r.resolveSegments m segments).result = (r.segmentsErrand segments).answer r.store := by
  rw [resolveSegments_run]
  exact Errand.run_result h fun _ => segmentsErrand_makes

theorem resolveSegments_asks (r : Resolver) (m : Memo LookupKey) (segments : List String) :
    (r.resolveSegments m segments).queries = [] ∨
      ∃ query, (Request.ofSegments segments).query? r.audience = some query ∧
        (r.resolveSegments m segments).queries = [query] := by
  have suits := r.plan_suits segments
  unfold resolveSegments
  cases hp : r.plan segments with
  | settled text => exact .inl rfl
  | lookup l =>
    rw [hp] at suits
    dsimp only
    rw [Lookup.run_queries]
    split
    · exact .inl rfl
    · exact .inr ⟨l.query, suits.1, rfl⟩

theorem resolveSegments_asks_fresh (r : Resolver) (segments : List String) :
    (r.resolveSegments .empty segments).queries =
      ((Request.ofSegments segments).query? r.audience).toList := by
  have suits := r.plan_suits segments
  unfold resolveSegments
  cases hp : r.plan segments with
  | settled text =>
    rw [hp] at suits
    rw [suits.1]
    rfl
  | lookup l =>
    rw [hp] at suits
    rw [suits.1]
    rfl

/-- A query that fails has never left anything to hold, and so it is put each time. -/
theorem asks_failing_iff (h : r.Trusts m) (segments : List String) :
    (∃ query ∈ (r.resolveSegments m segments).queries, r.store.fails query.kind = true) ↔
      (Request.ofSegments segments).Fails r.audience r.store := by
  constructor
  · rintro ⟨query, hq, down⟩
    rcases r.resolveSegments_asks m segments with none | ⟨own, asked, one⟩
    · rw [none] at hq
      cases hq
    · rw [one, List.mem_singleton] at hq
      exact ⟨own, asked, hq ▸ down⟩
  · rintro ⟨query, asked, down⟩
    refine ⟨query, ?_, down⟩
    have suits := r.plan_suits segments
    unfold resolveSegments
    cases hp : r.plan segments with
    | settled text =>
      rw [hp] at suits
      rw [suits.1] at asked
      cases asked
    | lookup l =>
      rw [hp] at suits
      obtain rfl : l.query = query := Option.some.inj (suits.1.symm.trans asked)
      cases hv : m.get? l.key with
      | none => simp [Lookup.run_of_not_held hv]
      | some v =>
        have answered := h l v (plan_makes hp) hv
        rw [Lookup.outcome, Store.ask_of_fails down] at answered
        cases answered

/-- What a simple token comes to, with a memo that a session has come by. -/
structure Outcome (r : Resolver) (m : Memo LookupKey) (segments : List String) : Prop where
  /-- No query is put but the one of the request, and that one is put where nothing is held. -/
  asked : (r.resolveSegments m segments).queries = [] ∨
    ∃ query, (Request.ofSegments segments).query? r.audience = some query ∧
      (r.resolveSegments m segments).queries = [query]
  fresh : (r.resolveSegments .empty segments).queries =
    ((Request.ofSegments segments).query? r.audience).toList
  /-- A failure shows exactly if a query is put that fails, which does not hang on the memo. -/
  failed : (r.resolveSegments m segments).result = .placeholder (r.phrase "lookuperror") ↔
    ∃ query ∈ (r.resolveSegments m segments).queries, r.store.fails query.kind = true
  foreseen : (∃ query ∈ (r.resolveSegments m segments).queries,
      r.store.fails query.kind = true) ↔
    (Request.ofSegments segments).Fails r.audience r.store
  onlyPhrase : ∀ phrase, (r.resolveSegments m segments).result = .placeholder phrase →
    phrase = r.phrase "lookuperror"
  left : (r.resolveSegments m segments).result = .unresolved ↔
    ¬(Request.ofSegments segments).Fails r.audience r.store ∧
      (Request.ofSegments segments).Lacks r.audience r.store
  shown : (∃ v, (r.resolveSegments m segments).result = .resolved v) ↔
    ¬(Request.ofSegments segments).Fails r.audience r.store ∧
      ¬(Request.ofSegments segments).Lacks r.audience r.store
  /-- What is withheld from an anonymous viewer has a text wherever the viewer is, and no failure
  keeps it away. -/
  masked : r.audience.viewer = .anonymous → (Request.ofSegments segments).personal = true →
    (r.resolveSegments m segments).queries = [] ∧
      ∃ v, (r.resolveSegments m segments).result = .resolved v

/-- A simple token fails, stays or is filled in, each under its own condition on the request, the
audience and the records. -/
theorem resolveSegments_outcome (h : r.Reaches m) (segments : List String) :
    r.Outcome m segments := by
  have fails := asks_failing_iff h.trusts segments
  obtain ⟨failing, left, shown⟩ := r.segmentsErrand_answer segments
  rw [← resolveSegments_result h.trusts] at failing left shown
  obtain ⟨failed, onlyPhrase, left, shown⟩ := Resolution.conditions failing left shown
  exact {
    asked := r.resolveSegments_asks m segments
    fresh := r.resolveSegments_asks_fresh segments
    failed := failed.trans fails.symm
    foreseen := fails
    onlyPhrase
    left
    shown
    masked := by
      intro hv hp
      have settled := Encounter.meet_masked (e := ⟨r, .simple ⟨"", segments⟩⟩) rfl hv hp m
      obtain ⟨text, _, met⟩ := settled
      have resolved : r.resolveSegments m segments = ⟨.resolved text, [], m⟩ := met
      rw [resolved]
      exact ⟨rfl, text, rfl⟩ }

/-- The account cannot be read, before or after a text that has asked for it; the role is held by
then, and is shown without a query. There is no record of the course. -/
theorem resolveSegments_outcome_warm :
    let r : Resolver :=
      { store := { roles := [⟨2, 5, "teacher"⟩], failing := [.account] }
        audience := .english (.signedIn 2) (some 5) }
    let m := (Session.fill ⟨r, .empty⟩ ⟨"{COURSE_USER_ROLE} {USER_EMAIL}", none⟩).memo
    r.Reaches m ∧ r.Outcome m ["USER", "EMAIL"] ∧
      (r.resolveSegments m ["USER", "EMAIL"]).result = .placeholder "Error retrieving value" ∧
      (r.resolveSegments m ["COURSE", "USER", "ROLE"]).queries = [] ∧
      (r.resolveSegments m ["COURSE", "USER", "ROLE"]).result = .resolved "teacher" ∧
      (r.resolveSegments m ["COURSE", "SUMMARY"]).result = .unresolved := by
  intro r m
  have reached : r.Reaches m := .text .start _
  exact ⟨reached, resolveSegments_outcome reached ["USER", "EMAIL"], by decide +kernel,
    by decide +kernel, by decide +kernel, by decide +kernel⟩

end Resolver

end Placeholders
