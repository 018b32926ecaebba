import Mathlib.Data.List.Forall2
import Placeholders.Session
import Placeholders.Proofs.Delegation

namespace Placeholders

/-- The kinds of query that may be put for an anonymous viewer. -/
def QueryKind.Public (k : QueryKind) : Prop :=
  k ∈ [QueryKind.course, .roleHolders, .resolveInstance, .fieldValue]

/-- Stores with the same public records, in which the same public queries fail, and whose
accounts have the same full names. -/
structure Store.SamePublic (A B : Store) : Prop where
  courses : A.courses = B.courses
  roles : A.roles = B.roles
  instances : A.instances = B.instances
  metadata : A.metadata = B.metadata
  failures : ∀ kind : QueryKind, kind.Public → A.fails kind = B.fails kind
  names : ∀ id, (A.account? id).map (·.fullName) = (B.account? id).map (·.fullName)

/-- Keys of texts about the viewer, and of addresses. -/
def LookupKey.Private (k : LookupKey) : Prop :=
  k.family ∈ ["user", "user_field", "course_user"] ∨
    (∃ role, k.family = "role:" ++ role) ∧ k.field = "email"

def Memo.SamePublic (m n : Memo LookupKey) : Prop := ∀ k, ¬k.Private → m.get? k = n.get? k

/-- Two steps, begun with the memos `m` and `n`, that an onlooker cannot tell apart and that
leave alone what is kept under private keys. -/
structure Step.Alike {α : Type} (m n : Memo LookupKey) (x y : Step α) : Prop where
  result : x.result = y.result
  queries : x.queries = y.queries
  kinds : ∀ q ∈ x.queries, q.kind.Public
  memos : x.memo.SamePublic y.memo
  untouched : ∀ k : LookupKey, k.Private → x.memo.get? k = m.get? k ∧ y.memo.get? k = n.get? k

/-- Resolvers for one anonymous viewer whose stores have the same public records. -/
structure Resolver.SamePublic (p r : Resolver) : Prop where
  store : p.store.SamePublic r.store
  audience : p.audience = r.audience
  config : p.config = r.config
  directory : p.directory = r.directory
  anonymous : r.audience.viewer = .anonymous
  builtin : r.directory.Builtin

/-- A lookup for which neither the memo nor the store gives anything private away. -/
structure Lookup.PublicIn (A B : Store) (l : Lookup) : Prop where
  key : ¬l.key.Private
  kind : l.query.kind.Public
  outcome : l.outcome A = l.outcome B

namespace Store.SamePublic
variable {A B : Store}

theorem roleHolders (h : A.SamePublic B) (course : RecordId) (role : String) :
    (A.roleHolders course role).map (·.fullName) =
      (B.roleHolders course role).map (·.fullName) := by
  simp only [Store.roleHolders, List.map_filterMap, h.roles, h.names]

theorem resolveInstance (h : A.SamePublic B) (context : String) (course : Option RecordId) :
    A.ask (.resolveInstance context course) = B.ask (.resolveInstance context course) := by
  apply ask_congr (h.failures _ (by simp [Query.kind, QueryKind.Public]))
  simp only [Store.answer, Store.resolveInstance, h.instances]

theorem findInstance (h : A.SamePublic B) {c : MetadataContext} (hc : c.Builtin) (a : Audience) :
    c.findInstance a A = c.findInstance a B := by
  obtain rfl | rfl | ⟨name, level, rfl⟩ := hc
  · rfl
  · rfl
  · exact congrArg (Asked.mk _) (h.resolveInstance name a.course)

end Store.SamePublic

namespace Lookup
variable {A B : Store}

/-- A lookup of a public kind that makes the same text of both answers has the same outcome. -/
theorem outcome_congr (h : A.SamePublic B) {l : Lookup} (hk : l.query.kind.Public)
    (ht : l.text (A.answer l.query) = l.text (B.answer l.query)) :
    l.outcome A = l.outcome B :=
  outcome_congr_of_answer (h.failures _ hk) ht

theorem course_public (h : A.SamePublic B) (a : Audience) (id : RecordId) (field : CourseField) :
    (course a id field).PublicIn A B where
  key := by
    change ¬LookupKey.Private ⟨"course", field.key, id⟩
    simp [LookupKey.Private, String.ext_iff]
  kind := by simp [course, Query.kind, QueryKind.Public]
  outcome := by
    refine outcome_congr h (by simp [course, Query.kind, QueryKind.Public]) ?_
    simp only [course, Store.answer, Store.course?, h.courses]

/-- The names of the holders of a role are all that is made of their accounts. -/
theorem holders_public (h : A.SamePublic B) (c : Config) (id : RecordId) (role : Role) :
    (holders c id role .fullName).PublicIn A B where
  key := by
    change ¬LookupKey.Private ⟨"role:" ++ role.name, "fullname", id⟩
    simp [LookupKey.Private, String.ext_iff]
  kind := by simp [holders, Query.kind, QueryKind.Public]
  outcome := by
    refine outcome_congr h (by simp [holders, Query.kind, QueryKind.Public]) ?_
    have names := h.roleHolders id role.name
    simp only [holders, Store.answer]
    exact congrArg
      (fun names : List String => some (listed c.listSeparator (names.filter (· ≠ "")))) names

theorem metadata_public (h : A.SamePublic B) (c : MetadataContext) (id : RecordId)
    (field : String) : (metadata c id field).PublicIn A B where
  key := by
    change ¬LookupKey.Private ⟨"metadata:" ++ c.name, field, id⟩
    simp [LookupKey.Private, String.ext_iff]
  kind := by simp [metadata, Query.kind, QueryKind.Public]
  outcome := by
    refine outcome_congr h (by simp [metadata, Query.kind, QueryKind.Public]) ?_
    simp only [metadata, Store.answer, Store.fieldValue, h.metadata]

end Lookup

namespace Step.Alike
variable {α β : Type} {m n : Memo LookupKey} {x y : Step α} {z w : Step β}

theorem settled (hm : m.SamePublic n) (a : α) : Step.Alike m n ⟨a, [], m⟩ ⟨a, [], n⟩ where
  result := rfl
  queries := rfl
  kinds := by simp
  memos := hm
  untouched _ _ := ⟨rfl, rfl⟩

/-- The later of two steps, seen from the memos before both. -/
theorem since (h : x.Alike m n y) (g : z.Alike x.memo y.memo w) : z.Alike m n w where
  result := g.result
  queries := g.queries
  kinds := g.kinds
  memos := g.memos
  untouched k hk := by
    obtain ⟨hx, hy⟩ := h.untouched k hk
    obtain ⟨hz, hw⟩ := g.untouched k hk
    exact ⟨hz.trans hx, hw.trans hy⟩

/-- Two steps as one, with a result made of both. -/
theorem andThen {γ : Type} (h : x.Alike m n y) (g : z.Alike x.memo y.memo w) (f : α → β → γ) :
    Step.Alike m n ⟨f x.result z.result, x.queries ++ z.queries, z.memo⟩
      ⟨f y.result w.result, y.queries ++ w.queries, w.memo⟩ where
  result := by rw [h.result, g.result]
  queries := by rw [h.queries, g.queries]
  kinds q hq := (List.mem_append.mp hq).elim (h.kinds q) (g.kinds q)
  memos := g.memos
  untouched := (h.since g).untouched

end Step.Alike

section
variable {A B : Store} {m n : Memo LookupKey}

theorem Lookup.run_alike {l : Lookup} (hl : l.PublicIn A B) (hm : m.SamePublic n) :
    (l.run A m).Alike m n (l.run B n) where
  result := by
    have held := hm l.key hl.key
    cases h : m.get? l.key with
    | some v => rw [run_of_get? h, run_of_get? (held.symm.trans h)]
    | none => rw [run_of_not_held h, run_of_not_held (held.symm.trans h), hl.outcome]
  queries := by rw [run_queries, run_queries, hm l.key hl.key]
  kinds q hq := by
    rw [run_queries] at hq
    split at hq
    · cases hq
    · obtain rfl := List.mem_singleton.mp hq
      exact hl.kind
  memos k hk := by rw [get?_run_memo, get?_run_memo, hm k hk, hl.outcome]
  untouched k hk := by
    have other : l.key ≠ k := by
      rintro rfl
      exact hl.key hk
    simp [get?_run_memo, other]

theorem Errand.run_alike {e : Errand} (hq : ∀ q ∈ e.queries, q.kind.Public)
    (hl : ∀ l, e.lookup? = some l → l.PublicIn A B) (hm : m.SamePublic n) :
    (e.run A m).Alike m n (e.run B n) := by
  obtain ⟨queries, ending⟩ := e
  cases ending with
  | settled resolution => exact ⟨rfl, rfl, hq, hm, fun _ _ => ⟨rfl, rfl⟩⟩
  | lookup l read =>
    -- The queries of the errand come first, as a step of their own that keeps nothing.
    have first : Step.Alike m n ⟨(), queries, m⟩ ⟨(), queries, n⟩ :=
      ⟨rfl, rfl, hq, hm, fun _ _ => ⟨rfl, rfl⟩⟩
    exact first.andThen (Lookup.run_alike (hl l rfl) hm) fun _ found => read found

end

/-- A token of either grammar that has been read. -/
inductive Token where
  | simple (t : SimpleToken)
  | metadata (t : MetadataToken)

namespace Resolver

def resolveToken (r : Resolver) (m : Memo LookupKey) : Token → Step Resolution
  | .simple t => r.resolveSegments m t.segments
  | .metadata t => r.resolveMetadata m t

def tokenErrand (r : Resolver) : Token → Errand
  | .simple t => r.segmentsErrand t.segments
  | .metadata t => r.metadataErrand t

theorem resolveToken_run (r : Resolver) (m : Memo LookupKey) (t : Token) :
    r.resolveToken m t = (r.tokenErrand t).run r.store m := by
  cases t with
  | simple t => exact resolveSegments_run r m t.segments
  | metadata t => exact resolveMetadata_run r m t

def resolveAll (r : Resolver) : Memo LookupKey → List Token → List (Step Resolution)
  | _, [] => []
  | m, t :: ts =>
    let step := r.resolveToken m t
    step :: r.resolveAll step.memo ts

variable {p r : Resolver} {m n : Memo LookupKey}

theorem SamePublic.eq_withStore (h : p.SamePublic r) : p = { r with store := p.store } := by
  obtain ⟨A, a, c, d⟩ := p
  obtain ⟨B, a', c', d'⟩ := r
  obtain rfl : a = a' := h.audience
  obtain rfl : c = c' := h.config
  obtain rfl : d = d' := h.directory
  rfl

theorem failed_eq (h : p.SamePublic r) : p.failed = r.failed := by
  rw [h.eq_withStore]
  rfl

/-- Nothing about a simple token depends on the store before the lookup. -/
theorem segmentsErrand_eq (h : p.SamePublic r) (segments : List String) :
    p.segmentsErrand segments = r.segmentsErrand segments := by
  rw [h.eq_withStore]
  rfl

theorem metadataErrand_eq (h : p.SamePublic r) (t : MetadataToken) :
    p.metadataErrand t = r.metadataErrand t := by
  have found : p.metadataLookup t = r.metadataLookup t := by
    unfold metadataLookup
    rw [h.directory]
    split
    · rfl
    · rename_i c hc
      have inst : p.instanceOf t c = r.instanceOf t c := by
        unfold instanceOf
        rw [h.audience, h.store.findInstance (h.builtin.get? hc)]
      rw [inst]
  have read : p.metadataResolution = r.metadataResolution := by
    rw [h.eq_withStore]
    rfl
  unfold metadataErrand
  rw [found, failed_eq h, read]

theorem segmentsErrand_public (h : p.SamePublic r) {segments : List String} {l : Lookup}
    (hl : (r.segmentsErrand segments).lookup? = some l) : l.PublicIn p.store r.store := by
  have hk := segmentsErrand_lookup?_iff.mp hl
  unfold plan Request.plan at hk
  rw [h.anonymous] at hk
  obtain ⟨course, _, ⟨field, rfl⟩ | ⟨role, rfl⟩⟩ := planAnonymous_lookup hk
  · exact Lookup.course_public h.store _ course field
  · exact Lookup.holders_public h.store _ course role

theorem metadataErrand_public (h : p.SamePublic r) {t : MetadataToken} {l : Lookup}
    (hl : (r.metadataErrand t).lookup? = some l) : l.PublicIn p.store r.store := by
  obtain ⟨c, id, _, rfl⟩ := metadataLookup_lookup (metadataErrand_lookup?_iff.mp hl)
  exact Lookup.metadata_public h.store c id t.field

theorem resolveSegments_alike (h : p.SamePublic r) (hm : m.SamePublic n)
    (segments : List String) :
    (p.resolveSegments m segments).Alike m n (r.resolveSegments n segments) := by
  rw [resolveSegments_run, resolveSegments_run, segmentsErrand_eq h]
  refine Errand.run_alike ?_ (fun _ => segmentsErrand_public h) hm
  simp [segmentsErrand_queries]

theorem resolveMetadata_alike (h : p.SamePublic r) (hm : m.SamePublic n) (t : MetadataToken) :
    (p.resolveMetadata m t).Alike m n (r.resolveMetadata n t) := by
  rw [resolveMetadata_run, resolveMetadata_run, metadataErrand_eq h]
  refine Errand.run_alike ?_ (fun _ => metadataErrand_public h) hm
  intro q hq
  rw [metadataErrand_queries h.builtin] at hq
  have kind := delegateFor?_kind (Option.mem_toList.mp hq)
  simp [kind, QueryKind.Public]

theorem resolveToken_alike (h : p.SamePublic r) (hm : m.SamePublic n) (t : Token) :
    (p.resolveToken m t).Alike m n (r.resolveToken n t) := by
  cases t with
  | simple t => exact resolveSegments_alike h hm t.segments
  | metadata t => exact resolveMetadata_alike h hm t

theorem resolveAll_alike (h : p.SamePublic r) (hm : m.SamePublic n) (ts : List Token) :
    List.Forall₂ (Step.Alike m n) (p.resolveAll m ts) (r.resolveAll n ts) := by
  induction ts generalizing m n with
  | nil => exact .nil
  | cons t ts ih =>
    have first := resolveToken_alike h hm t
    have rest := ih first.memos
    exact .cons first (rest.imp fun _ _ => first.since)

theorem resolveMark_alike (h : p.SamePublic r) (hm : m.SamePublic n) (mark : Mark) :
    (p.resolveMark m mark).Alike m n (r.resolveMark n mark) := by
  cases mark with
  | simple body =>
    unfold resolveMark
    cases hr : SimpleToken.read (Mark.simple body).text body with
    | ok token => simpa only [hr] using resolveSegments_alike h hm token.segments
    | error e => simpa only [hr] using Step.Alike.settled hm _
  | namespaced context field =>
    unfold resolveMark
    cases hr : MetadataToken.read (Mark.namespaced context field).text context field with
    | ok token => simpa only [hr] using resolveMetadata_alike h hm token
    | error e => simpa only [hr, failed_eq h] using Step.Alike.settled hm _

theorem fillPieces_alike (h : p.SamePublic r) (hm : m.SamePublic n) (ps : List Piece) :
    (p.fillPieces m ps).Alike m n (r.fillPieces n ps) := by
  induction ps generalizing m n with
  | nil => exact .settled hm _
  | cons piece ps ih =>
    cases piece with
    | char c => exact (Step.Alike.settled hm ()).andThen (ih hm) fun _ rest => c :: rest
    | mark mark =>
      have first := resolveMark_alike h hm mark
      exact first.andThen (ih first.memos) fun resolution rest =>
        resolution.replacement mark ++ rest

end Resolver

namespace Session
variable {p r : Resolver} {m n : Memo LookupKey}

theorem fill_alike (h : p.SamePublic r) (hm : m.SamePublic n) (c : Call) :
    (fill ⟨p, m⟩ c).Alike m n (fill ⟨r, n⟩ c) := by
  have grammar : grammarOf ⟨p, m⟩ c = grammarOf ⟨r, n⟩ c := by simp only [grammarOf, h.config]
  have filled := Resolver.fillPieces_alike h hm ((grammarOf ⟨r, n⟩ c).pieces c.text)
  unfold fill Resolver.fill
  rw [grammar]
  exact (Step.Alike.settled hm ()).andThen filled fun _ out =>
    if out.isEmpty then c.text else String.ofList out

theorem fillAll_alike (h : p.SamePublic r) (hm : m.SamePublic n) (calls : List Call) :
    List.Forall₂ (Step.Alike m n) (fillAll ⟨p, m⟩ calls) (fillAll ⟨r, n⟩ calls) := by
  induction calls generalizing m n with
  | nil => exact .nil
  | cons c calls ih =>
    have first := fill_alike h hm c
    have rest := ih first.memos
    exact .cons first (rest.imp fun _ _ => first.since)

/-- An anonymous viewer is shown the same, and the stores are asked the same, in all that may be
told apart only by what is private. -/
theorem anonymous_alike {p r : Resolver} (h : p.SamePublic r) {m n : Memo LookupKey}
    (hm : m.SamePublic n) :
    (∀ ts, List.Forall₂ (Step.Alike m n) (p.resolveAll m ts) (r.resolveAll n ts)) ∧
      ∀ calls, List.Forall₂ (Step.Alike m n) (fillAll ⟨p, m⟩ calls) (fillAll ⟨r, n⟩ calls) :=
  ⟨Resolver.resolveAll_alike h hm, fillAll_alike h hm⟩

/-- One store has an address and a grade for the teacher, whose name is split up differently, and
the other fails where these are asked for; a viewer who was signed in left the address in a memo. -/
theorem anonymous_alike_teacher :
    let A : Store :=
      { accounts := [{ id := 2, firstName := "Ada", lastName := "Byron", email := "ada@home" }]
        roles := [⟨2, 5, "teacher"⟩]
        grades := [⟨2, 5, 4⟩] }
    let B : Store :=
      { accounts := [{ id := 2, lastName := "Ada Byron" }]
        roles := [⟨2, 5, "teacher"⟩]
        failing := [.account, .finalGrade] }
    let reader (s : Store) : Resolver := { store := s, audience := .english .anonymous (some 5) }
    let left : Memo LookupKey := ⟨[(⟨"role:teacher", "email", 5⟩, "ada@home")]⟩
    let calls : List Call := [⟨"{TEACHER_FULLNAME} {TEACHER_EMAIL} {COURSE_USER_GRADE}", none⟩]
    (reader A).SamePublic (reader B) ∧ left.SamePublic .empty ∧
      List.Forall₂ (Step.Alike left .empty) (fillAll ⟨reader A, left⟩ calls)
        (fillAll ⟨reader B, .empty⟩ calls) ∧
      (fillAll ⟨reader A, left⟩ calls).map (·.result) = ["Ada Byron - -"] := by
  intro A B reader left calls
  have stores : A.SamePublic B :=
    { courses := rfl
      roles := rfl
      instances := rfl
      metadata := rfl
      failures := by
        intro kind hk
        simp only [QueryKind.Public, List.mem_cons, List.not_mem_nil, or_false] at hk
        rcases hk with rfl | rfl | rfl | rfl <;> rfl
      names := by
        intro id
        by_cases hid : (2 : RecordId) = id
        · subst hid
          decide +kernel
        · simp [A, B, Store.account?, hid] }
  have same : (reader A).SamePublic (reader B) :=
    ⟨stores, rfl, rfl, rfl, rfl, Directory.builtin_isBuiltin⟩
  have memos : left.SamePublic .empty := by
    intro k hk
    have other : k ≠ ⟨"role:teacher", "email", 5⟩ := by
      rintro rfl
      exact hk (.inr ⟨⟨"teacher", rfl⟩, rfl⟩)
    simp [left, Memo.get?, Memo.empty, List.lookup_cons, beq_false_of_ne other]
  exact ⟨same, memos, (anonymous_alike same memos).2 calls, by decide +kernel⟩

end Session

end Placeholders
