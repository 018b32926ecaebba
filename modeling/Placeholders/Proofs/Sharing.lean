import Placeholders.Proofs.Anonymity
import Placeholders.Proofs.Transparency

namespace Placeholders

/-- A token that comes up for a viewer in a course, or outside any. -/
structure Turn where
  viewer : Viewer
  course : Option RecordId
  token : Token

/-- The viewer and the field, where a turn asks what the viewer is to the course. -/
def Turn.membership? (t : Turn) : Option (RecordId × MemberField) :=
  match t.viewer, t.course, t.token with
  | .signedIn viewer, some _, .simple s =>
    match Request.ofSegments s.segments with
    | .member field => some (viewer, field)
    | _ => none
  | _, _, _ => none

theorem Turn.membership?_eq_some_iff {t : Turn} {viewer : RecordId} {field : MemberField} :
    t.membership? = some (viewer, field) ↔ ∃ course s,
      t = ⟨.signedIn viewer, some course, .simple s⟩ ∧
        Request.ofSegments s.segments = .member field := by
  constructor
  · intro h
    obtain ⟨who, place, token⟩ := t
    cases who with
    | anonymous => cases h
    | signedIn who =>
      cases place with
      | none => cases h
      | some course =>
        cases token with
        | metadata s => cases h
        | simple s =>
          simp only [membership?] at h
          split at h
          · rename_i asked
            cases h
            exact ⟨course, s, rfl, asked⟩
          · cases h
  · rintro ⟨course, s, rfl, asked⟩
    simp only [membership?, asked]

def Resolution.text? : Resolution → Option String
  | .resolved value => if value = "" then none else some value
  | _ => none

theorem Resolution.text?_eq_some_iff {resolution : Resolution} {v : String} :
    resolution.text? = some v ↔ resolution = .resolved v ∧ v ≠ "" := by
  cases resolution with
  | resolved value =>
    simp only [text?, Option.ite_none_left_eq_some, resolved.injEq, Option.some.injEq]
    constructor
    · rintro ⟨full, rfl⟩
      exact ⟨rfl, full⟩
    · rintro ⟨rfl, full⟩
      exact ⟨full, rfl⟩
  | unresolved => simp [text?]
  | placeholder phrase => simp [text?]

namespace Resolver

/-- The resolver for the viewer and the course of a turn; all else stays. -/
def seenBy (r : Resolver) (t : Turn) : Resolver :=
  { r with audience := { r.audience with viewer := t.viewer, course := t.course } }

def take (r : Resolver) (m : Memo LookupKey) (t : Turn) : Step Resolution :=
  (r.seenBy t).resolveToken m t.token

/-- What a turn brings where nothing is kept. -/
def alone (r : Resolver) (t : Turn) : Resolution := (r.take .empty t).result

def heldAfter (r : Resolver) (turns : List Turn) : Memo LookupKey :=
  turns.foldl (fun m t => (r.take m t).memo) .empty

/-- Whether the text of the one turn is shown for the other: both ask for the same fact about the
same viewer, be it in the same course or not, and the one finds it. -/
def lends (r : Resolver) (e t : Turn) : Bool :=
  e.membership?.isSome && e.membership? = t.membership? && (r.alone e).text?.isSome

/-- The turn whose text is shown: the first before it that lends one, or else the turn itself. -/
def source (r : Resolver) (past : List Turn) (t : Turn) : Turn :=
  (past.find? (r.lends · t)).getD t

def turnErrand (r : Resolver) (t : Turn) : Errand :=
  match t.token with
  | .simple s => (r.seenBy t).segmentsErrand s.segments
  | .metadata s => (r.seenBy t).metadataErrand s

/-- What a turn has to keep under a key. -/
def offer? (r : Resolver) (t : Turn) (k : LookupKey) : Option String :=
  (r.turnErrand t).gain r.store k

variable {r : Resolver} {t e : Turn} {l : Lookup} {viewer : RecordId} {field : MemberField}

theorem take_run (r : Resolver) (m : Memo LookupKey) (t : Turn) :
    r.take m t = (r.turnErrand t).run r.store m := by
  rw [take, resolveToken_run]
  rfl

theorem alone_eq_answer (r : Resolver) (t : Turn) :
    r.alone t = (r.turnErrand t).answer r.store := by
  rw [alone, take_run]
  exact Errand.run_empty _ r.store

/-- A key holds what the first turn that has something to keep under it has. -/
theorem get?_heldAfter (r : Resolver) (turns : List Turn) (k : LookupKey) :
    (r.heldAfter turns).get? k = turns.findSome? (r.offer? · k) := by
  have step (m : Memo LookupKey) (t : Turn) (k : LookupKey) :
      (r.take m t).memo.get? k = (m.get? k).or (r.offer? t k) := by
    rw [take_run]
    exact (r.turnErrand t).get?_run_memo r.store m k
  exact Memo.get?_foldl step .empty turns k

theorem turnErrand_makes (h : (r.turnErrand t).lookup? = some l) : (r.seenBy t).Makes l := by
  unfold turnErrand at h
  split at h
  · exact segmentsErrand_makes h
  · exact metadataErrand_makes h

theorem turnErrand_of_membership (h : t.membership? = some (viewer, field)) :
    ∃ course, r.turnErrand t = ⟨[], .lookup
      (.member (r.seenBy t).audience r.config viewer course field)
      (r.seenBy t).simpleResolution⟩ := by
  obtain ⟨course, s, rfl, asked⟩ := Turn.membership?_eq_some_iff.mp h
  refine ⟨course, ?_⟩
  simp only [turnErrand, segmentsErrand, plan, asked]
  rfl

theorem plan_member {segments : List String}
    (h : r.plan segments = .lookup l) (hs : l.subject = .member field viewer) :
    r.audience.viewer = .signedIn viewer ∧ (∃ course, r.audience.course = some course) ∧
      Request.ofSegments segments = .member field := by
  unfold plan Request.plan at h
  split at h
  · rename_i who hv
    rcases planSignedIn_lookup h with ⟨_, rfl⟩ | ⟨_, rfl⟩ |
      ⟨course, hc, ⟨_, rfl⟩ | ⟨asked, hq, rfl⟩ | ⟨_, _, rfl⟩⟩
    · cases hs
    · cases hs
    · cases hs
    · rw [member_subject] at hs
      cases hs
      exact ⟨hv, ⟨course, hc⟩, hq⟩
    · cases hs
  · obtain ⟨course, _, ⟨asked, rfl⟩ | ⟨role, rfl⟩⟩ := planAnonymous_lookup h <;> cases hs

theorem membership?_of_lookup (h : (r.turnErrand t).lookup? = some l)
    (hs : l.subject = .member field viewer) : t.membership? = some (viewer, field) := by
  obtain ⟨who, course, token⟩ := t
  cases token with
  | simple s =>
    obtain ⟨hv, ⟨id, hc⟩, hq⟩ := plan_member (segmentsErrand_lookup?_iff.mp h) hs
    obtain rfl : who = .signedIn viewer := hv
    obtain rfl : course = some id := hc
    exact Turn.membership?_eq_some_iff.mpr ⟨id, s, rfl, hq⟩
  | metadata s =>
    obtain ⟨_, _, _, rfl⟩ := metadataLookup_lookup (metadataErrand_lookup?_iff.mp h)
    cases hs

/-- All other lookups are the same for every audience. -/
theorem lookupFor?_seenBy {s : Subject} (h : ∀ field viewer, s ≠ .member field viewer)
    (r : Resolver) (t e : Turn) : (r.seenBy t).lookupFor? s = (r.seenBy e).lookupFor? s := by
  cases s with
  | member field viewer => exact absurd rfl (h field viewer)
  | account field viewer => rfl
  | customField name viewer => rfl
  | course field course => rfl
  | holders role field course => rfl
  | metadata context field inst => rfl

theorem offer?_eq_some {k : LookupKey} {v : String} (h : r.offer? e k = some v) :
    ∃ l, (r.turnErrand e).lookup? = some l ∧ l.key = k ∧ l.outcome r.store = .ok (some v) := by
  obtain ⟨l, hl, hk, found, _⟩ := Errand.gain_eq_some h
  exact ⟨l, hl, hk, found⟩

theorem take_of_no_membership (h : t.membership? = none) (past : List Turn) :
    (r.take (r.heldAfter past) t).result = r.alone t := by
  rw [take_run, alone_eq_answer]
  apply Errand.run_of_agree
  intro l v hl hv
  rw [get?_heldAfter] at hv
  obtain ⟨e, _, kept⟩ := List.exists_of_findSome?_eq_some hv
  obtain ⟨k, hk, same, found⟩ := offer?_eq_some kept
  -- Only memberships share a key, so what is held came from the very same lookup.
  have about := Lookup.key_eq_iff.mp same
  have other : ∀ field viewer, l.subject ≠ .member field viewer := by
    intro field viewer hs
    rw [membership?_of_lookup hl hs] at h
    cases h
  have own := turnErrand_makes hl
  have lent := turnErrand_makes hk
  rw [Makes, about, lookupFor?_seenBy other r e t] at lent
  rw [Makes, lent] at own
  obtain rfl := Option.some.inj own
  exact found

theorem text?_simpleResolution (r : Resolver) (outcome : Except Failure (Option String)) :
    (r.simpleResolution outcome).text? = Memo.kept outcome := by
  cases outcome with
  | ok found => cases found <;> rfl
  | error e => rfl

theorem offer?_member (r : Resolver) (viewer : RecordId) (field : MemberField) (e : Turn) :
    r.offer? e (Subject.member field viewer).key =
      if e.membership? = some (viewer, field) then (r.alone e).text? else none := by
  split
  · rename_i h
    obtain ⟨course, errand⟩ := turnErrand_of_membership (r := r) h
    rw [alone_eq_answer, offer?, errand]
    simp only [Errand.gain, Errand.lookup?, Errand.answer, text?_simpleResolution, Lookup.key,
      member_subject, ↓reduceIte]
  · rename_i h
    rw [Option.eq_none_iff_forall_ne_some]
    intro v hv
    obtain ⟨l, hl, hk, _⟩ := offer?_eq_some hv
    exact h (membership?_of_lookup hl (Subject.key_injective hk))

theorem lends_eq_isSome (h : t.membership? = some (viewer, field)) (e : Turn) :
    r.lends e t = (r.offer? e (Subject.member field viewer).key).isSome := by
  rw [offer?_member, lends, h]
  by_cases he : e.membership? = some (viewer, field) <;> simp [he]

theorem lends_iff : r.lends e t = true ↔ ∃ who v, e.membership? = some who ∧
    t.membership? = some who ∧ r.alone e = .resolved v ∧ v ≠ "" := by
  simp only [lends, Bool.and_eq_true, decide_eq_true_eq, Option.isSome_iff_exists,
    Resolution.text?_eq_some_iff]
  constructor
  · rintro ⟨⟨⟨who, he⟩, same⟩, v, found⟩
    exact ⟨who, v, he, same.symm.trans he, found⟩
  · rintro ⟨who, v, he, ht, found⟩
    exact ⟨⟨⟨who, he⟩, he.trans ht.symm⟩, v, found⟩

/-- Under the key of a membership is the text that the first turn has to lend. -/
theorem get?_heldAfter_member (h : t.membership? = some (viewer, field)) (past : List Turn) :
    (r.heldAfter past).get? (Subject.member field viewer).key =
      (past.find? (r.lends · t)).bind (r.offer? · (Subject.member field viewer).key) := by
  rw [get?_heldAfter]
  exact findSome?_eq_bind_find? (lends_eq_isSome h) past

theorem take_of_membership (h : t.membership? = some (viewer, field)) (past : List Turn) :
    (r.take (r.heldAfter past) t).result = r.alone (r.source past t) := by
  obtain ⟨course, errand⟩ := turnErrand_of_membership (r := r) h
  have held := get?_heldAfter_member (r := r) h past
  rw [source, take_run]
  cases hf : past.find? (r.lends · t) with
  | none =>
    rw [hf] at held
    rw [Option.getD_none, alone_eq_answer]
    apply Errand.run_of_not_held
    intro l hl
    rw [errand] at hl
    cases hl
    rw [Lookup.key, member_subject]
    exact held
  | some e =>
    have lent : r.lends e t = true := List.find?_some (p := (r.lends · t)) hf
    obtain ⟨who, v, he, ht, found⟩ := lends_iff.mp lent
    have same : e.membership? = some (viewer, field) := he.trans (ht.symm.trans h)
    rw [hf, Option.bind_some, offer?_member, if_pos same, Resolution.text?_eq_some_iff.mpr found]
      at held
    rw [← member_subject (r.seenBy t).audience r.config viewer course field] at held
    rw [Option.getD_some, found.1]
    exact Errand.run_of_get? (congrArg Errand.ending errand) held r.store

/-- Turns that ask for the same fact in the same course bring the same on their own. -/
theorem alone_congr {who : RecordId × MemberField} (he : e.membership? = some who)
    (ht : t.membership? = some who) (hc : e.course = t.course) : r.alone e = r.alone t := by
  obtain ⟨viewer, field⟩ := who
  obtain ⟨course, s, rfl, asked⟩ := Turn.membership?_eq_some_iff.mp he
  obtain ⟨_, s', rfl, asked'⟩ := Turn.membership?_eq_some_iff.mp ht
  cases hc
  have errand : r.turnErrand ⟨.signedIn viewer, some course, .simple s⟩ =
      r.turnErrand ⟨.signedIn viewer, some course, .simple s'⟩ := by
    simp only [turnErrand, segmentsErrand, plan, asked, asked']
    rfl
  rw [alone_eq_answer, alone_eq_answer, errand]

/-- Each turn is shown what one turn finds on its own: the turn itself, unless an earlier one has
found the same fact about the same viewer. Then the fact may be one about another course. -/
theorem take_shared (r : Resolver) (past : List Turn) (t : Turn) :
    (r.take (r.heldAfter past) t).result = r.alone (r.source past t) ∧
      ((∀ e ∈ past, r.lends e t → e.course = t.course) →
        (r.take (r.heldAfter past) t).result = r.alone t) := by
  have shown : (r.take (r.heldAfter past) t).result = r.alone (r.source past t) := by
    cases h : t.membership? with
    | some who => exact take_of_membership h past
    | none =>
      have own : r.source past t = t := by
        have nobody : past.find? (r.lends · t) = none := by
          rw [List.find?_eq_none]
          intro e _ hl
          obtain ⟨_, _, _, ht, _⟩ := lends_iff.mp hl
          rw [h] at ht
          cases ht
        rw [source, nobody, Option.getD_none]
      rw [own, take_of_no_membership h]
  refine ⟨shown, fun near => shown.trans ?_⟩
  rw [source]
  cases hf : past.find? (r.lends · t) with
  | none => rfl
  | some e =>
    have lent : r.lends e t = true := List.find?_some (p := (r.lends · t)) hf
    obtain ⟨who, _, he, ht, _⟩ := lends_iff.mp lent
    exact alone_congr he ht (near e (List.mem_of_find?_eq_some hf) lent)

/-- A teacher in one course is a student in another, and is shown as a teacher there as well. -/
theorem take_stale :
    let r : Resolver :=
      { store := { roles := [⟨2, 5, "teacher"⟩, ⟨2, 6, "student"⟩] }
        audience := .english .anonymous none }
    let asked : Token := .simple ⟨"\x7bCOURSE_USER_ROLE\x7d", ["COURSE", "USER", "ROLE"]⟩
    let t : Turn := ⟨.signedIn 2, some 6, asked⟩
    (r.take (r.heldAfter [⟨.signedIn 2, some 5, asked⟩]) t).result = .resolved "teacher" ∧
      r.alone t = .resolved "student" := by
  decide +kernel

end Resolver

end Placeholders
