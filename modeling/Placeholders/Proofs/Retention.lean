import Mathlib.Data.List.Induction
import Placeholders.Proofs.Anonymity

namespace Placeholders

/-- A memo without empty texts. -/
def Memo.Full {κ : Type} [DecidableEq κ] (m : Memo κ) : Prop := ∀ k v, m.get? k = some v → v ≠ ""

def Memo.Le {κ : Type} [DecidableEq κ] (m n : Memo κ) : Prop :=
  ∀ k v, m.get? k = some v → n.get? k = some v

/-- A lookup leaves the memo alone, or it keeps the text that it has just found. -/
theorem Lookup.run_cases (l : Lookup) (s : Store) (m : Memo LookupKey) :
    (l.run s m).memo = m ∨ m.get? l.key = none ∧ ∃ v, v ≠ "" ∧
      l.run s m = ⟨.ok (some v), [l.query], ⟨(l.key, v) :: m.entries⟩⟩ := by
  cases h : m.get? l.key with
  | some v =>
    left
    rw [run_of_get? h]
  | none =>
    rw [run_of_not_held h]
    match ho : l.outcome s with
    | .error e => exact .inl rfl
    | .ok none => exact .inl rfl
    | .ok (some v) =>
      by_cases full : v = ""
      · simp [Memo.keep, full]
      · refine .inr ⟨rfl, v, full, ?_⟩
        simp [Memo.keep, full]

namespace Resolver

/-- Of a text that is not empty, either grammar makes the text itself. -/
theorem tokenErrand_read {r : Resolver} {t : Token} {l : Lookup}
    {read : Except Failure (Option String) → Resolution}
    (h : (r.tokenErrand t).ending = .lookup l read) {v : String} (full : v ≠ "") :
    read (.ok (some v)) = .resolved v := by
  cases t with
  | simple t =>
    obtain ⟨_, rfl⟩ := segmentsErrand_ending_iff.mp h
    rfl
  | metadata t =>
    obtain ⟨_, rfl⟩ := metadataErrand_ending_iff.mp h
    simp [metadataResolution, full]

end Resolver

/-- A request for what identifies an account, or for facts about one. -/
def Request.personal : Request → Bool
  | .account _ => true
  | .customField _ => true
  | .member _ => true
  | .holders _ .email => true
  | _ => false

structure Encounter where
  resolver : Resolver
  token : Token

namespace Encounter

def meet (e : Encounter) (m : Memo LookupKey) : Step Resolution :=
  e.resolver.resolveToken m e.token

def lookup? (e : Encounter) : Option Lookup :=
  match e.token with
  | .simple t =>
    match e.resolver.plan t.segments with
    | .settled _ => none
    | .lookup l => some l
  | .metadata t => (e.resolver.metadataLookup t).outcome.toOption

/-- The queries by which a context finds the instance for a token that names none. -/
def instanceQueries (e : Encounter) : List Query :=
  match e.token with
  | .simple _ => []
  | .metadata t =>
    match t.inst, e.resolver.directory.get? t.category with
    | none, some c => (c.findInstance e.resolver.audience e.resolver.store).queries
    | _, _ => []

/-- What is kept after encounters that have nothing but the memo in common. -/
def memoAfter (past : List Encounter) : Memo LookupKey :=
  past.foldl (fun m e => (e.meet m).memo) .empty

theorem tokenErrand_lookup? (e : Encounter) :
    (e.resolver.tokenErrand e.token).lookup? = e.lookup? := by
  obtain ⟨r, token⟩ := e
  cases token with
  | simple t =>
    simp only [lookup?, Resolver.tokenErrand, Resolver.segmentsErrand]
    cases r.plan t.segments <;> rfl
  | metadata t => exact r.metadataErrand_lookup? t

theorem tokenErrand_queries (e : Encounter) :
    (e.resolver.tokenErrand e.token).queries = e.instanceQueries := by
  obtain ⟨r, token⟩ := e
  cases token with
  | simple t => exact r.segmentsErrand_queries t.segments
  | metadata t =>
    simp only [instanceQueries, Resolver.tokenErrand, Resolver.metadataErrand_puts,
      Resolver.metadataLookup]
    cases r.directory.get? t.category with
    | none => cases t.inst <;> rfl
    | some c => cases hi : t.inst <;> simp [Resolver.instanceOf, hi]

theorem meet_run (e : Encounter) (m : Memo LookupKey) :
    e.meet m = (e.resolver.tokenErrand e.token).run e.resolver.store m :=
  e.resolver.resolveToken_run m e.token

theorem meet_of_held {e : Encounter} {m : Memo LookupKey} {l : Lookup} {v : String}
    (hl : e.lookup? = some l) (held : m.get? l.key = some v) (full : v ≠ "") :
    e.meet m = ⟨.resolved v, e.instanceQueries, m⟩ := by
  rw [← tokenErrand_lookup?] at hl
  obtain ⟨read, he⟩ := Errand.lookup?_eq_some_iff.mp hl
  simp only [meet_run, Errand.run, he, Lookup.run_of_get? held, List.append_nil,
    tokenErrand_queries, Resolver.tokenErrand_read he full]

/-- An encounter leaves the memo alone, or it shows a text that it keeps under a new key. -/
theorem meet_cases (e : Encounter) (m : Memo LookupKey) :
    (e.meet m).memo = m ∨ ∃ l v, e.lookup? = some l ∧ m.get? l.key = none ∧ v ≠ "" ∧
      e.meet m = ⟨.resolved v, e.instanceQueries ++ [l.query], ⟨(l.key, v) :: m.entries⟩⟩ := by
  rw [meet_run, ← tokenErrand_lookup?, ← tokenErrand_queries]
  unfold Errand.run Errand.lookup?
  cases he : (e.resolver.tokenErrand e.token).ending with
  | settled resolution => exact .inl rfl
  | lookup l read =>
    rcases l.run_cases e.resolver.store m with same | ⟨new, v, full, found⟩
    · exact .inl same
    · refine .inr ⟨l, v, rfl, new, full, ?_⟩
      simp only [found, Resolver.tokenErrand_read he full]

theorem get?_meet (e : Encounter) (m : Memo LookupKey) (k : LookupKey) :
    (e.meet m).memo.get? k =
      (m.get? k).or ((e.resolver.tokenErrand e.token).gain e.resolver.store k) := by
  rw [meet_run]
  exact Errand.get?_run_memo _ _ m k

theorem meet_full {m : Memo LookupKey} (hm : m.Full) (e : Encounter) : (e.meet m).memo.Full := by
  intro k v hv
  rw [get?_meet, Option.or_eq_some_iff] at hv
  rcases hv with held | ⟨_, gained⟩
  · exact hm k v held
  · obtain ⟨_, _, _, _, full⟩ := Errand.gain_eq_some gained
    exact full

theorem meet_le (e : Encounter) (m : Memo LookupKey) : m.Le (e.meet m).memo := by
  intro k v held
  rw [get?_meet, held, Option.some_or]

theorem memoAfter_snoc (past : List Encounter) (e : Encounter) :
    memoAfter (past ++ [e]) = (e.meet (memoAfter past)).memo := by
  simp [memoAfter]

theorem memoAfter_full (past : List Encounter) : (memoAfter past).Full := by
  induction past using List.reverseRecOn with
  | nil =>
    intro k v held
    cases held
  | append_singleton past e ih =>
    rw [memoAfter_snoc]
    exact meet_full ih e

theorem memoAfter_le (past later : List Encounter) :
    (memoAfter past).Le (memoAfter (past ++ later)) := by
  induction later using List.reverseRecOn with
  | nil =>
    intro k v held
    rwa [List.append_nil]
  | append_singleton later e ih =>
    intro k v held
    rw [← List.append_assoc, memoAfter_snoc]
    exact meet_le e _ k v (ih k v held)

/-- An anonymous viewer is told nothing personal, and nothing is looked up for it. -/
theorem meet_masked {e : Encounter} {t : SimpleToken} (ht : e.token = .simple t)
    (hv : e.resolver.audience.viewer = .anonymous)
    (hp : (Request.ofSegments t.segments).personal = true) (m : Memo LookupKey) :
    ∃ text ∈ [e.resolver.phrase "guest", "", dash], e.meet m = ⟨.resolved text, [], m⟩ := by
  obtain ⟨r, token⟩ := e
  obtain rfl : token = .simple t := ht
  have settled {text : String} (h : r.plan t.segments = .settled (some text)) :
      meet ⟨r, .simple t⟩ m = ⟨.resolved text, [], m⟩ := by
    simp only [meet, Resolver.resolveToken, Resolver.resolveSegments, h]
    rfl
  have planned : r.plan t.segments =
      (Request.ofSegments t.segments).planAnonymous r.audience r.config := by
    rw [Resolver.plan, Request.plan, hv]
  cases hq : Request.ofSegments t.segments with
  | account field =>
    rw [hq] at planned
    refine ⟨_, ?_, settled planned⟩
    cases field <;> simp [Request.guestText, Resolver.phrase]
  | customField name =>
    rw [hq] at planned
    exact ⟨dash, by simp, settled planned⟩
  | member field =>
    rw [hq] at planned
    exact ⟨dash, by simp, settled planned⟩
  | holders role field =>
    rw [hq] at hp planned
    cases field with
    | email => exact ⟨dash, by simp, settled planned⟩
    | fullName => cases hp
  | course field =>
    rw [hq] at hp
    cases hp
  | unknown =>
    rw [hq] at hp
    cases hp

/-- What one more encounter finds in the memo and what it leaves there. -/
structure Sticky (past : List Encounter) (e : Encounter) : Prop where
  /-- Empty texts are not kept. -/
  full : (memoAfter past).Full
  /-- Nothing that is held is ever lost or replaced. -/
  stays : ∀ later, (memoAfter past).Le (memoAfter (past ++ later))
  /-- The memo stays as it is, but for one entry at most: the text that was just found for a key
  under which nothing was held. -/
  grows : (e.meet (memoAfter past)).memo = memoAfter past ∨ ∃ l v, e.lookup? = some l ∧
    (memoAfter past).get? l.key = none ∧ v ≠ "" ∧
    (e.meet (memoAfter past)).result = .resolved v ∧
    (e.meet (memoAfter past)).memo.entries = (l.key, v) :: (memoAfter past).entries
  /-- What is held for the key is shown, whatever the store at hand would answer, and only the
  queries for an instance are put. -/
  answered : ∀ l v, e.lookup? = some l → (memoAfter past).get? l.key = some v →
    e.meet (memoAfter past) = ⟨.resolved v, e.instanceQueries, memoAfter past⟩
  /-- In a directory of the library's own kinds of context these only ask what a context is mapped
  to. -/
  instances : e.resolver.directory.Builtin →
    ∀ q ∈ e.instanceQueries, q.kind = .resolveInstance
  /-- A step without a text leaves no trace. -/
  idle : (e.meet (memoAfter past)).result = .unresolved ∨
    (∃ phrase, (e.meet (memoAfter past)).result = .placeholder phrase) ∨
    (e.meet (memoAfter past)).result = .resolved "" →
      (e.meet (memoAfter past)).memo = memoAfter past
  /-- Neither does a step that withholds what is personal from an anonymous viewer. -/
  masked : ∀ t, e.token = .simple t → e.resolver.audience.viewer = .anonymous →
    (Request.ofSegments t.segments).personal = true →
      ∃ text ∈ [e.resolver.phrase "guest", "", dash],
        e.meet (memoAfter past) = ⟨.resolved text, [], memoAfter past⟩

theorem instanceQueries_kind {e : Encounter} (hd : e.resolver.directory.Builtin) {q : Query}
    (hq : q ∈ e.instanceQueries) : q.kind = .resolveInstance := by
  rw [← tokenErrand_queries] at hq
  cases ht : e.token with
  | simple t =>
    rw [ht, Resolver.tokenErrand, Resolver.segmentsErrand_queries] at hq
    cases hq
  | metadata t =>
    rw [ht, Resolver.tokenErrand, Resolver.metadataErrand_queries hd, Option.mem_toList] at hq
    exact Resolver.delegateFor?_kind hq

/-- Texts that were found stay, and nothing else is kept. -/
theorem memoAfter_sticky (past : List Encounter) (e : Encounter) : Sticky past e where
  full := memoAfter_full past
  stays := memoAfter_le past
  grows := by
    rcases e.meet_cases (memoAfter past) with same | ⟨l, v, hl, new, full, found⟩
    · exact .inl same
    · exact .inr ⟨l, v, hl, new, full, by rw [found], by rw [found]⟩
  answered l v hl held := meet_of_held hl held (memoAfter_full past l.key v held)
  instances hd q hq := instanceQueries_kind hd hq
  idle := by
    intro h
    rcases e.meet_cases (memoAfter past) with same | ⟨l, v, hl, new, full, found⟩
    · exact same
    · rw [found] at h
      rcases h with h | ⟨phrase, h⟩ | h
      · cases h
      · cases h
      · exact absurd (Resolution.resolved.inj h) full
  masked t ht hv hp := meet_masked ht hv hp (memoAfter past)

end Encounter

end Placeholders
