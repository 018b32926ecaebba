import Placeholders.Failure

namespace Placeholders

/-- The values kept, the latest first, with no two for one key. The first non-empty value found for
a key is kept and nothing else: failures, missing values and empty ones are looked up again. -/
structure Memo (κ : Type) where
  entries : List (κ × String) := []
  deriving DecidableEq, Repr

structure Fetched (κ : Type) where
  outcome : Except Failure (Option String)
  computed : Bool
  memo : Memo κ

namespace Memo
variable {κ : Type} [DecidableEq κ]

def empty : Memo κ := {}

def get? (m : Memo κ) (k : κ) : Option String := m.entries.lookup k

def size (m : Memo κ) : Nat := m.entries.length

def isEmpty (m : Memo κ) : Bool := m.entries.isEmpty

/-- The memo after a computation for a key that it does not hold. -/
def keep (m : Memo κ) (k : κ) : Except Failure (Option String) → Memo κ
  | .ok (some v) => if v = "" then m else ⟨(k, v) :: m.entries⟩
  | _ => m

/-- The value kept for a key, or else what `compute` answers, to be kept if it is a value. -/
def fetch (m : Memo κ) (k : κ) (compute : Unit → Except Failure (Option String)) : Fetched κ :=
  match m.get? k with
  | some v => ⟨.ok (some v), false, m⟩
  | none =>
    let outcome := compute ()
    ⟨outcome, true, m.keep k outcome⟩

theorem fetch_of_get? {m : Memo κ} {k : κ} {v : String} (h : m.get? k = some v)
    (compute : Unit → Except Failure (Option String)) :
    m.fetch k compute = ⟨.ok (some v), false, m⟩ := by
  simp [fetch, h]

theorem fetch_of_not_held {m : Memo κ} {k : κ} (h : m.get? k = none)
    (compute : Unit → Except Failure (Option String)) :
    m.fetch k compute = ⟨compute (), true, m.keep k (compute ())⟩ := by
  simp [fetch, h]

theorem get?_keep_of_ne {m : Memo κ} {k l : κ} (h : l ≠ k)
    (outcome : Except Failure (Option String)) : (m.keep k outcome).get? l = m.get? l := by
  unfold keep
  split
  · split
    · rfl
    · simp [get?, List.lookup_cons, beq_false_of_ne h]
  · rfl

theorem get?_keep_self {m : Memo κ} {k : κ} {v : String} (h : v ≠ "") :
    (m.keep k (.ok (some v))).get? k = some v := by
  simp [keep, h, get?]

/-- What is kept of an outcome: the value, if it is not empty. -/
def kept : Except Failure (Option String) → Option String
  | .ok (some v) => if v = "" then none else some v
  | _ => none

theorem kept_eq_some_iff {outcome : Except Failure (Option String)} {v : String} :
    kept outcome = some v ↔ outcome = .ok (some v) ∧ v ≠ "" := by
  unfold kept
  split
  · rename_i w
    by_cases hw : w = ""
    · simp only [hw, ↓reduceIte, reduceCtorEq, Except.ok.injEq, Option.some.injEq, false_iff]
      rintro ⟨rfl, hv⟩
      exact hv rfl
    · simp only [hw, ↓reduceIte, Option.some.injEq, Except.ok.injEq]
      exact ⟨fun h => ⟨h, h ▸ hw⟩, fun h => h.1⟩
  · rename_i hn
    simp only [reduceCtorEq, false_iff]
    rintro ⟨rfl, _⟩
    exact hn v rfl

/-- A key that is not held is held afterwards if there was something to keep. -/
theorem get?_keep_new {m : Memo κ} {k : κ} (h : m.get? k = none)
    (outcome : Except Failure (Option String)) : (m.keep k outcome).get? k = kept outcome := by
  cases hv : kept outcome with
  | some v =>
    obtain ⟨rfl, hne⟩ := kept_eq_some_iff.mp hv
    exact get?_keep_self hne
  | none =>
    unfold keep
    split
    · rename_i v
      by_cases hne : v = ""
      · simpa [hne] using h
      · simp [kept, hne] at hv
    · exact h

/-- What is held under the key asked for changes, and only where nothing was. -/
theorem get?_fetch (m : Memo κ) (k : κ) (compute : Unit → Except Failure (Option String)) (l : κ) :
    (m.fetch k compute).memo.get? l =
      (m.get? l).or (if k = l then kept (compute ()) else none) := by
  cases h : m.get? k with
  | some v =>
    rw [fetch_of_get? h]
    by_cases hk : k = l
    · subst hk; simp [h]
    · simp [hk]
  | none =>
    rw [fetch_of_not_held h]
    by_cases hk : k = l
    · subst hk; simp [h, get?_keep_new h]
    · simp [hk, get?_keep_of_ne (Ne.symm hk)]

def keys (m : Memo κ) : List κ := m.entries.map Prod.fst

theorem isSome_get?_iff {m : Memo κ} {k : κ} : (m.get? k).isSome ↔ k ∈ m.keys := by
  simp [get?, keys]

theorem keys_keep_nodup {m : Memo κ} {k : κ} (hm : m.keys.Nodup) (h : m.get? k = none)
    (outcome : Except Failure (Option String)) : (m.keep k outcome).keys.Nodup := by
  unfold keep
  split
  · split
    · exact hm
    · have new : k ∉ m.keys := by simp [← isSome_get?_iff, h]
      exact List.nodup_cons.mpr ⟨new, hm⟩
  · exact hm

theorem keys_fetch_nodup {m : Memo κ} (hm : m.keys.Nodup) (k : κ)
    (compute : Unit → Except Failure (Option String)) : (m.fetch k compute).memo.keys.Nodup := by
  cases h : m.get? k with
  | some v => rwa [fetch_of_get? h]
  | none =>
    rw [fetch_of_not_held h]
    exact keys_keep_nodup hm h _

end Memo

end Placeholders
