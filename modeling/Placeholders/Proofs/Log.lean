import Placeholders.Lookup

namespace Placeholders

/-- A key that a memo is asked for, and what the computation for it would come to. -/
structure Inquiry (κ : Type) where
  key : κ
  outcome : Except Failure (Option String)

/-- The computation would come to a text, and not to an empty one. -/
structure Inquiry.Offers {κ : Type} (q : Inquiry κ) (k : κ) (v : String) : Prop where
  key : q.key = k
  outcome : q.outcome = .ok (some v)
  full : v ≠ ""

namespace Memo
variable {κ : Type} [DecidableEq κ]

def fetchAll : Memo κ → List (Inquiry κ) → List (Fetched κ)
  | _, [] => []
  | m, q :: qs =>
    let fetched := m.fetch q.key fun _ => q.outcome
    fetched :: fetched.memo.fetchAll qs

def after (m : Memo κ) (qs : List (Inquiry κ)) : Memo κ :=
  qs.foldl (fun m q => (m.fetch q.key fun _ => q.outcome).memo) m

/-- A computation that was run came to a text, in a session of inquiries that starts with nothing
held. -/
def Found (qs : List (Inquiry κ)) (i : Nat) (k : κ) (v : String) : Prop :=
  ∃ q fetched, qs[i]? = some q ∧ (empty.fetchAll qs)[i]? = some fetched ∧
    q.Offers k v ∧ fetched.computed = true

theorem fetchAll_length (m : Memo κ) (qs : List (Inquiry κ)) :
    (m.fetchAll qs).length = qs.length := by
  induction qs generalizing m with
  | nil => rfl
  | cons q qs ih => exact congrArg (· + 1) (ih _)

theorem getElem?_fetchAll (m : Memo κ) (qs : List (Inquiry κ)) (i : Nat) :
    (m.fetchAll qs)[i]? =
      qs[i]?.map fun q => (m.after (qs.take i)).fetch q.key fun _ => q.outcome := by
  induction qs generalizing m i with
  | nil => rfl
  | cons q qs ih =>
    cases i with
    | zero => rfl
    | succ i => exact ih _ i

theorem after_take_succ {qs : List (Inquiry κ)} {i : Nat} {q : Inquiry κ} (h : qs[i]? = some q)
    (m : Memo κ) :
    m.after (qs.take (i + 1)) = ((m.after (qs.take i)).fetch q.key fun _ => q.outcome).memo := by
  rw [List.take_add_one, h, after, List.foldl_append]
  rfl

theorem keys_after_nodup (qs : List (Inquiry κ)) {m : Memo κ} (hm : m.keys.Nodup) :
    (m.after qs).keys.Nodup := by
  induction qs generalizing m with
  | nil => exact hm
  | cons q qs ih => exact ih (keys_fetch_nodup hm q.key _)

theorem kept_outcome_iff {q : Inquiry κ} {k : κ} {v : String} :
    (if q.key = k then kept q.outcome else none) = some v ↔ q.Offers k v := by
  split
  · rename_i hk
    rw [kept_eq_some_iff]
    exact ⟨fun h => ⟨hk, h.1, h.2⟩, fun h => ⟨h.outcome, h.full⟩⟩
  · rename_i hk
    exact ⟨fun h => absurd h (by simp), fun h => absurd h.key hk⟩

theorem computed_iff (m : Memo κ) (k : κ) (compute : Unit → Except Failure (Option String)) :
    (m.fetch k compute).computed = true ↔ m.get? k = none := by
  cases h : m.get? k with
  | some v => simp [fetch_of_get? h]
  | none => simp [fetch_of_not_held h]

section
variable {qs : List (Inquiry κ)} {i : Nat} {k : κ} {v : String}

theorem found_iff : Found qs i k v ↔
    ∃ q, qs[i]? = some q ∧ q.Offers k v ∧ (empty.after (qs.take i)).get? k = none := by
  unfold Found
  constructor
  · rintro ⟨q, fetched, hq, hf, offers, ran⟩
    rw [getElem?_fetchAll, hq] at hf
    obtain rfl := Option.some.inj hf
    exact ⟨q, hq, offers, offers.key ▸ (computed_iff _ _ _).mp ran⟩
  · rintro ⟨q, hq, offers, new⟩
    refine ⟨q, _, hq, by rw [getElem?_fetchAll, hq, Option.map_some], offers, ?_⟩
    exact (computed_iff _ _ _).mpr (offers.key ▸ new)

/-- What is held for a key is what a computation for it has come to. -/
theorem get?_after_iff :
    (empty.after (qs.take i)).get? k = some v ↔ ∃ j < i, Found qs j k v := by
  induction i generalizing v with
  | zero => simp [after, empty, get?]
  | succ i ih =>
    simp only [Nat.lt_succ_iff_lt_or_eq, or_and_right, exists_or, exists_eq_left, ← ih]
    cases hq : qs[i]? with
    | none =>
      have past : qs.take (i + 1) = qs.take i := by rw [List.take_add_one, hq]; simp
      simp [past, found_iff, hq]
    | some q =>
      rw [after_take_succ hq, get?_fetch, Option.or_eq_some_iff, kept_outcome_iff]
      simp [found_iff, hq, and_comm]

theorem found_of_offers {q : Inquiry κ} (hq : qs[i]? = some q) (offers : q.Offers k v) :
    ∃ j ≤ i, ∃ w, Found qs j k w := by
  cases held : (empty.after (qs.take i)).get? k with
  | none => exact ⟨i, Nat.le_refl i, v, found_iff.mpr ⟨q, hq, offers, held⟩⟩
  | some w =>
    obtain ⟨j, hj, found⟩ := get?_after_iff.mp held
    exact ⟨j, Nat.le_of_lt hj, w, found⟩

theorem found_iff_first : Found qs i k v ↔ (∃ q, qs[i]? = some q ∧ q.Offers k v) ∧
    ∀ j < i, ∀ q w, qs[j]? = some q → ¬q.Offers k w := by
  rw [found_iff]
  constructor
  · rintro ⟨q, hq, offers, new⟩
    refine ⟨⟨q, hq, offers⟩, fun j hj p w hp earlier => ?_⟩
    obtain ⟨l, hl, u, found⟩ := found_of_offers hp earlier
    have held := get?_after_iff.mpr ⟨l, Nat.lt_of_le_of_lt hl hj, found⟩
    rw [new] at held
    cases held
  · rintro ⟨⟨q, hq, offers⟩, first⟩
    refine ⟨q, hq, offers, Option.eq_none_iff_forall_ne_some.mpr fun w held => ?_⟩
    obtain ⟨j, hj, found⟩ := get?_after_iff.mp held
    obtain ⟨p, _, hp, _, earlier, _⟩ := found
    exact first j hj p w hp earlier

variable {fetched : Fetched κ}

theorem memo_of_fetchAll (h : (empty.fetchAll qs)[i]? = some fetched) :
    fetched.memo = empty.after (qs.take (i + 1)) := by
  rw [getElem?_fetchAll] at h
  obtain ⟨q, hq, rfl⟩ := Option.map_eq_some_iff.mp h
  exact (after_take_succ hq empty).symm

theorem mem_keys_iff (h : (empty.fetchAll qs)[i]? = some fetched) :
    k ∈ fetched.memo.keys ↔ ∃ j ≤ i, ∃ v, Found qs j k v := by
  rw [← isSome_get?_iff, memo_of_fetchAll h, Option.isSome_iff_exists]
  simp only [get?_after_iff, Nat.lt_succ_iff]
  constructor
  · rintro ⟨v, j, hj, found⟩
    exact ⟨j, hj, v, found⟩
  · rintro ⟨j, hj, v, found⟩
    exact ⟨v, j, hj, found⟩

end

/-- What the answers to inquiries say of each other, where nothing was held before them. -/
structure Logged (qs : List (Inquiry κ)) : Prop where
  length : (empty.fetchAll qs).length = qs.length
  /-- A text is found once for a key, by the first computation of all that would come to one. -/
  first : ∀ i k v, Found qs i k v ↔ (∃ q, qs[i]? = some q ∧ q.Offers k v) ∧
    ∀ j < i, ∀ q w, qs[j]? = some q → ¬q.Offers k w
  /-- It is given ever after, and nothing that a computation might say would change that. -/
  again : ∀ i q fetched, qs[i]? = some q → (empty.fetchAll qs)[i]? = some fetched →
    ∀ j < i, ∀ v, Found qs j q.key v →
      fetched.outcome = .ok (some v) ∧ fetched.computed = false ∧
        ∀ compute, (empty.after (qs.take i)).fetch q.key compute = fetched
  /-- Until then a computation is run, and what it comes to is the answer. -/
  computed : ∀ i q fetched, qs[i]? = some q → (empty.fetchAll qs)[i]? = some fetched →
    (∀ j < i, ∀ v, ¬Found qs j q.key v) →
      fetched.outcome = q.outcome ∧ fetched.computed = true
  size : ∀ i fetched, (empty.fetchAll qs)[i]? = some fetched →
    ∃ keys : List κ, keys.Nodup ∧ (∀ k, k ∈ keys ↔ ∃ j ≤ i, ∃ v, Found qs j k v) ∧
      fetched.memo.size = keys.length
  isEmpty : ∀ i fetched, (empty.fetchAll qs)[i]? = some fetched →
    (fetched.memo.isEmpty = true ↔ ∀ j ≤ i, ∀ k v, ¬Found qs j k v)

/-- A memo is a log of the first texts. -/
theorem fetchAll_logged (qs : List (Inquiry κ)) : Logged qs where
  length := fetchAll_length empty qs
  first i k v := found_iff_first
  again i q fetched hq hf j hj v found := by
    have held := get?_after_iff.mpr ⟨j, hj, found⟩
    rw [getElem?_fetchAll, hq] at hf
    obtain rfl := Option.some.inj hf
    simp [fetch_of_get? held]
  computed i q fetched hq hf none := by
    have new : (empty.after (qs.take i)).get? q.key = .none := by
      refine Option.eq_none_iff_forall_ne_some.mpr fun v held => ?_
      obtain ⟨j, hj, found⟩ := get?_after_iff.mp held
      exact none j hj v found
    rw [getElem?_fetchAll, hq] at hf
    obtain rfl := Option.some.inj hf
    simp [fetch_of_not_held new]
  size i fetched hf := by
    refine ⟨fetched.memo.keys, ?_, fun k => mem_keys_iff hf, ?_⟩
    · rw [memo_of_fetchAll hf]
      exact keys_after_nodup _ List.nodup_nil
    · simp [size, keys]
  isEmpty i fetched hf := by
    have none : fetched.memo.isEmpty = true ↔ ∀ k, k ∉ fetched.memo.keys := by
      simp [isEmpty, keys, List.eq_nil_iff_forall_not_mem]
    rw [none]
    simp only [mem_keys_iff hf]
    constructor
    · intro h j hj k v found
      exact h k ⟨j, hj, v, found⟩
    · rintro h k ⟨j, hj, v, found⟩
      exact h j hj k v found

/-- A failure, an empty text and nothing at all are asked for again, a text is not; another
number is another key. -/
example :
    let five : LookupKey := ⟨"course", "fullname", 5⟩
    let answers := empty.fetchAll [⟨five, .error (.dataAccess "down")⟩, ⟨five, .ok none⟩,
      ⟨five, .ok (some "")⟩, ⟨five, .ok (some "A")⟩, ⟨five, .ok (some "B")⟩,
      ⟨⟨"course", "fullname", 6⟩, .ok (some "C")⟩]
    answers.map (·.computed) = [true, true, true, true, false, true] ∧
      answers.map (·.outcome.toOption) = [none, some none, some "", some "A", some "A", some "C"] ∧
      answers.map (·.memo.size) = [0, 0, 0, 1, 1, 2] := by
  decide

end Memo

end Placeholders
