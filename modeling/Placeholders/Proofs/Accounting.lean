import Mathlib.Algebra.BigOperators.Group.Finset.Basic
import Mathlib.Data.Finset.Card
import Placeholders.Session
import Placeholders.Proofs.Delegation

namespace Placeholders

def Lookup.hasValue (l : Lookup) (s : Store) : Bool :=
  match l.outcome s with
  | .ok (some v) => v ≠ ""
  | _ => false

theorem Lookup.isSome_kept (l : Lookup) (s : Store) :
    (Memo.kept (l.outcome s)).isSome = l.hasValue s := by
  unfold hasValue Memo.kept
  match l.outcome s with
  | .error e => rfl
  | .ok none => rfl
  | .ok (some v) => by_cases hv : v = "" <;> simp [hv]

structure Visit where
  mark : Mark
  step : Step Resolution

def Piece.mark? : Piece → Option Mark
  | .char _ => none
  | .mark m => some m

theorem placedFrom_marks (offset : Nat) (ps : List Piece) :
    (placedFrom offset ps).map (·.mark) = ps.filterMap Piece.mark? := by
  induction ps generalizing offset with
  | nil => rfl
  | cons p ps ih =>
    cases p with
    | char c => exact ih _
    | mark m => exact congrArg (m :: ·) (ih _)

namespace Resolver

/-- The lookup that the resolution of a mark goes to the memo for. -/
def lookup? (r : Resolver) (mark : Mark) : Option Lookup := (r.markErrand mark).lookup?

def key? (r : Resolver) (mark : Mark) : Option LookupKey := (r.lookup? mark).map (·.key)

def visits (r : Resolver) : Memo LookupKey → List Mark → List Visit
  | _, [] => []
  | m, mark :: marks =>
    let step := r.resolveMark m mark
    ⟨mark, step⟩ :: r.visits step.memo marks

def memoAfter (r : Resolver) (m : Memo LookupKey) (marks : List Mark) : Memo LookupKey :=
  marks.foldl (fun m mark => (r.resolveMark m mark).memo) m

/-- The queries put for a key: those of the visits that come to the memo with it, but for the ones
that find an instance. -/
def queriesFor (r : Resolver) (visits : List Visit) (k : LookupKey) : List Query :=
  (visits.filter fun v => r.key? v.mark = some k).flatMap
    fun v => v.step.queries.filter (·.kind ≠ .resolveInstance)

/-- How many of the marks come to the memo with a key. -/
def times (r : Resolver) (marks : List Mark) (k : LookupKey) : Nat :=
  marks.countP fun mark => r.key? mark = some k

/-- How often the query of a lookup is put for its key: once if the store has a value, and else
each time. -/
def due (r : Resolver) (marks : List Mark) (l : Lookup) : Nat :=
  if l.hasValue r.store then min 1 (r.times marks l.key) else r.times marks l.key

def keys (r : Resolver) (marks : List Mark) : Finset LookupKey := (marks.filterMap r.key?).toFinset

/-- The keys that marks come with and for which the store has something to keep. -/
def valuedKeys (r : Resolver) (marks : List Mark) : Finset LookupKey :=
  (((marks.filterMap r.lookup?).filter (·.hasValue r.store)).map (·.key)).toFinset

variable {r : Resolver}

theorem lookup?_makes {mark : Mark} {l : Lookup} (h : r.lookup? mark = some l) : r.Makes l :=
  markErrand_makes h

theorem lookup?_of_key? {mark : Mark} {l : Lookup} (hl : r.Makes l)
    (h : r.key? mark = some l.key) : r.lookup? mark = some l := by
  obtain ⟨k, hk, he⟩ := Option.map_eq_some_iff.mp h
  rw [hk, (lookup?_makes hk).eq_of_key hl he]

/-- The query that the lookup of a mark takes, unless its key is held. -/
def lookedUp (r : Resolver) (m : Memo LookupKey) (mark : Mark) : List Query :=
  match r.lookup? mark with
  | none => []
  | some l => if (m.get? l.key).isSome then [] else [l.query]

theorem lookedUp_kind {m : Memo LookupKey} {mark : Mark} {q : Query}
    (h : q ∈ r.lookedUp m mark) : q.kind ≠ .resolveInstance := by
  unfold lookedUp at h
  split at h
  · cases h
  · rename_i l hl
    split at h
    · cases h
    · rw [List.mem_singleton.mp h]
      exact (lookup?_makes hl).kind_ne

/-- The queries of a step are the one for the instance and the one of the lookup, where they are
needed. -/
theorem resolveMark_queries (hd : r.directory.Builtin) (m : Memo LookupKey) (mark : Mark) :
    (r.resolveMark m mark).queries = (r.delegated? mark).toList ++ r.lookedUp m mark := by
  rw [resolveMark_run, ← markErrand_queries hd]
  unfold lookedUp lookup? Errand.run Errand.lookup?
  cases (r.markErrand mark).ending with
  | settled resolution => simp
  | lookup l read => simp [Lookup.run_queries]

/-- What the lookup of a mark leaves behind for a key. -/
def gain (r : Resolver) (mark : Mark) (k : LookupKey) : Option String :=
  match r.lookup? mark with
  | none => none
  | some l => if l.key = k then Memo.kept (l.outcome r.store) else none

theorem gain_of_lookup? {mark : Mark} {l : Lookup} (h : r.lookup? mark = some l) :
    r.gain mark l.key = Memo.kept (l.outcome r.store) := by
  simp [gain, h]

theorem gain_of_ne {mark : Mark} {k : LookupKey} (h : r.key? mark ≠ some k) :
    r.gain mark k = none := by
  unfold gain
  split
  · rfl
  · rename_i l hl
    have hne : l.key ≠ k := by
      intro he
      exact h (by simp [key?, hl, he])
    simp [hne]

theorem get?_resolveMark (m : Memo LookupKey) (mark : Mark) (k : LookupKey) :
    (r.resolveMark m mark).memo.get? k = (m.get? k).or (r.gain mark k) := by
  rw [resolveMark_run]
  exact (r.markErrand mark).get?_run_memo r.store m k

theorem filter_delegated (hd : r.directory.Builtin) (m : Memo LookupKey) (mark : Mark) :
    (r.resolveMark m mark).queries.filter (·.kind = .resolveInstance) =
      (r.delegated? mark).toList := by
  rw [resolveMark_queries hd, List.filter_append]
  have own : (r.delegated? mark).toList.filter (·.kind = .resolveInstance) =
      (r.delegated? mark).toList := by
    apply List.filter_eq_self.mpr
    intro q hq
    simpa using delegated?_kind (Option.mem_toList.mp hq)
  have none : (r.lookedUp m mark).filter (·.kind = .resolveInstance) = [] := by
    apply List.filter_eq_nil_iff.mpr
    intro q hq
    simpa using lookedUp_kind hq
  rw [own, none, List.append_nil]

theorem filter_lookedUp (hd : r.directory.Builtin) (m : Memo LookupKey) (mark : Mark) :
    (r.resolveMark m mark).queries.filter (·.kind ≠ .resolveInstance) = r.lookedUp m mark := by
  rw [resolveMark_queries hd, List.filter_append]
  have none : (r.delegated? mark).toList.filter (·.kind ≠ .resolveInstance) = [] := by
    apply List.filter_eq_nil_iff.mpr
    intro q hq
    simpa using delegated?_kind (Option.mem_toList.mp hq)
  have own : (r.lookedUp m mark).filter (·.kind ≠ .resolveInstance) = r.lookedUp m mark := by
    apply List.filter_eq_self.mpr
    intro q hq
    simpa using lookedUp_kind hq
  rw [own, none, List.nil_append]

theorem queriesFor_cons (v : Visit) (vs : List Visit) (k : LookupKey) :
    r.queriesFor (v :: vs) k = (if r.key? v.mark = some k then
      v.step.queries.filter (·.kind ≠ .resolveInstance) else []) ++ r.queriesFor vs k := by
  by_cases h : r.key? v.mark = some k <;> simp [queriesFor, h]

/-- From any memo on, the query of a lookup is put for its key as often as it is due, or never if
the key is held. -/
theorem queriesFor_visits (hd : r.directory.Builtin) {l : Lookup} (hl : r.Makes l)
    (m : Memo LookupKey) (marks : List Mark) : r.queriesFor (r.visits m marks) l.key =
      List.replicate (if (m.get? l.key).isSome then 0 else r.due marks l) l.query := by
  induction marks generalizing m with
  | nil => simp [visits, queriesFor, due, times]
  | cons mark marks ih =>
    have next := get?_resolveMark (r := r) m mark l.key
    by_cases hk : r.key? mark = some l.key
    · have hmark := lookup?_of_key? hl hk
      have count : r.times (mark :: marks) l.key = r.times marks l.key + 1 := by
        simp [times, hk]
      rw [visits, queriesFor_cons, if_pos hk, filter_lookedUp hd, ih, next,
        gain_of_lookup? hmark]
      cases hm : m.get? l.key with
      | some v => simp [lookedUp, hmark, hm]
      | none =>
        -- A first visit puts the query; what follows depends on there being a value to keep.
        cases hv : l.hasValue r.store with
        | true => simp [lookedUp, hmark, hm, Lookup.isSome_kept, hv, due, count]
        | false =>
          simp [lookedUp, hmark, hm, Lookup.isSome_kept, hv, due, count, List.replicate_succ]
    · have count : r.times (mark :: marks) l.key = r.times marks l.key := by
        simp [times, hk]
      rw [visits, queriesFor_cons, if_neg hk, List.nil_append, ih, next, gain_of_ne hk,
        Option.or_none]
      simp only [due, count]

/-- What is held after resolving marks is what was held, or else what the first mark with the key
left. -/
theorem get?_memoAfter (m : Memo LookupKey) (marks : List Mark) (k : LookupKey) :
    (r.memoAfter m marks).get? k = (m.get? k).or (marks.findSome? (r.gain · k)) :=
  Memo.get?_foldl get?_resolveMark m marks k

theorem mem_valuedKeys {marks : List Mark} {k : LookupKey} :
    k ∈ r.valuedKeys marks ↔ ∃ mark ∈ marks, (r.gain mark k).isSome := by
  simp only [valuedKeys, List.mem_toFinset, List.mem_map, List.mem_filter, List.mem_filterMap]
  constructor
  · rintro ⟨l, ⟨⟨mark, hmark, hl⟩, hv⟩, rfl⟩
    exact ⟨mark, hmark, by rw [gain_of_lookup? hl, Lookup.isSome_kept, hv]⟩
  · rintro ⟨mark, hmark, hg⟩
    unfold gain at hg
    split at hg
    · cases hg
    · rename_i l hl
      split at hg
      · rename_i he
        exact ⟨l, ⟨⟨mark, hmark, hl⟩, (l.isSome_kept r.store).symm.trans hg⟩, he⟩
      · cases hg

theorem keys_memoAfter_nodup {m : Memo LookupKey} (hm : m.keys.Nodup) (marks : List Mark) :
    (r.memoAfter m marks).keys.Nodup := by
  induction marks generalizing m with
  | nil => exact hm
  | cons mark marks ih =>
    have step : (r.resolveMark m mark).memo.keys.Nodup := by
      rw [resolveMark_run]
      unfold Errand.run
      split
      · exact hm
      · exact Lookup.keys_run_nodup _ _ hm
    exact ih step

/-- From an empty memo on, one entry is made for each key that there is a value for. -/
theorem size_memoAfter (marks : List Mark) :
    (r.memoAfter .empty marks).size = (r.valuedKeys marks).card := by
  have nodup := keys_memoAfter_nodup (r := r) (m := .empty) List.nodup_nil marks
  have same : (r.memoAfter .empty marks).keys.toFinset = r.valuedKeys marks := by
    ext k
    rw [List.mem_toFinset, ← Memo.isSome_get?_iff, get?_memoAfter, mem_valuedKeys]
    simp [Memo.get?, Memo.empty]
  rw [← same, List.toFinset_card_of_nodup nodup]
  simp [Memo.size, Memo.keys]

theorem key?_mem_keys {marks : List Mark} {mark : Mark} (hm : mark ∈ marks) {k : LookupKey}
    (h : r.key? mark = some k) : k ∈ r.keys marks :=
  List.mem_toFinset.mpr (List.mem_filterMap.mpr ⟨mark, hm, h⟩)

theorem lookedUp_of_none {m : Memo LookupKey} {mark : Mark} (h : r.key? mark = none) :
    r.lookedUp m mark = [] := by
  have hl : r.lookup? mark = none := by simpa [key?] using h
  simp [lookedUp, hl]

/-- Every query that is put is put for one key, or finds an instance. -/
theorem countP_visits (hd : r.directory.Builtin) (p : Query → Bool) (m : Memo LookupKey)
    (marks : List Mark) {K : Finset LookupKey}
    (hK : ∀ mark ∈ marks, ∀ k, r.key? mark = some k → k ∈ K) :
    ((r.visits m marks).flatMap (·.step.queries)).countP p =
      (∑ k ∈ K, (r.queriesFor (r.visits m marks) k).countP p) +
        (marks.filterMap r.delegated?).countP p := by
  induction marks generalizing m with
  | nil => simp [visits, queriesFor]
  | cons mark marks ih =>
    have rest := ih (r.resolveMark m mark).memo fun x hx => hK x (List.mem_cons_of_mem _ hx)
    have here : (∑ k ∈ K, (if r.key? mark = some k then r.lookedUp m mark else []).countP p) =
        (r.lookedUp m mark).countP p := by
      cases hk : r.key? mark with
      | none => simp [lookedUp_of_none hk]
      | some k =>
        rw [Finset.sum_eq_single k]
        · simp
        · intro b _ hb
          simp [Ne.symm hb]
        · intro hn
          exact absurd (hK mark List.mem_cons_self k hk) hn
    have first : (r.resolveMark m mark).queries.countP p =
        (r.delegated? mark).toList.countP p + (r.lookedUp m mark).countP p := by
      rw [resolveMark_queries hd, List.countP_append]
    have found : (mark :: marks).filterMap r.delegated? =
        (r.delegated? mark).toList ++ marks.filterMap r.delegated? := by
      cases h : r.delegated? mark <;> simp [h]
    simp only [visits, List.flatMap_cons, List.countP_append, queriesFor_cons, filter_lookedUp hd,
      Finset.sum_add_distrib, here, first, rest, found]
    omega

theorem callsOf_delegated (marks : List Mark) (kind : QueryKind) :
    callsOf kind (marks.filterMap r.delegated?) =
      if kind = .resolveInstance then (marks.filterMap r.delegated?).length else 0 := by
  have own : ∀ q ∈ marks.filterMap r.delegated?, q.kind = .resolveInstance := by
    intro q hq
    obtain ⟨mark, _, h⟩ := List.mem_filterMap.mp hq
    exact delegated?_kind h
  unfold callsOf
  split
  · rename_i hk
    apply List.countP_eq_length.mpr
    intro q hq
    simp [own q hq, hk]
  · rename_i hk
    apply List.countP_eq_zero.mpr
    intro q hq
    simp [own q hq, Ne.symm hk]

theorem visits_append (m : Memo LookupKey) (marks more : List Mark) :
    r.visits m (marks ++ more) = r.visits m marks ++ r.visits (r.memoAfter m marks) more := by
  induction marks generalizing m with
  | nil => rfl
  | cons mark marks ih =>
    simp only [List.cons_append, visits, ih]
    rfl

theorem visits_marks (m : Memo LookupKey) (marks : List Mark) :
    (r.visits m marks).map (·.mark) = marks := by
  induction marks generalizing m with
  | nil => rfl
  | cons mark marks ih => simp only [visits, List.map_cons, ih]

theorem visit_step {m : Memo LookupKey} {marks : List Mark} {v : Visit}
    (h : v ∈ r.visits m marks) : ∃ n, v.step = r.resolveMark n v.mark := by
  induction marks generalizing m with
  | nil => cases h
  | cons mark marks ih =>
    rw [visits] at h
    rcases List.mem_cons.mp h with h | h
    · refine ⟨m, ?_⟩
      rw [h]
    · exact ih h

theorem fillPieces_visits (m : Memo LookupKey) (ps : List Piece) :
    (r.fillPieces m ps).queries =
        (r.visits m (ps.filterMap Piece.mark?)).flatMap (·.step.queries) ∧
      (r.fillPieces m ps).memo = r.memoAfter m (ps.filterMap Piece.mark?) := by
  induction ps generalizing m with
  | nil => exact ⟨rfl, rfl⟩
  | cons p ps ih =>
    cases p with
    | char c => exact ih m
    | mark mark =>
      obtain ⟨queries, memo⟩ := ih (r.resolveMark m mark).memo
      exact ⟨congrArg (_ ++ ·) queries, memo⟩

end Resolver

namespace Session

def after : Session → List Call → Session
  | s, [] => s
  | s, c :: calls => after { s with memo := (s.fill c).memo } calls

def tokensOf (s : Session) (c : Call) : List Mark := ((s.grammarOf c).marks c.text).map (·.mark)

def tokens (s : Session) (calls : List Call) : List Mark := calls.flatMap s.tokensOf

def visits (s : Session) (calls : List Call) : List Visit :=
  s.resolver.visits s.memo (s.tokens calls)

theorem fill_visits (s : Session) (c : Call) :
    (s.fill c).queries =
        (s.resolver.visits s.memo (s.tokensOf c)).flatMap (·.step.queries) ∧
      (s.fill c).memo = s.resolver.memoAfter s.memo (s.tokensOf c) := by
  have marks : s.tokensOf c = ((s.grammarOf c).pieces c.text).filterMap Piece.mark? :=
    placedFrom_marks 0 _
  rw [marks]
  exact s.resolver.fillPieces_visits s.memo _

theorem fillAll_queries (s : Session) (calls : List Call) :
    (s.fillAll calls).flatMap (·.queries) = (s.visits calls).flatMap (·.step.queries) := by
  induction calls generalizing s with
  | nil => rfl
  | cons c calls ih =>
    obtain ⟨queries, memo⟩ := s.fill_visits c
    have rest := ih { s with memo := (s.fill c).memo }
    simp only [fillAll, visits, tokens, List.flatMap_cons, Resolver.visits_append,
      List.flatMap_append, queries] at rest ⊢
    rw [rest, memo]
    rfl

theorem after_memo (s : Session) (calls : List Call) :
    (s.after calls).memo = s.resolver.memoAfter s.memo (s.tokens calls) := by
  induction calls generalizing s with
  | nil => rfl
  | cons c calls ih =>
    have rest := ih { s with memo := (s.fill c).memo }
    rw [after, rest, (s.fill_visits c).2]
    simp only [tokens, List.flatMap_cons, Resolver.memoAfter, List.foldl_append]
    rfl

/-- What a session has asked and kept after calls, in terms of its tokens alone. -/
structure Accounted (s : Session) (calls : List Call) : Prop where
  /-- Each token is resolved, in the order of the texts. -/
  visited : (s.visits calls).map (·.mark) = s.tokens calls
  /-- The session asks what these resolutions ask. -/
  asked : (s.fillAll calls).flatMap (·.queries) = (s.visits calls).flatMap (·.step.queries)
  /-- Behind a key there is one lookup, with one query. -/
  one_lookup : ∀ mark other l k, s.resolver.lookup? mark = some l →
    s.resolver.lookup? other = some k → l.key = k.key → l = k
  /-- For a key, its query is put as often as it is due and nothing else is. -/
  lookups : ∀ mark l, s.resolver.lookup? mark = some l →
    s.resolver.queriesFor (s.visits calls) l.key =
      List.replicate (s.resolver.due (s.tokens calls) l) l.query
  /-- An instance is asked for at each token that needs one from the store, kept or not. -/
  instances : ∀ v ∈ s.visits calls, v.step.queries.filter (·.kind = .resolveInstance) =
    (s.resolver.delegated? v.mark).toList
  /-- There are no other queries. -/
  nothing_else : ∀ p : Query → Bool, ((s.fillAll calls).flatMap (·.queries)).countP p =
    (∑ k ∈ s.resolver.keys (s.tokens calls),
      (s.resolver.queriesFor (s.visits calls) k).countP p) +
        ((s.tokens calls).filterMap s.resolver.delegated?).countP p
  counts : ∀ kind, callsOf kind ((s.fillAll calls).flatMap (·.queries)) =
    (∑ k ∈ s.resolver.keys (s.tokens calls),
      callsOf kind (s.resolver.queriesFor (s.visits calls) k)) +
        if kind = .resolveInstance then ((s.tokens calls).filterMap s.resolver.delegated?).length
        else 0
  size : (s.after calls).memo.size = (s.resolver.valuedKeys (s.tokens calls)).card

theorem start_accounted (r : Resolver) (hd : r.directory.Builtin) (calls : List Call) :
    (start r).Accounted calls where
  visited := Resolver.visits_marks _ _
  asked := fillAll_queries _ _
  one_lookup _ _ _ _ hl hk h :=
    (Resolver.lookup?_makes hl).eq_of_key (Resolver.lookup?_makes hk) h
  lookups _ _ hl := Resolver.queriesFor_visits hd (Resolver.lookup?_makes hl) .empty _
  instances v hv := by
    obtain ⟨m, hm⟩ := Resolver.visit_step hv
    rw [hm]
    exact Resolver.filter_delegated hd m v.mark
  nothing_else p := by
    rw [fillAll_queries]
    exact Resolver.countP_visits hd p _ _ fun _ => Resolver.key?_mem_keys
  counts kind := by
    rw [fillAll_queries, ← Resolver.callsOf_delegated]
    exact Resolver.countP_visits hd _ _ _ fun _ => Resolver.key?_mem_keys
  size := by
    rw [after_memo]
    exact Resolver.size_memoAfter _

/-- An address is asked for once and an empty phone number twice; an instance is asked for at each
of two tokens of which only the first needs the value. -/
theorem start_accounted_twice :
    let r : Resolver :=
      { store :=
          { accounts := [{ id := 2, email := "ada@example.org" }]
            instances := [⟨"module", some 5, 77⟩]
            metadata := [⟨77, .activity, "room", "B12"⟩] }
        audience := .english (.signedIn 2) (some 5) }
    let calls : List Call :=
      [⟨"{USER_EMAIL} {USER_PHONE1} {USER_EMAIL} {USER_PHONE1}", none⟩,
        ⟨"{{metadata::module::room}} {{metadata::module::room}}", some .namespaced⟩]
    r.directory.Builtin ∧ (start r).Accounted calls ∧
      QueryKind.all.map (callsOf · (((start r).fillAll calls).flatMap (·.queries))) =
        [3, 0, 0, 0, 0, 0, 0, 0, 0, 2, 1] ∧
      ((start r).after calls).memo.size = 2 :=
  ⟨Directory.builtin_isBuiltin, start_accounted _ Directory.builtin_isBuiltin _,
    by decide +kernel, by decide +kernel⟩

end Session

end Placeholders
