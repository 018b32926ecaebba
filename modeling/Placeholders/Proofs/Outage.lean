import Placeholders.Proofs.Layout

namespace Placeholders

theorem QueryKind.ofName?_eq_some_iff {name : String} {kind : QueryKind} :
    QueryKind.ofName? name = some kind ↔ name = kind.name :=
  find?_word_eq_some_iff ofName?_name

/-- Whether a query of one of the named kinds is among those that were put. -/
def Hits (names : List String) (queries : List Query) : Prop :=
  ∃ q ∈ queries, q.kind.name ∈ names

theorem hits_append {names : List String} {xs ys : List Query} :
    Hits names (xs ++ ys) ↔ Hits names xs ∨ Hits names ys := by
  simp only [Hits, List.mem_append, or_and_right, exists_or]

theorem hits_singleton {names : List String} {q : Query} :
    Hits names [q] ↔ q.kind.name ∈ names := by
  simp [Hits]

theorem not_hits_nil (names : List String) : ¬Hits names [] := by
  simp [Hits]

namespace Store

/-- The store with the named kinds of query failing as well. Other names mean nothing to it. -/
def failAll (s : Store) (names : List String) : Store :=
  (names.filterMap QueryKind.ofName?).foldl fail s

theorem answer_fail (s : Store) (kind : QueryKind) (q : Query) :
    (s.fail kind).answer q = s.answer q := by
  cases q <;> rfl

variable {s : Store} {names : List String} {q : Query}

theorem answer_foldl_fail (kinds : List QueryKind) (s : Store) (q : Query) :
    (kinds.foldl fail s).answer q = s.answer q := by
  induction kinds generalizing s with
  | nil => rfl
  | cons kind kinds ih => exact (ih (s.fail kind)).trans (s.answer_fail kind q)

theorem fails_foldl_fail (kinds : List QueryKind) (s : Store) (kind : QueryKind) :
    (kinds.foldl fail s).fails kind = true ↔ kind ∈ kinds ∨ s.fails kind = true := by
  induction kinds generalizing s with
  | nil => simp
  | cons k kinds ih =>
    rw [List.foldl_cons, ih, fails_fail, Bool.or_eq_true, decide_eq_true_eq, List.mem_cons]
    constructor
    · rintro (h | h | h)
      · exact .inl (.inr h)
      · exact .inl (.inl h)
      · exact .inr h
    · rintro ((h | h) | h)
      · exact .inr (.inl h)
      · exact .inl h
      · exact .inr (.inr h)

theorem fails_failAll (s : Store) (names : List String) (kind : QueryKind) :
    (s.failAll names).fails kind = true ↔ kind.name ∈ names ∨ s.fails kind = true := by
  rw [failAll, fails_foldl_fail, List.mem_filterMap]
  constructor
  · rintro (⟨name, hm, hn⟩ | h)
    · rw [QueryKind.ofName?_eq_some_iff] at hn
      exact .inl (hn ▸ hm)
    · exact .inr h
  · rintro (hm | h)
    · exact .inl ⟨kind.name, hm, kind.ofName?_name⟩
    · exact .inr h

theorem ask_failAll_of_mem (h : q.kind.name ∈ names) (s : Store) :
    (s.failAll names).ask q = .error (unavailable q.kind) :=
  ask_of_fails ((s.fails_failAll names q.kind).mpr (.inl h))

theorem ask_failAll_of_not_mem (h : q.kind.name ∉ names) (s : Store) :
    (s.failAll names).ask q = s.ask q := by
  have same : (s.failAll names).fails q.kind = s.fails q.kind := by
    rw [Bool.eq_iff_iff, fails_failAll]
    exact or_iff_right h
  rw [ask, ask, same, failAll, answer_foldl_fail]

end Store

namespace MetadataContext
variable {c : MetadataContext} {a : Audience} {s : Store} {names : List String}

theorem findInstance_of_hits (hc : c.Builtin) (h : Hits names (c.findInstance a s).queries) :
    (c.findInstance a (s.failAll names)).outcome = .error (Store.unavailable .resolveInstance) := by
  obtain rfl | rfl | ⟨name, level, rfl⟩ := hc
  · exact absurd h (not_hits_nil names)
  · exact absurd h (not_hits_nil names)
  · exact Store.ask_failAll_of_mem (hits_singleton.mp h) s

theorem findInstance_of_not_hits (hc : c.Builtin)
    (h : ¬Hits names (c.findInstance a s).queries) :
    c.findInstance a (s.failAll names) = c.findInstance a s := by
  obtain rfl | rfl | ⟨name, level, rfl⟩ := hc
  · rfl
  · rfl
  · have missed : (Query.resolveInstance name a.course).kind.name ∉ names :=
      fun hm => h (hits_singleton.mpr hm)
    exact congrArg (Asked.mk _) (Store.ask_failAll_of_not_mem missed s)

end MetadataContext

theorem Lookup.outcome_of_mem {l : Lookup} {names : List String}
    (h : l.query.kind.name ∈ names) (s : Store) :
    l.outcome (s.failAll names) = .error (Store.unavailable l.query.kind) := by
  rw [outcome, Store.ask_failAll_of_mem h]
  rfl

theorem Lookup.outcome_of_not_mem {l : Lookup} {names : List String}
    (h : l.query.kind.name ∉ names) (s : Store) :
    l.outcome (s.failAll names) = l.outcome s := by
  rw [outcome, outcome, Store.ask_failAll_of_not_mem h]

namespace Resolver

/-- The resolver with the named kinds of query failing as well. -/
def failAll (r : Resolver) (names : List String) : Resolver :=
  { r with store := r.store.failAll names }

variable {r : Resolver} {names : List String}

theorem instanceOf_of_hits {c : MetadataContext} (hc : c.Builtin) {t : MetadataToken}
    (h : Hits names (r.instanceOf t c).queries) :
    ((r.failAll names).instanceOf t c).outcome = .error (Store.unavailable .resolveInstance) := by
  unfold instanceOf at h ⊢
  cases hi : t.inst with
  | some id =>
    rw [hi] at h
    exact absurd h (not_hits_nil names)
  | none =>
    rw [hi] at h
    have down := MetadataContext.findInstance_of_hits hc h
    simp only [failAll, down, Except.bind]

theorem instanceOf_of_not_hits {c : MetadataContext} (hc : c.Builtin) {t : MetadataToken}
    (h : ¬Hits names (r.instanceOf t c).queries) :
    (r.failAll names).instanceOf t c = r.instanceOf t c := by
  unfold instanceOf at h ⊢
  cases hi : t.inst with
  | some id => rfl
  | none =>
    rw [hi] at h
    have same := MetadataContext.findInstance_of_not_hits hc h
    simp only [failAll, same]

/-- An errand that has a query of a failing kind to put ends there. -/
theorem metadataErrand_of_hits (hd : r.directory.Builtin) {t : MetadataToken}
    (h : Hits names (r.metadataErrand t).queries) :
    ((r.failAll names).metadataErrand t).ending =
      .settled (.placeholder (r.phrase "lookuperror")) := by
  rw [metadataErrand_puts] at h
  have down : ((r.failAll names).metadataLookup t).outcome =
      .error (Store.unavailable .resolveInstance) := by
    unfold metadataLookup at h ⊢
    cases hc : r.directory.get? t.category with
    | none =>
      rw [hc] at h
      exact absurd h (not_hits_nil names)
    | some c =>
      rw [hc] at h
      have stopped := instanceOf_of_hits (hd.get? hc) h
      have known : (r.failAll names).directory.get? t.category = some c := hc
      simp only [known, stopped, Except.map]
  unfold metadataErrand
  simp only [down]
  rfl

theorem metadataErrand_of_not_hits (hd : r.directory.Builtin) {t : MetadataToken}
    (h : ¬Hits names (r.metadataErrand t).queries) :
    (r.failAll names).metadataErrand t = r.metadataErrand t := by
  rw [metadataErrand_puts] at h
  have same : (r.failAll names).metadataLookup t = r.metadataLookup t := by
    unfold metadataLookup at h ⊢
    cases hc : r.directory.get? t.category with
    | none =>
      have unknown : (r.failAll names).directory.get? t.category = none := hc
      simp only [unknown]
    | some c =>
      rw [hc] at h
      have known : (r.failAll names).directory.get? t.category = some c := hc
      simp only [known, instanceOf_of_not_hits (hd.get? hc) h]
  unfold metadataErrand
  rw [same]
  rfl

theorem markErrand_of_hits (hd : r.directory.Builtin) {mark : Mark}
    (h : Hits names (r.markErrand mark).queries) :
    ((r.failAll names).markErrand mark).ending =
      .settled (.placeholder (r.phrase "lookuperror")) := by
  unfold markErrand at h ⊢
  cases mark with
  | simple body =>
    dsimp only at h ⊢
    split at h
    · rw [segmentsErrand_queries] at h
      exact absurd h (not_hits_nil names)
    · exact absurd h (not_hits_nil names)
  | namespaced context field =>
    dsimp only at h ⊢
    split at h
    · exact metadataErrand_of_hits hd h
    · exact absurd h (not_hits_nil names)

theorem markErrand_of_not_hits (hd : r.directory.Builtin) {mark : Mark}
    (h : ¬Hits names (r.markErrand mark).queries) :
    (r.failAll names).markErrand mark = r.markErrand mark := by
  unfold markErrand at h ⊢
  cases mark with
  | simple body => rfl
  | namespaced context field =>
    dsimp only at h ⊢
    split at h
    · exact metadataErrand_of_not_hits hd h
    · rfl

/-- Whatever a mark is looked up for, a failure of the store becomes the one phrase for it. -/
theorem markErrand_read_error {mark : Mark} {l : Lookup}
    {read : Except Failure (Option String) → Resolution}
    (h : (r.markErrand mark).ending = .lookup l read) (kind : QueryKind) :
    read (.error (Store.unavailable kind)) = .placeholder (r.phrase "lookuperror") := by
  rcases markErrand_read h with rfl | rfl
  · rfl
  · rfl

theorem errand_queries_of_lookup {e : Errand} {l : Lookup}
    {read : Except Failure (Option String) → Resolution} (h : e.ending = .lookup l read)
    (s : Store) : (e.run s .empty).queries = e.queries ++ [l.query] := by
  simp [Errand.run, h, Lookup.run_queries, Memo.get?, Memo.empty]

/-- A mark alone, with a failing kind of query among those that it takes. -/
theorem resolveMark_of_hits (hd : r.directory.Builtin) {mark : Mark}
    (h : Hits names (r.resolveMark .empty mark).queries) :
    ((r.failAll names).resolveMark .empty mark).result =
      .placeholder (r.phrase "lookuperror") := by
  rw [resolveMark_result (trusts_empty _), Errand.answer]
  -- The query that fails finds the instance, or else it is the one of the lookup.
  by_cases hq : Hits names (r.markErrand mark).queries
  · rw [markErrand_of_hits hd hq]
  · rw [markErrand_of_not_hits hd hq]
    rw [resolveMark_run] at h
    cases he : (r.markErrand mark).ending with
    | settled resolution =>
      simp only [Errand.run, he] at h
      exact absurd h hq
    | lookup l read =>
      rw [errand_queries_of_lookup he, hits_append, hits_singleton] at h
      have down := Lookup.outcome_of_mem (h.resolve_left hq) r.store
      change read (l.outcome (r.store.failAll names)) = _
      rw [down]
      exact markErrand_read_error he l.query.kind

theorem resolveMark_of_not_hits (hd : r.directory.Builtin) {mark : Mark}
    (h : ¬Hits names (r.resolveMark .empty mark).queries) :
    ((r.failAll names).resolveMark .empty mark).result = (r.resolveMark .empty mark).result := by
  rw [resolveMark_result (trusts_empty _), resolveMark_result (trusts_empty _), Errand.answer,
    Errand.answer]
  rw [resolveMark_run] at h
  cases he : (r.markErrand mark).ending with
  | settled resolution =>
    simp only [Errand.run, he] at h
    rw [markErrand_of_not_hits hd h, he]
  | lookup l read =>
    rw [errand_queries_of_lookup he, hits_append, hits_singleton, not_or] at h
    have same := Lookup.outcome_of_not_mem h.2 r.store
    rw [markErrand_of_not_hits hd h.1, he]
    exact congrArg read same

/-- A text filled in twice, with all that the store answers and with some kinds of query failing
as well. -/
structure Contained (r : Resolver) (names : List String) (g : Grammar) (text : String) : Prop where
  /-- Both fill the slots between the same gaps, one for each mark. -/
  filled : (r.fill .empty g text).result =
    weave (g.gaps text) (r.slots .empty (g.tokensIn text))
  failing : ((r.failAll names).fill .empty g text).result =
    weave (g.gaps text) ((r.failAll names).slots .empty (g.tokensIn text))
  gaps : (g.gaps text).length = (g.tokensIn text).length + 1
  slots : (r.slots .empty (g.tokensIn text)).length = (g.tokensIn text).length ∧
    ((r.failAll names).slots .empty (g.tokensIn text)).length = (g.tokensIn text).length
  damaged : ∀ (i : Nat) (mark : Mark), (g.tokensIn text)[i]? = some mark →
    Hits names (r.resolveMark .empty mark).queries →
      ((r.failAll names).slots .empty (g.tokensIn text))[i]? =
        some (r.phrase "lookuperror").toList
  spared : ∀ (i : Nat) (mark : Mark), (g.tokensIn text)[i]? = some mark →
    ¬Hits names (r.resolveMark .empty mark).queries →
      ((r.failAll names).slots .empty (g.tokensIn text))[i]? =
        (r.slots .empty (g.tokensIn text))[i]?

theorem getElem?_slots (r : Resolver) {marks : List Mark} {i : Nat} {mark : Mark}
    (h : marks[i]? = some mark) : (r.slots .empty marks)[i]? = some (r.slot mark) := by
  rw [slots_without_history r.trusts_empty, List.getElem?_map, h]
  rfl

/-- Queries that fail damage the tokens that need them, and nothing else. -/
theorem fill_contained (r : Resolver) (hd : r.directory.Builtin) (names : List String)
    (g : Grammar) (text : String) : r.Contained names g text where
  filled := r.fill_weave .empty g text
  failing := (r.failAll names).fill_weave .empty g text
  gaps := g.gaps_length text
  slots := ⟨r.slots_length _ _, (r.failAll names).slots_length _ _⟩
  damaged i mark hi h := by
    rw [getElem?_slots _ hi, slot, resolveMark_of_hits hd h]
    rfl
  spared i mark hi h := by
    rw [getElem?_slots _ hi, getElem?_slots _ hi, slot, slot, resolveMark_of_not_hits hd h]

/-- The account cannot be read: its address is damaged twice, and the course around it is not. -/
theorem fill_contained_account :
    let r : Resolver :=
      { store :=
          { accounts := [{ id := 2, email := "ada@home" }]
            courses := [{ id := 5, fullName := "Physics" }] }
        audience := .english (.signedIn 2) (some 5) }
    let text := "{USER_EMAIL} {COURSE_FULLNAME} {USER_EMAIL}"
    r.directory.Builtin ∧ r.Contained ["profile", "grades"] .simple text ∧
      (r.fill .empty .simple text).result = "ada@home Physics ada@home".toList ∧
      ((r.failAll ["profile", "grades"]).fill .empty .simple text).result =
        "Error retrieving value Physics Error retrieving value".toList := by
  intro r text
  exact ⟨Directory.builtin_isBuiltin,
    fill_contained r Directory.builtin_isBuiltin ["profile", "grades"] .simple text,
    by decide +kernel, by decide +kernel⟩

end Resolver

end Placeholders
