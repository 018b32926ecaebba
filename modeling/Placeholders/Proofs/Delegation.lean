import Placeholders.Proofs.Errand

namespace Placeholders

namespace MetadataContext

/-- A context that finds its instances in one of the library's own ways. -/
def Builtin (c : MetadataContext) : Prop :=
  c = .user ∨ c = .course ∨ ∃ name level, c = .mapped name level

/-- The query that finds an instance of a mapped context. -/
def delegate? (c : MetadataContext) (a : Audience) : Option Query :=
  match c.rule with
  | .mapped => some (.resolveInstance c.name a.course)
  | _ => none

theorem findInstance_queries {c : MetadataContext} (hc : c.Builtin) (a : Audience) (s : Store) :
    (c.findInstance a s).queries = (c.delegate? a).toList := by
  obtain rfl | rfl | ⟨name, level, rfl⟩ := hc <;> rfl

end MetadataContext

namespace Directory

def Builtin (d : Directory) : Prop := ∀ c ∈ d.contexts, c.Builtin

theorem Builtin.get? {d : Directory} (hd : d.Builtin) {name : String} {c : MetadataContext}
    (h : d.get? name = some c) : c.Builtin :=
  hd c (List.mem_of_find?_eq_some h)

theorem Builtin.register {d : Directory} (hd : d.Builtin) {c : MetadataContext} (hc : c.Builtin) :
    (d.register c).Builtin := by
  intro k hk
  rcases List.mem_cons.mp hk with rfl | hk
  · exact hc
  · exact hd k (List.mem_filter.mp hk).1

theorem builtin_isBuiltin : builtin.Builtin := by
  have none : empty.Builtin := fun c hc => absurd hc List.not_mem_nil
  exact (((none.register (.inl rfl)).register (.inr (.inl rfl))).register
    (.inr (.inr ⟨_, _, rfl⟩))).register (.inr (.inr ⟨_, _, rfl⟩))

end Directory

namespace Resolver

/-- The query that finds the instance for a token that names a mapped context and no instance. -/
def delegateFor? (r : Resolver) (t : MetadataToken) : Option Query :=
  match t.inst with
  | some _ => none
  | none => (r.directory.get? t.category).bind (·.delegate? r.audience)

/-- The same for a mark, which has to be read first. -/
def delegated? (r : Resolver) (mark : Mark) : Option Query :=
  match mark with
  | .simple _ => none
  | .namespaced context field =>
    match MetadataToken.read mark.text context field with
    | .ok token => r.delegateFor? token
    | .error _ => none

theorem metadataErrand_queries {r : Resolver} (hd : r.directory.Builtin) (t : MetadataToken) :
    (r.metadataErrand t).queries = (r.delegateFor? t).toList := by
  rw [metadataErrand_puts]
  unfold metadataLookup delegateFor?
  cases hc : r.directory.get? t.category with
  | none => cases t.inst <;> rfl
  | some c =>
    cases hi : t.inst with
    | some id => simp [instanceOf, hi]
    | none => simp [instanceOf, hi, MetadataContext.findInstance_queries (hd.get? hc)]

theorem segmentsErrand_queries (r : Resolver) (segments : List String) :
    (r.segmentsErrand segments).queries = [] := by
  unfold segmentsErrand
  split <;> rfl

theorem markErrand_queries {r : Resolver} (hd : r.directory.Builtin) (mark : Mark) :
    (r.markErrand mark).queries = (r.delegated? mark).toList := by
  cases mark with
  | simple body =>
    unfold markErrand delegated?
    cases h : SimpleToken.read (Mark.simple body).text body with
    | ok token => simp only [h, r.segmentsErrand_queries token.segments, Option.toList_none]
    | error e => simp only [h, Option.toList_none]
  | namespaced context field =>
    unfold markErrand delegated?
    cases h : MetadataToken.read (Mark.namespaced context field).text context field with
    | ok token => simp only [h, metadataErrand_queries hd token]
    | error e => simp only [h, Option.toList_none]

theorem delegateFor?_kind {r : Resolver} {t : MetadataToken} {q : Query}
    (h : r.delegateFor? t = some q) : q.kind = .resolveInstance := by
  unfold delegateFor? at h
  split at h
  · cases h
  · obtain ⟨c, _, hq⟩ := Option.bind_eq_some_iff.mp h
    unfold MetadataContext.delegate? at hq
    split at hq
    · cases hq; rfl
    · cases hq

theorem delegated?_kind {r : Resolver} {mark : Mark} {q : Query}
    (h : r.delegated? mark = some q) : q.kind = .resolveInstance := by
  unfold delegated? at h
  split at h
  · cases h
  · split at h
    · exact delegateFor?_kind h
    · cases h

/-- No lookup finds instances: the two kinds of query never mix. -/
theorem Makes.kind_ne {r : Resolver} {l : Lookup} (hl : r.Makes l) :
    l.query.kind ≠ .resolveInstance := by
  unfold Makes lookupFor? at hl
  split at hl
  case h_4 field viewer _ =>
    obtain ⟨course, _, rfl⟩ := Option.map_eq_some_iff.mp hl
    cases field <;> simp [Lookup.member, Query.kind]
  case h_6 =>
    obtain ⟨c, _, rfl⟩ := Option.map_eq_some_iff.mp hl
    simp [Lookup.metadata, Query.kind]
  all_goals
    obtain rfl := Option.some.inj hl
    intro h
    cases h

end Resolver

end Placeholders
