import Placeholders.Resolver
import Placeholders.Proofs.Keys

namespace Placeholders

/-- How the resolution of a token ends. -/
inductive Ending where
  | settled (r : Resolution)
  /-- One lookup through the memo, and what is made of its result. -/
  | lookup (l : Lookup) (read : Except Failure (Option String) → Resolution)

/-- What resolving a token comes to before any memo is looked into: queries that are put each time,
and an end that is settled or left to one lookup. -/
structure Errand where
  queries : List Query
  ending : Ending

namespace Errand

def run (e : Errand) (s : Store) (m : Memo LookupKey) : Step Resolution :=
  match e.ending with
  | .settled r => ⟨r, e.queries, m⟩
  | .lookup l read =>
    let step := l.run s m
    ⟨read step.result, e.queries ++ step.queries, step.memo⟩

/-- The lookup that an errand goes to the memo for. -/
def lookup? (e : Errand) : Option Lookup :=
  match e.ending with
  | .settled _ => none
  | .lookup l _ => some l

/-- What an errand brings without a memo. -/
def answer (e : Errand) (s : Store) : Resolution :=
  match e.ending with
  | .settled r => r
  | .lookup l read => read (l.outcome s)

/-- What an errand leaves behind for a key under which nothing is held. -/
def gain (e : Errand) (s : Store) (k : LookupKey) : Option String :=
  match e.lookup? with
  | none => none
  | some l => if l.key = k then Memo.kept (l.outcome s) else none

theorem get?_run_memo (e : Errand) (s : Store) (m : Memo LookupKey) (k : LookupKey) :
    (e.run s m).memo.get? k = (m.get? k).or (e.gain s k) := by
  obtain ⟨queries, ending⟩ := e
  cases ending with
  | settled resolution => exact Option.or_none.symm
  | lookup l read => exact l.get?_run_memo s m k

variable {e : Errand} {l : Lookup} {read : Except Failure (Option String) → Resolution}
  {m : Memo LookupKey}

theorem run_of_get? (h : e.ending = .lookup l read) {v : String} (hv : m.get? l.key = some v)
    (s : Store) : (e.run s m).result = read (.ok (some v)) := by
  simp only [run, h, Lookup.run_of_get? hv]

theorem lookup?_eq_some_iff : e.lookup? = some l ↔ ∃ read, e.ending = .lookup l read := by
  unfold lookup?
  cases e.ending with
  | settled resolution => simp
  | lookup k read => simp

/-- If what is held for the key is what the store answers, it does not show that it is held. -/
theorem run_of_agree {s : Store} (h : ∀ l v, e.lookup? = some l → m.get? l.key = some v →
    l.outcome s = .ok (some v)) : (e.run s m).result = e.answer s := by
  obtain ⟨queries, ending⟩ := e
  cases ending with
  | settled resolution => rfl
  | lookup l read =>
    have same : (l.run s m).result = l.outcome s := by
      cases hv : m.get? l.key with
      | none => rw [Lookup.run_of_not_held hv]
      | some v => rw [Lookup.run_of_get? hv, h l v rfl hv]
    exact congrArg read same

theorem run_of_not_held (h : ∀ l, e.lookup? = some l → m.get? l.key = none) (s : Store) :
    (e.run s m).result = e.answer s := by
  apply run_of_agree
  intro l v hl held
  rw [h l hl] at held
  cases held

theorem run_empty (e : Errand) (s : Store) : (e.run s .empty).result = e.answer s :=
  run_of_not_held (fun _ _ => rfl) s

theorem gain_eq_some {s : Store} {k : LookupKey} {v : String} (h : e.gain s k = some v) :
    ∃ l, e.lookup? = some l ∧ l.key = k ∧ l.outcome s = .ok (some v) ∧ v ≠ "" := by
  unfold gain at h
  split at h
  · cases h
  · rename_i l hl
    split at h
    · rename_i hk
      exact ⟨l, hl, hk, Memo.kept_eq_some_iff.mp h⟩
    · cases h

end Errand

/-- The first value of all is that of the first that has one. -/
theorem findSome?_eq_bind_find? {α β : Type} {p : α → Bool} {f : α → Option β}
    (h : ∀ a, p a = (f a).isSome) (xs : List α) : xs.findSome? f = (xs.find? p).bind f := by
  induction xs with
  | nil => rfl
  | cons a xs ih =>
    rw [List.findSome?_cons, List.find?_cons, h]
    cases ha : f a with
    | none => exact ih
    | some b => exact ha.symm

/-- Steps that leave a key as it is held, or else with a gain of their own, leave it in the end
with the first gain of all. -/
theorem Memo.get?_foldl {κ α : Type} [DecidableEq κ] {step : Memo κ → α → Memo κ}
    {gain : α → κ → Option String}
    (h : ∀ m a k, (step m a).get? k = (m.get? k).or (gain a k)) (m : Memo κ) (xs : List α)
    (k : κ) : (xs.foldl step m).get? k = (m.get? k).or (xs.findSome? (gain · k)) := by
  induction xs generalizing m with
  | nil => exact Option.or_none.symm
  | cons a xs ih =>
    rw [List.foldl_cons, ih, h, Option.or_assoc, List.findSome?_cons]
    cases gain a k <;> rfl

namespace Resolver

def segmentsErrand (r : Resolver) (segments : List String) : Errand :=
  match r.plan segments with
  | .settled text => ⟨[], .settled (r.simpleResolution (.ok text))⟩
  | .lookup l => ⟨[], .lookup l r.simpleResolution⟩

def metadataErrand (r : Resolver) (t : MetadataToken) : Errand :=
  let found := r.metadataLookup t
  match found.outcome with
  | .error e => ⟨found.queries, .settled (r.failed e)⟩
  | .ok l => ⟨found.queries, .lookup l r.metadataResolution⟩

def markErrand (r : Resolver) (mark : Mark) : Errand :=
  match mark with
  | .simple body =>
    match SimpleToken.read mark.text body with
    | .ok token => r.segmentsErrand token.segments
    | .error _ => ⟨[], .settled .unresolved⟩
  | .namespaced context field =>
    match MetadataToken.read mark.text context field with
    | .ok token => r.metadataErrand token
    | .error e => ⟨[], .settled (r.failed e.toFailure)⟩

theorem resolveSegments_run (r : Resolver) (m : Memo LookupKey) (segments : List String) :
    r.resolveSegments m segments = (r.segmentsErrand segments).run r.store m := by
  unfold resolveSegments segmentsErrand
  cases r.plan segments <;> rfl

theorem resolveMetadata_run (r : Resolver) (m : Memo LookupKey) (t : MetadataToken) :
    r.resolveMetadata m t = (r.metadataErrand t).run r.store m := by
  unfold resolveMetadata metadataErrand
  dsimp only
  cases (r.metadataLookup t).outcome <;> rfl

theorem metadataErrand_puts (r : Resolver) (t : MetadataToken) :
    (r.metadataErrand t).queries = (r.metadataLookup t).queries := by
  unfold metadataErrand
  dsimp only
  split <;> rfl

/-- Resolving a mark is running its errand. -/
theorem resolveMark_run (r : Resolver) (m : Memo LookupKey) (mark : Mark) :
    r.resolveMark m mark = (r.markErrand mark).run r.store m := by
  cases mark with
  | simple body =>
    unfold resolveMark markErrand
    cases h : SimpleToken.read (Mark.simple body).text body with
    | ok token => simp only [h, r.resolveSegments_run m token.segments]
    | error e => simp only [h, Errand.run]
  | namespaced context field =>
    unfold resolveMark markErrand
    cases h : MetadataToken.read (Mark.namespaced context field).text context field with
    | ok token => simp only [h, r.resolveMetadata_run m token]
    | error e => simp only [h, Errand.run]

section
variable {r : Resolver} {l : Lookup} {read : Except Failure (Option String) → Resolution}

theorem segmentsErrand_ending_iff {segments : List String} :
    (r.segmentsErrand segments).ending = .lookup l read ↔
      r.plan segments = .lookup l ∧ read = r.simpleResolution := by
  unfold segmentsErrand
  cases r.plan segments <;> simp [eq_comm]

theorem metadataErrand_ending_iff {t : MetadataToken} :
    (r.metadataErrand t).ending = .lookup l read ↔
      (r.metadataLookup t).outcome = .ok l ∧ read = r.metadataResolution := by
  unfold metadataErrand
  dsimp only
  cases (r.metadataLookup t).outcome <;> simp [eq_comm]

theorem metadataErrand_lookup? (r : Resolver) (t : MetadataToken) :
    (r.metadataErrand t).lookup? = (r.metadataLookup t).outcome.toOption := by
  unfold metadataErrand Errand.lookup?
  dsimp only
  cases (r.metadataLookup t).outcome <;> rfl

theorem segmentsErrand_lookup?_iff {segments : List String} :
    (r.segmentsErrand segments).lookup? = some l ↔ r.plan segments = .lookup l := by
  simp [Errand.lookup?_eq_some_iff, segmentsErrand_ending_iff]

theorem metadataErrand_lookup?_iff {t : MetadataToken} :
    (r.metadataErrand t).lookup? = some l ↔ (r.metadataLookup t).outcome = .ok l := by
  simp [Errand.lookup?_eq_some_iff, metadataErrand_ending_iff]

/-- There is one way for each grammar to read what was found. -/
theorem markErrand_read {mark : Mark} (h : (r.markErrand mark).ending = .lookup l read) :
    read = r.simpleResolution ∨ read = r.metadataResolution := by
  unfold markErrand at h
  split at h
  · split at h
    · exact .inl (segmentsErrand_ending_iff.mp h).2
    · cases h
  · split at h
    · exact .inr (metadataErrand_ending_iff.mp h).2
    · cases h

/-- A mark that leads to a lookup has been read as a token that does. -/
theorem markErrand_lookup? {mark : Mark} (h : (r.markErrand mark).lookup? = some l) :
    (∃ segments, (r.segmentsErrand segments).lookup? = some l) ∨
      ∃ t, (r.metadataErrand t).lookup? = some l := by
  unfold markErrand at h
  split at h
  · split at h
    · exact .inl ⟨_, h⟩
    · cases h
  · split at h
    · exact .inr ⟨_, h⟩
    · cases h

end

/-- The lookup that a resolver has for a subject. Nothing else about the token matters, since the
course and the directory belong to the resolver. -/
def lookupFor? (r : Resolver) : Subject → Option Lookup
  | .account field viewer => some (.account r.audience viewer field)
  | .customField name viewer => some (.customField viewer name)
  | .course field course => some (.course r.audience course field)
  | .member field viewer =>
    r.audience.course.map fun course => .member r.audience r.config viewer course field
  | .holders role field course => some (.holders r.config course role field)
  | .metadata context field inst =>
    (r.directory.get? context).map fun c => .metadata c inst field

def Makes (r : Resolver) (l : Lookup) : Prop := r.lookupFor? l.subject = some l

/-- A resolver has one lookup for each key. -/
theorem Makes.eq_of_key {r : Resolver} {l k : Lookup} (hl : r.Makes l) (hk : r.Makes k)
    (h : l.key = k.key) : l = k := by
  have hs := Lookup.key_eq_iff.mp h
  unfold Makes at hl hk
  rw [hs, hk] at hl
  exact (Option.some.inj hl).symm

theorem get?_name {d : Directory} {name : String} {c : MetadataContext}
    (h : d.get? name = some c) : c.name = name := by
  simpa using List.find?_some h

theorem inCourse_lookup {a : Audience} {f : RecordId → Lookup} {l : Lookup}
    (h : Plan.inCourse a f = .lookup l) : ∃ course, a.course = some course ∧ l = f course := by
  unfold Plan.inCourse at h
  split at h
  · cases h
  · rename_i course hc
    exact ⟨course, hc, (Plan.lookup.inj h).symm⟩

theorem member_subject (a : Audience) (c : Config) (viewer course : RecordId)
    (field : MemberField) :
    (Lookup.member a c viewer course field).subject = .member field viewer := by
  cases field <;> rfl

/-- What a viewer who is signed in asks about the account itself, and what in a course only. -/
theorem planSignedIn_lookup {a : Audience} {c : Config} {viewer : RecordId} {q : Request}
    {l : Lookup} (h : q.planSignedIn a c viewer = .lookup l) :
    (∃ field, l = .account a viewer field) ∨ (∃ name, l = .customField viewer name) ∨
      ∃ course, a.course = some course ∧
        ((∃ field, l = .course a course field) ∨
          (∃ field, q = .member field ∧ l = .member a c viewer course field) ∨
            ∃ role field, l = .holders c course role field) := by
  cases q with
  | account field => exact .inl ⟨field, (Plan.lookup.inj h).symm⟩
  | customField name => exact .inr (.inl ⟨name, (Plan.lookup.inj h).symm⟩)
  | course field =>
    obtain ⟨course, hc, hl⟩ := inCourse_lookup h
    exact .inr (.inr ⟨course, hc, .inl ⟨field, hl⟩⟩)
  | member field =>
    obtain ⟨course, hc, hl⟩ := inCourse_lookup h
    exact .inr (.inr ⟨course, hc, .inr (.inl ⟨field, rfl, hl⟩)⟩)
  | holders role field =>
    obtain ⟨course, hc, hl⟩ := inCourse_lookup h
    exact .inr (.inr ⟨course, hc, .inr (.inr ⟨role, field, hl⟩)⟩)
  | unknown => cases h

theorem planSignedIn_makes {r : Resolver} {viewer : RecordId} {q : Request} {l : Lookup}
    (h : q.planSignedIn r.audience r.config viewer = .lookup l) : r.Makes l := by
  rcases planSignedIn_lookup h with ⟨field, rfl⟩ | ⟨name, rfl⟩ |
    ⟨course, hc, ⟨field, rfl⟩ | ⟨field, _, rfl⟩ | ⟨role, field, rfl⟩⟩
  · rfl
  · rfl
  · rfl
  · simp [Makes, member_subject, lookupFor?, hc]
  · rfl

/-- Only two kinds of lookup are made for an anonymous viewer. -/
theorem planAnonymous_lookup {a : Audience} {c : Config} {q : Request} {l : Lookup}
    (h : q.planAnonymous a c = .lookup l) : ∃ course, a.course = some course ∧
      ((∃ field, l = .course a course field) ∨ ∃ role, l = .holders c course role .fullName) := by
  cases q with
  | course field =>
    obtain ⟨course, hc, rfl⟩ := inCourse_lookup h
    exact ⟨course, hc, .inl ⟨field, rfl⟩⟩
  | holders role field =>
    cases field with
    | email => cases h
    | fullName =>
      obtain ⟨course, hc, rfl⟩ := inCourse_lookup h
      exact ⟨course, hc, .inr ⟨role, rfl⟩⟩
  | account field => cases h
  | customField name => cases h
  | member field => cases h
  | unknown => cases h

theorem plan_makes {r : Resolver} {segments : List String} {l : Lookup}
    (h : r.plan segments = .lookup l) : r.Makes l := by
  unfold plan Request.plan at h
  split at h
  · exact planSignedIn_makes h
  · obtain ⟨course, _, ⟨field, rfl⟩ | ⟨role, rfl⟩⟩ := planAnonymous_lookup h <;> rfl

theorem plan_subject {r : Resolver} {segments : List String} {l : Lookup}
    (h : r.plan segments = .lookup l) (context field : String) (inst : RecordId) :
    l.subject ≠ .metadata context field inst := by
  unfold plan Request.plan at h
  split at h
  · rcases planSignedIn_lookup h with ⟨_, rfl⟩ | ⟨_, rfl⟩ |
      ⟨_, _, ⟨_, rfl⟩ | ⟨_, _, rfl⟩ | ⟨_, _, rfl⟩⟩ <;>
    simp [Lookup.account, Lookup.customField, Lookup.course, member_subject, Lookup.holders]
  · obtain ⟨_, _, ⟨_, rfl⟩ | ⟨_, rfl⟩⟩ := planAnonymous_lookup h <;>
    simp [Lookup.course, Lookup.holders]

theorem metadataLookup_lookup {r : Resolver} {t : MetadataToken} {l : Lookup}
    (h : (r.metadataLookup t).outcome = .ok l) :
    ∃ c id, r.directory.get? t.category = some c ∧ l = .metadata c id t.field := by
  unfold metadataLookup at h
  split at h
  · cases h
  · rename_i c hc
    dsimp only at h
    cases hi : (r.instanceOf t c).outcome with
    | error e => rw [hi] at h; cases h
    | ok id =>
      rw [hi] at h
      cases h
      exact ⟨c, id, hc, rfl⟩

theorem metadataLookup_makes {r : Resolver} {t : MetadataToken} {l : Lookup}
    (h : (r.metadataLookup t).outcome = .ok l) : r.Makes l := by
  obtain ⟨c, id, hc, rfl⟩ := metadataLookup_lookup h
  simp [Makes, Lookup.metadata, lookupFor?, get?_name hc, hc]

theorem segmentsErrand_makes {r : Resolver} {segments : List String} {l : Lookup}
    (h : (r.segmentsErrand segments).lookup? = some l) : r.Makes l :=
  plan_makes (segmentsErrand_lookup?_iff.mp h)

theorem metadataErrand_makes {r : Resolver} {t : MetadataToken} {l : Lookup}
    (h : (r.metadataErrand t).lookup? = some l) : r.Makes l :=
  metadataLookup_makes (metadataErrand_lookup?_iff.mp h)

/-- Every lookup that a mark leads to is one of the resolver's own. -/
theorem markErrand_makes {r : Resolver} {mark : Mark} {l : Lookup}
    (h : (r.markErrand mark).lookup? = some l) : r.Makes l := by
  rcases markErrand_lookup? h with ⟨segments, h⟩ | ⟨t, h⟩
  · exact segmentsErrand_makes h
  · exact metadataErrand_makes h

end Resolver

end Placeholders
