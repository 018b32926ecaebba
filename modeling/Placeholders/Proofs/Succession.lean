import Placeholders.Proofs.Layout

namespace Placeholders

/-- What is done with a session. -/
inductive Event where
  | fill (c : Call)
  | replace (d : Directory)

namespace Session

def handle (s : Session) : Event → Session
  | .fill c => { s with memo := (s.fill c).memo }
  | .replace d => s.withDirectory d

def handleAll (s : Session) (events : List Event) : Session := events.foldl handle s

end Session

/-- A mark that comes up while a directory is in force. -/
structure Sighting where
  directory : Directory
  mark : Mark

/-- The marks of all texts that events fill in, each under the directory of its time. -/
def Session.sightings : Session → List Event → List Sighting
  | _, [] => []
  | s, .fill c :: events =>
    (s.tokensOf c).map (⟨s.resolver.directory, ·⟩) ++ (s.handle (.fill c)).sightings events
  | s, .replace d :: events => (s.handle (.replace d)).sightings events

/-- Where the value of a metadata token is found: in a field of an instance of a context, which
stands on a level. -/
structure Place where
  context : String
  inst : RecordId
  field : String
  level : Level
  deriving DecidableEq

namespace Place

def lookup (p : Place) : Lookup :=
  { subject := .metadata p.context p.field p.inst
    query := .fieldValue p.inst p.level p.field
    text := fun (value : Option String) => value }

/-- The text that a store has at a place, if it is not empty. -/
def text? (p : Place) (s : Store) : Option String := Memo.kept (p.lookup.outcome s)

/-- The level does not count. -/
def alike (p q : Place) : Bool := p.context = q.context && p.inst = q.inst && p.field = q.field

theorem key_eq_iff {p q : Place} : p.lookup.key = q.lookup.key ↔ p.alike q = true := by
  rw [Lookup.key_eq_iff]
  simp only [lookup, alike, Subject.metadata.injEq, Bool.and_eq_true, decide_eq_true_eq]
  constructor
  · rintro ⟨context, field, inst⟩
    exact ⟨⟨context, inst⟩, field⟩
  · rintro ⟨⟨context, inst⟩, field⟩
    exact ⟨context, field, inst⟩

theorem eq_of_alike {p q : Place} (h : p.alike q = true) (hl : p.level = q.level) : p = q := by
  obtain ⟨context, inst, field, level⟩ := p
  simp only [alike, Bool.and_eq_true, decide_eq_true_eq] at h
  obtain ⟨⟨rfl, rfl⟩, rfl⟩ := h
  cases hl
  rfl

end Place

namespace Resolver

def under (r : Resolver) (d : Directory) : Resolver := { r with directory := d }

def placeOf? (r : Resolver) (t : MetadataToken) : Option Place :=
  match r.directory.get? t.category with
  | none => none
  | some c => (r.instanceOf t c).outcome.toOption.map fun id => ⟨c.name, id, t.field, c.level⟩

/-- The place of a namespaced mark that can be read, whose context is known and has an instance. -/
def place? (r : Resolver) (x : Sighting) : Option Place :=
  match x.mark with
  | .simple _ => none
  | .namespaced context field =>
    match MetadataToken.read x.mark.text context field with
    | .error _ => none
    | .ok t => (r.under x.directory).placeOf? t

def sole (r : Resolver) (x : Sighting) : Resolution :=
  ((r.under x.directory).resolveMark .empty x.mark).result

/-- Whether the text of the one mark is shown for the other: the one has found it, and their
places are alike. -/
def lendsTo (r : Resolver) (y x : Sighting) : Bool :=
  match r.place? y, r.place? x with
  | some p, some q => p.alike q && (p.text? r.store).isSome
  | _, _ => false

/-- The mark whose text is shown: the first before it that lends one, or else the mark itself. -/
def origin (r : Resolver) (past : List Sighting) (x : Sighting) : Sighting :=
  (past.find? (r.lendsTo · x)).getD x

/-- What marks leave in the memo, whatever the directories. -/
def heldSince (r : Resolver) (past : List Sighting) : Memo LookupKey :=
  past.foldl (fun m x => ((r.under x.directory).resolveMark m x.mark).memo) .empty

def sightingErrand (r : Resolver) (x : Sighting) : Errand :=
  (r.under x.directory).markErrand x.mark

variable {r : Resolver} {x y : Sighting}

theorem sighting_run (r : Resolver) (m : Memo LookupKey) (x : Sighting) :
    (r.under x.directory).resolveMark m x.mark = (r.sightingErrand x).run r.store m :=
  resolveMark_run _ m x.mark

theorem get?_heldSince (r : Resolver) (past : List Sighting) (k : LookupKey) :
    (r.heldSince past).get? k = past.findSome? fun x => (r.sightingErrand x).gain r.store k := by
  have step (m : Memo LookupKey) (x : Sighting) (k : LookupKey) :
      ((r.under x.directory).resolveMark m x.mark).memo.get? k =
        (m.get? k).or ((r.sightingErrand x).gain r.store k) := by
    rw [sighting_run]
    exact (r.sightingErrand x).get?_run_memo r.store m k
  exact Memo.get?_foldl step .empty past k

theorem metadataLookup_place (r : Resolver) (t : MetadataToken) :
    (r.metadataLookup t).outcome.toOption = (r.placeOf? t).map Place.lookup := by
  unfold metadataLookup placeOf?
  cases r.directory.get? t.category with
  | none => rfl
  | some c =>
    dsimp only
    cases (r.instanceOf t c).outcome <;> rfl

theorem metadataErrand_ending {t : MetadataToken} {p : Place} (h : r.placeOf? t = some p) :
    (r.metadataErrand t).ending = .lookup p.lookup r.metadataResolution := by
  have found : (r.metadataErrand t).lookup? = some p.lookup := by
    rw [metadataErrand_lookup?, metadataLookup_place, h, Option.map_some]
  exact metadataErrand_ending_iff.mpr ⟨metadataErrand_lookup?_iff.mp found, rfl⟩

theorem metadataErrand_settled {t : MetadataToken} (h : r.placeOf? t = none) :
    (r.metadataErrand t).lookup? = none := by
  rw [metadataErrand_lookup?, metadataLookup_place, h, Option.map_none]

theorem sightingErrand_ending {p : Place} (h : r.place? x = some p) :
    (r.sightingErrand x).ending = .lookup p.lookup r.metadataResolution := by
  obtain ⟨d, mark⟩ := x
  cases mark with
  | simple body => cases h
  | namespaced context field =>
    unfold place? at h
    unfold sightingErrand markErrand
    dsimp only at h ⊢
    split at h
    · cases h
    · rename_i t ht
      simp only [ht]
      exact metadataErrand_ending (r := r.under d) h

/-- Without a place there is at most a lookup that no directory has a part in. -/
theorem sightingErrand_placeless (h : r.place? x = none) {l : Lookup}
    (hl : (r.sightingErrand x).lookup? = some l) :
    r.Makes l ∧ ∀ context field inst, l.subject ≠ .metadata context field inst := by
  obtain ⟨d, mark⟩ := x
  cases mark with
  | simple body =>
    unfold sightingErrand markErrand at hl
    dsimp only at hl
    split at hl
    · rename_i token _
      have own : r.plan token.segments = .lookup l :=
        (segmentsErrand_lookup?_iff (r := r.under d)).mp hl
      exact ⟨plan_makes own, plan_subject own⟩
    · cases hl
  | namespaced context field =>
    unfold place? at h
    unfold sightingErrand markErrand at hl
    dsimp only at h hl
    split at h
    · rename_i e he
      simp only [he] at hl
      cases hl
    · rename_i t ht
      simp only [ht] at hl
      rw [metadataErrand_settled (r := r.under d) h] at hl
      cases hl

theorem gain_of_place {p : Place} (h : r.place? x = some p) (k : LookupKey) :
    (r.sightingErrand x).gain r.store k = if p.lookup.key = k then p.text? r.store else none := by
  simp only [Errand.gain, Errand.lookup?, sightingErrand_ending h, Place.text?]

/-- Under the key of a place, only what was found at places like it is kept. -/
theorem lendsTo_eq_isSome {p : Place} (h : r.place? x = some p) (y : Sighting) :
    r.lendsTo y x = ((r.sightingErrand y).gain r.store p.lookup.key).isSome := by
  unfold lendsTo
  cases hy : r.place? y with
  | some q =>
    rw [gain_of_place hy]
    by_cases same : q.lookup.key = p.lookup.key
    · simp [h, same, Place.key_eq_iff.mp same]
    · have other : q.alike p = false := by
        rw [Place.key_eq_iff] at same
        exact Bool.eq_false_iff.mpr same
      simp [h, same, other]
  | none =>
    cases hg : (r.sightingErrand y).gain r.store p.lookup.key with
    | none => rfl
    | some v =>
      obtain ⟨l, hl, hk, _⟩ := Errand.gain_eq_some hg
      exact absurd (Lookup.key_eq_iff.mp hk) ((sightingErrand_placeless hy hl).2 _ _ _)

theorem lendsTo_iff : r.lendsTo y x = true ↔ ∃ p q v, r.place? y = some p ∧
    r.place? x = some q ∧ p.alike q = true ∧ p.text? r.store = some v := by
  unfold lendsTo
  cases hy : r.place? y with
  | none => simp
  | some p =>
    cases hx : r.place? x with
    | none => simp
    | some q => simp [Option.isSome_iff_exists]

theorem sole_eq_answer (r : Resolver) (x : Sighting) :
    r.sole x = (r.sightingErrand x).answer r.store := by
  rw [sole, sighting_run]
  exact (r.sightingErrand x).run_empty r.store

theorem sole_of_place {p : Place} (h : r.place? x = some p) :
    r.sole x = r.metadataResolution (p.lookup.outcome r.store) := by
  rw [sole_eq_answer, Errand.answer, sightingErrand_ending h]

theorem origin_of_place_none (h : r.place? x = none) (past : List Sighting) :
    r.origin past x = x := by
  have nobody : past.find? (r.lendsTo · x) = none := by
    apply List.find?_eq_none.mpr
    intro y _ lent
    obtain ⟨_, _, _, _, hx, _⟩ := lendsTo_iff.mp lent
    rw [h] at hx
    cases hx
  rw [origin, nobody, Option.getD_none]

/-- A mark without a place is shown as if nothing were kept: the directories have no part in what
is kept under its key. -/
theorem resolve_heldSince_placeless (h : r.place? x = none) (past : List Sighting) :
    ((r.under x.directory).resolveMark (r.heldSince past) x.mark).result = r.sole x := by
  rw [sole_eq_answer, sighting_run]
  apply Errand.run_of_agree
  intro l v hl hv
  obtain ⟨own, plain⟩ := sightingErrand_placeless h hl
  rw [get?_heldSince] at hv
  obtain ⟨y, _, kept⟩ := List.exists_of_findSome?_eq_some hv
  obtain ⟨k, hk, same, found, _⟩ := Errand.gain_eq_some kept
  have hy : r.place? y = none := by
    apply Option.eq_none_iff_forall_ne_some.mpr
    intro p hp
    have about : k = p.lookup := by
      simp only [Errand.lookup?, sightingErrand_ending hp, Option.some.injEq] at hk
      exact hk.symm
    rw [about] at same
    exact plain _ _ _ (Lookup.key_eq_iff.mp same).symm
  have equal : k = l := (sightingErrand_placeless hy hk).1.eq_of_key own same
  rw [← equal, found]

theorem get?_heldSince_place {p : Place} (h : r.place? x = some p) (past : List Sighting) :
    (r.heldSince past).get? p.lookup.key = (past.find? (r.lendsTo · x)).bind
      fun y => (r.sightingErrand y).gain r.store p.lookup.key := by
  rw [get?_heldSince]
  exact findSome?_eq_bind_find? (lendsTo_eq_isSome h) past

theorem resolve_heldSince_place {p : Place} (h : r.place? x = some p) (past : List Sighting) :
    ((r.under x.directory).resolveMark (r.heldSince past) x.mark).result =
      r.sole (r.origin past x) := by
  have held := get?_heldSince_place h past
  have ending := sightingErrand_ending h
  rw [sighting_run, origin]
  cases hf : past.find? (r.lendsTo · x) with
  | none =>
    rw [hf] at held
    rw [Option.getD_none, sole_eq_answer]
    apply Errand.run_of_not_held
    intro l hl
    simp only [Errand.lookup?, ending, Option.some.injEq] at hl
    rw [← hl]
    exact held
  | some y =>
    have lent : r.lendsTo y x = true := List.find?_some (p := (r.lendsTo · x)) hf
    obtain ⟨q, p', v, hy, hx, near, found⟩ := lendsTo_iff.mp lent
    obtain rfl : p = p' := Option.some.inj (h.symm.trans hx)
    have same : q.lookup.key = p.lookup.key := Place.key_eq_iff.mpr near
    rw [hf, Option.bind_some, gain_of_place hy, if_pos same, found] at held
    rw [Option.getD_some, sole_of_place hy, (Memo.kept_eq_some_iff.mp found).1]
    exact Errand.run_of_get? ending held r.store

/-- After any marks under any directories, a mark is shown what its origin finds. -/
theorem resolve_heldSince (r : Resolver) (past : List Sighting) (x : Sighting) :
    ((r.under x.directory).resolveMark (r.heldSince past) x.mark).result =
      r.sole (r.origin past x) := by
  cases h : r.place? x with
  | some p => exact resolve_heldSince_place h past
  | none =>
    rw [origin_of_place_none h]
    exact resolve_heldSince_placeless h past

theorem sole_eq_of_level (lent : r.lendsTo y x = true)
    (hl : (r.place? y).map (·.level) = (r.place? x).map (·.level)) : r.sole y = r.sole x := by
  obtain ⟨p, q, v, hy, hx, near, _⟩ := lendsTo_iff.mp lent
  rw [hy, hx] at hl
  obtain rfl := Place.eq_of_alike near (Option.some.inj hl)
  rw [sole_of_place hy, sole_of_place hx]

theorem level_of_place {p : Place} (h : r.place? x = some p) :
    (x.directory.get? p.context).map (·.level) = some p.level := by
  obtain ⟨d, mark⟩ := x
  cases mark with
  | simple body => cases h
  | namespaced context field =>
    unfold place? placeOf? at h
    dsimp only at h
    split at h
    · cases h
    · split at h
      · cases h
      · rename_i c hc
        obtain ⟨id, _, rfl⟩ := Option.map_eq_some_iff.mp h
        change (d.get? c.name).map (·.level) = some c.level
        change d.get? _ = some c at hc
        rw [get?_name hc, hc, Option.map_some]

/-- One directory has one level for a context, and so does not show who has lent the text. -/
theorem level_of_lendsTo (lent : r.lendsTo y x = true) (hd : y.directory = x.directory) :
    (r.place? y).map (·.level) = (r.place? x).map (·.level) := by
  obtain ⟨p, q, _, hy, hx, near, _⟩ := lendsTo_iff.mp lent
  have context : p.context = q.context := by
    simp only [Place.alike, Bool.and_eq_true, decide_eq_true_eq] at near
    exact near.1.1
  rw [hy, hx, Option.map_some, Option.map_some, ← level_of_place hy, ← level_of_place hx, hd,
    context]

theorem sole_origin (r : Resolver) (past : List Sighting) (x : Sighting)
    (h : ∀ y ∈ past, r.lendsTo y x = true →
      (r.place? y).map (·.level) = (r.place? x).map (·.level)) :
    r.sole (r.origin past x) = r.sole x := by
  rw [origin]
  cases hf : past.find? (r.lendsTo · x) with
  | none => rfl
  | some y =>
    have lent : r.lendsTo y x = true := List.find?_some (p := (r.lendsTo · x)) hf
    exact sole_eq_of_level lent (h y (List.mem_of_find?_eq_some hf) lent)

/-- What came before under the directory in force does not count. -/
theorem sole_origin_append (past : List Sighting) {near : List Sighting}
    (h : ∀ y ∈ near, y.directory = x.directory) :
    r.sole (r.origin (past ++ near) x) = r.sole (r.origin past x) := by
  have own := r.sole_origin near x fun y hy lent => level_of_lendsTo lent (h y hy)
  unfold origin at own ⊢
  rw [List.find?_append]
  cases past.find? (r.lendsTo · x) with
  | some e => rfl
  | none => exact own

theorem heldSince_append (r : Resolver) (past : List Sighting) (d : Directory)
    (marks : List Mark) : r.heldSince (past ++ marks.map (⟨d, ·⟩)) =
      (r.under d).memoAfter (r.heldSince past) marks := by
  simp only [heldSince, memoAfter, List.foldl_append, List.foldl_map]

theorem slots_heldSince (r : Resolver) (past : List Sighting) (d : Directory)
    {near : List Sighting} (h : ∀ y ∈ near, y.directory = d) (marks : List Mark) :
    (r.under d).slots (r.heldSince (past ++ near)) marks =
      marks.map fun mark => (r.sole (r.origin past ⟨d, mark⟩)).replacement mark := by
  induction marks generalizing near with
  | nil => rfl
  | cons mark marks ih =>
    have first : ((r.under d).resolveMark (r.heldSince (past ++ near)) mark).result =
        r.sole (r.origin past ⟨d, mark⟩) := by
      rw [← sole_origin_append past h]
      exact r.resolve_heldSince (past ++ near) ⟨d, mark⟩
    have memo : ((r.under d).resolveMark (r.heldSince (past ++ near)) mark).memo =
        r.heldSince (past ++ (near ++ [⟨d, mark⟩])) := by
      rw [← List.append_assoc]
      exact (r.heldSince_append (past ++ near) d [mark]).symm
    have under : ∀ y ∈ near ++ [⟨d, mark⟩], y.directory = d := by
      intro y hy
      rcases List.mem_append.mp hy with hy | hy
      · exact h y hy
      · rw [List.mem_singleton.mp hy]
    have rest := ih under
    rw [← memo] at rest
    rw [slots, visits, List.map_cons, List.map_cons, first]
    exact congrArg (_ :: ·) rest

end Resolver

namespace Session

/-- How far a session has come that was begun with a resolver. -/
structure Reached (r : Resolver) (past : List Sighting) (s : Session) : Prop where
  resolver : s.resolver = r.under s.resolver.directory
  memo : s.memo = r.heldSince past

variable {r : Resolver} {past : List Sighting} {s : Session}

theorem start_reached (r : Resolver) : Reached r [] (start r) := ⟨rfl, rfl⟩

theorem Reached.handle (h : Reached r past s) (e : Event) :
    Reached r (past ++ s.sightings [e]) (s.handle e) := by
  cases e with
  | replace d =>
    have resolver : (s.withDirectory d).resolver = r.under d := by
      change s.resolver.under d = r.under d
      rw [h.resolver]
      rfl
    refine ⟨?_, ?_⟩
    · exact resolver
    · simp only [sightings, List.append_nil]
      exact h.memo
  | fill c =>
    refine ⟨h.resolver, ?_⟩
    simp only [sightings, List.append_nil]
    rw [Resolver.heldSince_append, ← h.memo, ← h.resolver]
    exact (s.fill_visits c).2

theorem sightings_cons (s : Session) (e : Event) (events : List Event) :
    s.sightings (e :: events) = s.sightings [e] ++ (s.handle e).sightings events := by
  cases e with
  | fill c => simp only [sightings, List.append_nil]
  | replace d => rfl

theorem Reached.handleAll (h : Reached r past s) (events : List Event) :
    Reached r (past ++ s.sightings events) (s.handleAll events) := by
  induction events generalizing past s with
  | nil =>
    simp only [sightings, List.append_nil]
    exact h
  | cons e events ih =>
    rw [sightings_cons, ← List.append_assoc]
    exact ih (h.handle e)

theorem Reached.slots (h : Reached r past s) (c : Call) :
    s.slots c = ((s.grammarOf c).tokensIn c.text).map fun mark =>
      (r.sole (r.origin past ⟨s.resolver.directory, mark⟩)).replacement mark := by
  have nothing : ∀ y ∈ ([] : List Sighting), y.directory = s.resolver.directory := by simp
  have own := r.slots_heldSince past s.resolver.directory nothing
    ((s.grammarOf c).tokensIn c.text)
  rw [List.append_nil, ← h.memo, ← h.resolver] at own
  exact own

/-- The text of a call with something in the place of each mark; the text as it is if nothing
would be left. -/
def laidOut (s : Session) (c : Call) (slot : Mark → List Char) : String :=
  let out := weave ((s.grammarOf c).gaps c.text) ((s.tokensOf c).map slot)
  if out = [] then c.text else String.ofList out

/-- What a call brings in a session that has reached a point. -/
structure Succeeds (r : Resolver) (past : List Sighting) (s : Session) (c : Call) : Prop
    extends Reached r past s where
  /-- Each mark is shown what its origin finds under the directory of its time. -/
  filled : (s.fill c).result = s.laidOut c fun mark =>
    (r.sole (r.origin past ⟨s.resolver.directory, mark⟩)).replacement mark
  /-- In a fresh session it is shown what it finds itself. -/
  alone : s.fresh c = s.laidOut c fun mark =>
    (r.sole ⟨s.resolver.directory, mark⟩).replacement mark
  /-- The session is as good as a fresh one, unless a context of the same name has lent a text
  from another level. -/
  levels : (∀ mark ∈ s.tokensOf c, ∀ y ∈ past, r.lendsTo y ⟨s.resolver.directory, mark⟩ = true →
      (r.place? y).map (·.level) = (r.place? ⟨s.resolver.directory, mark⟩).map (·.level)) →
    (s.fill c).result = s.fresh c

theorem fresh_laidOut (h : s.resolver = r.under s.resolver.directory) (c : Call) :
    s.fresh c = s.laidOut c fun mark =>
      (r.sole ⟨s.resolver.directory, mark⟩).replacement mark := by
  have cold : (start s.resolver).slots ⟨c.text, some (s.grammarOf c)⟩ =
      (s.tokensOf c).map s.resolver.slot :=
    Resolver.slots_without_history s.resolver.trusts_empty _
  rw [fresh, fill_laidOut, cold]
  have own : s.resolver.slot = fun mark =>
      (r.sole ⟨s.resolver.directory, mark⟩).replacement mark := by
    funext mark
    rw [h]
    rfl
  rw [own]
  rfl

theorem Reached.filled (h : Reached r past s) (c : Call) :
    (s.fill c).result = s.laidOut c fun mark =>
      (r.sole (r.origin past ⟨s.resolver.directory, mark⟩)).replacement mark := by
  rw [fill_laidOut, h.slots]
  rfl

theorem laidOut_congr {c : Call} {slot other : Mark → List Char}
    (h : ∀ mark ∈ s.tokensOf c, slot mark = other mark) : s.laidOut c slot = s.laidOut c other := by
  simp only [laidOut, List.map_congr_left h]

theorem Reached.succeeds (h : Reached r past s) (c : Call) : Succeeds r past s c where
  toReached := h
  filled := h.filled c
  alone := fresh_laidOut h.resolver c
  levels := by
    intro same
    rw [h.filled, fresh_laidOut h.resolver]
    apply laidOut_congr
    intro mark hm
    rw [r.sole_origin past _ (same mark hm)]

/-- However often the directory was replaced, each text comes out as under the one in force, but
for what was found before under the name of a context that had another level then. -/
theorem handleAll_succeeds (r : Resolver) (events : List Event) (c : Call) :
    Succeeds r ((start r).sightings events) ((start r).handleAll events) c :=
  ((start_reached r).handleAll events).succeeds c

/-- A unit that was a course becomes a user of the same number, and the code of the course is
still shown. -/
theorem handleAll_stale :
    let unit (level : Level) : Directory := Directory.empty.register (.mapped "unit" level)
    let r : Resolver :=
      { store := { metadata := [⟨7, .course, "code", "PH1"⟩, ⟨7, .user, "code", "ada"⟩] }
        audience := .english .anonymous none
        config := { grammar := .namespaced }
        directory := unit .course }
    let c : Call := ⟨"{{metadata::unit=7::code}}", none⟩
    let s := (start r).handleAll [.fill c, .replace (unit .user)]
    (s.fill c).result = "PH1" ∧ s.fresh c = "ada" := by
  decide +kernel

end Session

end Placeholders
