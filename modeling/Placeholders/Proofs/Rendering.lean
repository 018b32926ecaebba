import Mathlib.Tactic.ByContra
import Placeholders.Calendar.Format

namespace Placeholders.Calendar

/-- The letters that stand for something other than a number: names, the half of the day, UTC,
blanks, the percent sign, and abbreviations of other specifiers. -/
def plainLetters : List Char := "aAbhBpPZznt%DxFRTXrvc+".toList

def numberLetters : List Char := "YGCygmdeHkIlMSfUWVjquws".toList

def padLetters : List Char := ['-', '_', '0']

/-- Fractions of the second. -/
def fractions : List (List Char) :=
  [['.', 'f'], ['3', 'f'], ['6', 'f'], ['9', 'f'],
    ['.', '3', 'f'], ['.', '6', 'f'], ['.', '9', 'f']]

def offsets : List (List Char) := [[':', 'z'], [':', ':', 'z'], [':', ':', ':', 'z']]

/-- The specifiers. `short` says whether the shortest offset is one of them. -/
inductive IsSpecifier (short : Bool) : List Char → Prop
  | plain {c : Char} (hc : c ∈ plainLetters) : IsSpecifier short [c]
  | number {c : Char} (hc : c ∈ numberLetters) : IsSpecifier short [c]
  | padded {p c : Char} (hp : p ∈ padLetters) (hc : c ∈ numberLetters) : IsSpecifier short [p, c]
  | fraction {spec : List Char} (hs : spec ∈ fractions) : IsSpecifier short spec
  | offset {spec : List Char} (hs : spec ∈ offsets) : IsSpecifier short spec
  | shortest (allowed : short = true) : IsSpecifier short ['#', 'z']

/-- Text in which every percent sign starts a specifier. -/
inductive IsPattern (short : Bool) : List Char → Prop
  | nil : IsPattern short []
  | literal {c : Char} {cs : List Char} (hc : c ≠ '%') (h : IsPattern short cs) :
    IsPattern short (c :: cs)
  | specifier {spec cs : List Char} (hs : IsSpecifier short spec) (h : IsPattern short cs) :
    IsPattern short ('%' :: (spec ++ cs))

section Specifiers
variable {c p : Char} {cs spec : List Char} {items : List Item} {n : Nat}

theorem numberField?_isSome_iff : (numberField? c).isSome ↔ c ∈ numberLetters := by
  constructor
  · intro h
    unfold numberField? at h
    split at h <;> first | decide | cases h
  · have all : numberLetters.all (fun c => (numberField? c).isSome) = true := by decide
    exact List.all_eq_true.mp all c

theorem pad?_isSome_iff : (pad? p).isSome ↔ p ∈ padLetters := by
  constructor
  · intro h
    unfold pad? at h
    split at h <;> first | decide | cases h
  · have all : padLetters.all (fun p => (pad? p).isSome) = true := by decide
    exact List.all_eq_true.mp all p

theorem letterItems?_isSome (hc : c ∈ plainLetters ++ numberLetters) :
    (letterItems? c).isSome := by
  have all : (plainLetters ++ numberLetters).all (fun c => (letterItems? c).isSome) = true := by
    decide
  exact List.all_eq_true.mp all c hc

theorem letterItems?_sound (h : letterItems? c = some items) :
    (c ∈ plainLetters ∨ c ∈ numberLetters) ∧ .shortestOffset ∉ items := by
  unfold letterItems? at h
  split at h
  case h_23 =>
    obtain ⟨⟨field, pad⟩, hf, rfl⟩ := Option.map_eq_some_iff.mp h
    exact ⟨.inr (numberField?_isSome_iff.mp (by rw [hf]; rfl)), by simp⟩
  all_goals
    cases h
    exact ⟨.inl (by decide), by decide⟩

theorem pairItems?_sound {short : Bool} (h : pairItems? p c = some items)
    (hs : .shortestOffset ∈ items → short = true) : IsSpecifier short [p, c] := by
  unfold pairItems? at h
  split at h
  · rename_i pad field standard hp hf
    exact .padded (pad?_isSome_iff.mp (by rw [hp]; rfl))
      (numberField?_isSome_iff.mp (by rw [hf]; rfl))
  · split at h <;> cases h
    · exact .fraction (by decide)
    · exact .fraction (by decide)
    · exact .fraction (by decide)
    · exact .fraction (by decide)
    · exact .offset (by decide)
    · exact .shortest (hs (by decide))

theorem longItems?_sound {short : Bool} (h : longItems? spec = some items) :
    IsSpecifier short spec := by
  unfold longItems? at h
  split at h <;> cases h
  · exact .fraction (by decide)
  · exact .fraction (by decide)
  · exact .fraction (by decide)
  · exact .offset (by decide)
  · exact .offset (by decide)

/-- What stands at the beginning of a text that a specifier is read from. -/
theorem specifier?_sound {short : Bool} (h : specifier? cs = some (n, items))
    (hs : .shortestOffset ∈ items → short = true) :
    ∃ spec rest, cs = spec ++ rest ∧ spec.length = n ∧ IsSpecifier short spec := by
  unfold specifier? at h
  split at h
  · cases h
  · rename_i c cs
    split at h
    · rename_i found
      cases h
      refine ⟨[c], cs, rfl, rfl, ?_⟩
      rcases (letterItems?_sound found).1 with hc | hc
      · exact .plain hc
      · exact .number hc
    · split at h
      · cases h
      · rename_i d cs
        split at h
        · rename_i found
          cases h
          exact ⟨[c, d], cs, rfl, rfl, pairItems?_sound found hs⟩
        · split at h
          · rename_i found
            cases h
            cases cs with
            | nil => simp [longItems?] at found
            | cons e cs => exact ⟨[c, d, e], cs, rfl, rfl, longItems?_sound found⟩
          · rename_i none
            obtain ⟨found, hf, he⟩ := Option.map_eq_some_iff.mp h
            cases he
            match cs with
            | [] => simp [longItems?] at hf
            | [e] => cases none.symm.trans hf
            | e :: f :: cs => exact ⟨[c, d, e, f], cs, rfl, rfl, longItems?_sound hf⟩

theorem specifier?_of_letter (h : letterItems? c = some items) (rest : List Char) :
    specifier? (c :: rest) = some (1, items) := by
  simp only [specifier?, h]

theorem specifier?_complete {short : Bool} (h : IsSpecifier short spec) :
    ∃ items, (.shortestOffset ∈ items → short = true) ∧
      ∀ rest, specifier? (spec ++ rest) = some (spec.length, items) := by
  cases h with
  | plain hc =>
    obtain ⟨items, found⟩ := Option.isSome_iff_exists.mp
      (letterItems?_isSome (List.mem_append_left _ hc))
    exact ⟨items, fun hs => absurd hs (letterItems?_sound found).2, specifier?_of_letter found⟩
  | number hc =>
    obtain ⟨items, found⟩ := Option.isSome_iff_exists.mp
      (letterItems?_isSome (List.mem_append_right _ hc))
    exact ⟨items, fun hs => absurd hs (letterItems?_sound found).2, specifier?_of_letter found⟩
  | @padded p c hp hc =>
    obtain ⟨pad, filled⟩ := Option.isSome_iff_exists.mp (pad?_isSome_iff.mpr hp)
    obtain ⟨⟨field, _⟩, number⟩ := Option.isSome_iff_exists.mp (numberField?_isSome_iff.mpr hc)
    have single : padLetters.all (fun p => letterItems? p = none) = true := by decide
    have alone : letterItems? p = none := of_decide_eq_true (List.all_eq_true.mp single p hp)
    refine ⟨[.number field pad], by simp, fun rest => ?_⟩
    simp [specifier?, alone, pairItems?, filled, number]
  | fraction hs =>
    simp only [fractions, List.mem_cons, List.not_mem_nil, or_false] at hs
    rcases hs with rfl | rfl | rfl | rfl | rfl | rfl | rfl <;>
      exact ⟨[.text _], by simp, fun rest => rfl⟩
  | offset hs =>
    simp only [offsets, List.mem_cons, List.not_mem_nil, or_false] at hs
    rcases hs with rfl | rfl | rfl <;> exact ⟨[.text _], by simp, fun rest => rfl⟩
  | shortest allowed => exact ⟨[.shortestOffset], fun _ => allowed, fun rest => rfl⟩

end Specifiers

section Patterns
variable {short : Bool} {cs : List Char} {items : List Item} {m : Moment}

theorem itemsFrom?_append (spec cs : List Char) :
    itemsFrom? spec.length (spec ++ cs) = itemsFrom? 0 cs := by
  induction spec with
  | nil => rfl
  | cons c spec ih => simpa [itemsFrom?] using ih

/-- What is read is a pattern, and the shortest offset is only among its items if it may be. -/
theorem itemsFrom?_sound {skip : Nat} (h : itemsFrom? skip cs = some items)
    (hs : .shortestOffset ∈ items → short = true) : IsPattern short (cs.drop skip) := by
  induction skip, cs using itemsFrom?.induct generalizing items with
  | case1 skip =>
    rw [List.drop_nil]
    exact .nil
  | case2 skip c cs ih => exact ih h hs
  | case3 cs ih =>
    simp only [itemsFrom?, ↓reduceIte, Option.bind_eq_bind, Option.pure_def,
      Option.bind_eq_some_iff, Option.some.injEq] at h
    obtain ⟨⟨length, first⟩, read, others, left, rfl⟩ := h
    have own : .shortestOffset ∈ first → short = true :=
      fun hi => hs (List.mem_append_left _ hi)
    obtain ⟨spec, rest, rfl, rfl, specifier⟩ := specifier?_sound read own
    have behind := ih spec.length left fun hi => hs (List.mem_append_right _ hi)
    rw [List.drop_left] at behind
    exact .specifier specifier behind
  | case4 c cs hc ih =>
    simp only [itemsFrom?, hc, ↓reduceIte, Option.map_eq_some_iff] at h
    obtain ⟨others, left, rfl⟩ := h
    exact .literal hc (ih left fun hi => hs (List.mem_cons_of_mem _ hi))

/-- A pattern is read by itself, whatever stands behind it. -/
theorem itemsFrom?_complete (h : IsPattern short cs) :
    ∃ items, (.shortestOffset ∈ items → short = true) ∧
      ∀ rest, itemsFrom? 0 (cs ++ rest) = (itemsFrom? 0 rest).map (items ++ ·) := by
  induction h with
  | nil => exact ⟨[], by simp, fun rest => by simp⟩
  | @literal c cs hc _ ih =>
    obtain ⟨items, own, read⟩ := ih
    refine ⟨.text (String.singleton c) :: items, by simpa using own, fun rest => ?_⟩
    simp [itemsFrom?, hc, read, Option.map_map, Function.comp_def]
  | @specifier spec cs hs _ ih =>
    obtain ⟨items, own, read⟩ := ih
    obtain ⟨first, allowed, found⟩ := specifier?_complete hs
    refine ⟨first ++ items, fun hi => ?_, fun rest => ?_⟩
    · rcases List.mem_append.mp hi with hi | hi
      · exact allowed hi
      · exact own hi
    · have taken : itemsFrom? spec.length (spec ++ (cs ++ rest)) =
          (itemsFrom? 0 rest).map (items ++ ·) := (itemsFrom?_append spec _).trans (read rest)
      simp only [List.cons_append, List.append_assoc, itemsFrom?, ↓reduceIte, found,
        Option.bind_eq_bind, Option.bind_some, taken, Option.pure_def]
      cases itemsFrom? 0 rest with
      | none => rfl
      | some others => simp

theorem itemsFrom?_iff :
    (∃ items, itemsFrom? 0 cs = some items ∧ (.shortestOffset ∈ items → short = true)) ↔
      IsPattern short cs := by
  constructor
  · rintro ⟨items, read, hs⟩
    exact itemsFrom?_sound read hs
  · intro h
    obtain ⟨items, own, read⟩ := itemsFrom?_complete h
    refine ⟨items, ?_, own⟩
    simpa [itemsFrom?] using read []

/-- Whatever is a pattern is one with the shortest offset allowed. -/
theorem IsPattern.full (h : IsPattern short cs) : IsPattern true cs := by
  obtain ⟨items, read, _⟩ := itemsFrom?_iff.mpr h
  exact itemsFrom?_iff.mp ⟨items, read, fun _ => rfl⟩

theorem Item.render?_isSome_iff {item : Item} :
    (item.render? m).isSome ↔ item ≠ .shortestOffset := by
  cases item <;> simp [Item.render?]

theorem mapM_isSome_iff {α β : Type} {f : α → Option β} {xs : List α} :
    (xs.mapM f).isSome ↔ ∀ x ∈ xs, (f x).isSome := by
  induction xs with
  | nil => simp
  | cons x xs ih =>
    rw [List.forall_mem_cons, ← ih]
    cases hx : f x with
    | none => simp [List.mapM_cons, hx]
    | some y => cases hm : xs.mapM f <;> simp [List.mapM_cons, hx, hm]

theorem render?_isSome_iff : (render? m items).isSome ↔ .shortestOffset ∉ items := by
  rw [render?, Option.isSome_map, mapM_isSome_iff]
  constructor
  · intro h hs
    exact Item.render?_isSome_iff.mp (h _ hs) rfl
  · intro h item hi
    exact Item.render?_isSome_iff.mpr fun he => h (he ▸ hi)

/-- A pattern that asks for an offset with its minutes left out where that may be. -/
def AsksShortestOffset (cs : List Char) : Prop :=
  ∃ front back, IsPattern true front ∧ IsPattern true back ∧
    cs = front ++ ['%', '#', 'z'] ++ back

theorem IsSpecifier.cases_short {spec : List Char} (h : IsSpecifier true spec) :
    IsSpecifier false spec ∨ spec = ['#', 'z'] := by
  cases h with
  | plain hc => exact .inl (.plain hc)
  | number hc => exact .inl (.number hc)
  | padded hp hc => exact .inl (.padded hp hc)
  | fraction hs => exact .inl (.fraction hs)
  | offset hs => exact .inl (.offset hs)
  | shortest => exact .inr rfl

theorem IsPattern.append {cs' : List Char} (h : IsPattern short cs) (h' : IsPattern short cs') :
    IsPattern short (cs ++ cs') := by
  induction h with
  | nil => exact h'
  | literal hc _ ih => exact .literal hc ih
  | @specifier spec cs hs _ ih =>
    rw [List.cons_append, List.append_assoc]
    exact .specifier hs ih

/-- The first specifier that is the shortest offset, if any is, cuts the pattern in two. -/
theorem IsPattern.cases_short (h : IsPattern true cs) :
    IsPattern false cs ∨ AsksShortestOffset cs := by
  induction h with
  | nil => exact .inl .nil
  | @literal c cs hc _ ih =>
    rcases ih with ih | ⟨front, back, hf, hb, rfl⟩
    · exact .inl (.literal hc ih)
    · exact .inr ⟨c :: front, back, .literal hc hf, hb, rfl⟩
  | @specifier spec cs hs behind ih =>
    -- A later offset matters only where this specifier is none itself.
    rcases hs.cases_short with own | rfl
    · rcases ih with ih | ⟨front, back, hf, hb, rfl⟩
      · exact .inl (.specifier own ih)
      · exact .inr ⟨'%' :: (spec ++ front), back, .specifier hs hf, hb, by simp⟩
    · exact .inr ⟨[], cs, .nil, behind, rfl⟩

theorem AsksShortestOffset.isPattern (h : AsksShortestOffset cs) : IsPattern true cs := by
  obtain ⟨front, back, hf, hb, rfl⟩ := h
  have middle : IsPattern true ['%', '#', 'z'] := .specifier (.shortest rfl) .nil
  exact (hf.append middle).append hb

/-- A pattern is read in one way only, so there is no other way to take the offset. -/
theorem AsksShortestOffset.not_isPattern (h : AsksShortestOffset cs) : ¬ IsPattern false cs := by
  obtain ⟨front, back, hf, hb, rfl⟩ := h
  intro own
  obtain ⟨items, read, hs⟩ := itemsFrom?_iff.mpr own
  obtain ⟨before, _, first⟩ := itemsFrom?_complete hf
  obtain ⟨behind, last, _⟩ := itemsFrom?_iff.mpr hb
  have all : itemsFrom? 0 (front ++ ['%', '#', 'z'] ++ back) =
      some (before ++ (.shortestOffset :: behind)) := by
    have found : specifier? ('#' :: 'z' :: back) = some (2, [.shortestOffset]) := rfl
    rw [List.append_assoc, first]
    simp [itemsFrom?, found, last]
  rw [all] at read
  cases read
  exact Bool.false_ne_true (hs (by simp))

end Patterns

def HasDate (t : Timestamp) : Prop := firstTimestamp ≤ t.toInt ∧ t.toInt ≤ lastTimestamp

namespace DateFormat
variable {pattern : String} {t : Timestamp}

/-- A pattern is renderable if no timestamp that has a date is written as a number. -/
def Renderable (pattern : String) : Prop :=
  ∀ t, HasDate t → ((⟨pattern⟩ : DateFormat).render? t).isSome

theorem checked_ok_iff :
    (∃ f, checked pattern = .ok f) ↔ IsPattern true pattern.toList := by
  rw [← itemsFrom?_iff, checked, items?]
  cases itemsFrom? 0 pattern.toList <;> simp

theorem render?_of_pattern (h : IsPattern false pattern.toList) (ht : HasDate t) :
    ((⟨pattern⟩ : DateFormat).render? t).isSome := by
  obtain ⟨items, read, hs⟩ := itemsFrom?_iff.mpr h
  have own : .shortestOffset ∉ items := fun hi => Bool.false_ne_true (hs hi)
  have inside : (firstTimestamp ≤ t.toInt && t.toInt ≤ lastTimestamp) = true := by
    simpa [HasDate] using ht
  simp only [render?, items?, read, Moment.ofTimestamp?, inside, ↓reduceIte, Option.bind_eq_bind,
    Option.bind_some]
  exact render?_isSome_iff.mpr own

/-- No timestamp at all can be written by what is no pattern, or asks for the shortest offset. -/
theorem render?_of_not_pattern (h : ¬ IsPattern false pattern.toList) (t : Timestamp) :
    (⟨pattern⟩ : DateFormat).render? t = none := by
  rw [← itemsFrom?_iff] at h
  unfold render? items?
  cases Moment.ofTimestamp? t with
  | none => rfl
  | some moment =>
    cases read : itemsFrom? 0 pattern.toList with
    | none => rfl
    | some items =>
      have short : .shortestOffset ∈ items := by
        by_contra own
        exact h ⟨items, read, fun hi => absurd hi own⟩
      have none : ¬ (Calendar.render? moment items).isSome :=
        fun some => render?_isSome_iff.mp some short
      simpa using none

theorem hasDate_zero : HasDate 0 := ⟨by decide, by decide⟩

theorem renderable_iff : Renderable pattern ↔ IsPattern false pattern.toList := by
  constructor
  · intro h
    by_contra no
    have zero := h 0 hasDate_zero
    rw [render?_of_not_pattern no] at zero
    cases zero
  · intro h t ht
    exact render?_of_pattern h ht

/-- What the check of a pattern says about dates written by it. -/
structure Vetted (pattern : String) : Prop where
  accepted : (∃ f, checked pattern = .ok f) ↔
    Renderable pattern ∨ AsksShortestOffset pattern.toList
  apart : ¬ (Renderable pattern ∧ AsksShortestOffset pattern.toList)
  /-- The check is a check of the grammar, and so is the attempt to write a date. -/
  grammatical : ((∃ f, checked pattern = .ok f) ↔ IsPattern true pattern.toList) ∧
    (Renderable pattern ↔ IsPattern false pattern.toList)
  same : ∀ f, checked pattern = .ok f → f = ⟨pattern⟩
  refused : ∀ e, checked pattern = .error e →
    e = .config ("bad date pattern `" ++ pattern ++ "`") ∧
      ∀ t, (⟨pattern⟩ : DateFormat).format t = toString t.toInt
  /-- One timestamp that has a date and is written as a number means that all are. -/
  unrendered : ¬ Renderable pattern → ∀ t, (⟨pattern⟩ : DateFormat).render? t = none ∧
    (⟨pattern⟩ : DateFormat).format t = toString t.toInt

theorem format_of_render?_eq_none {f : DateFormat} (h : f.render? t = none) :
    f.format t = toString t.toInt := by
  rw [format, h]
  rfl

theorem vetted (pattern : String) : Vetted pattern where
  accepted := by
    rw [checked_ok_iff, renderable_iff]
    constructor
    · exact IsPattern.cases_short
    · rintro (own | asks)
      · exact own.full
      · exact asks.isPattern
  apart := by
    rw [renderable_iff]
    exact fun ⟨own, asks⟩ => asks.not_isPattern own
  grammatical := ⟨checked_ok_iff, renderable_iff⟩
  same f h := by
    unfold checked at h
    split at h <;> cases h
    rfl
  refused e h := by
    have no : ¬ IsPattern true pattern.toList := by
      rw [← checked_ok_iff, h]
      rintro ⟨f, ok⟩
      cases ok
    refine ⟨?_, fun t => ?_⟩
    · unfold checked at h
      split at h <;> cases h
      rfl
    · exact format_of_render?_eq_none (render?_of_not_pattern (fun own => no own.full) t)
  unrendered h t := by
    have none := render?_of_not_pattern (mt renderable_iff.mpr h) t
    exact ⟨none, format_of_render?_eq_none none⟩

/-- A pattern that is no more than the shortest offset passes the check and is never written. -/
theorem checked_unrenderable :
    ¬ ((∃ f, checked "%#z" = .ok f) ↔ Renderable "%#z") := by
  intro h
  have passes : checked "%#z" = .ok ⟨"%#z"⟩ := rfl
  have written := h.mp ⟨_, passes⟩ 0 hasDate_zero
  have none : (⟨"%#z"⟩ : DateFormat).render? 0 = none := by decide +kernel
  rw [none] at written
  cases written

end DateFormat

end Placeholders.Calendar
