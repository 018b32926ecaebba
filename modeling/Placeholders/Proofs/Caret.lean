import Placeholders.Cursor

namespace Placeholders

/-- A text from one byte to another. Both have to lie between characters. -/
def slice? (text : String) (start stop : Nat) : Option String :=
  if h : String.Pos.Raw.IsValid text ⟨start⟩ ∧ String.Pos.Raw.IsValid text ⟨stop⟩ ∧
      start ≤ stop then
    some (text.slice ⟨⟨start⟩, h.1⟩ ⟨⟨stop⟩, h.2.1⟩ h.2.2).copy
  else none

/-- The byte at which `stop` stands for the first time. -/
def firstByte? (stop : List Char) : List Char → Option Nat
  | [] => if stop.isEmpty then some 0 else none
  | c :: cs =>
    if stop.isPrefixOf (c :: cs) then some 0 else (firstByte? stop cs).map (c.utf8Size + ·)

theorem slice?_eq_some_iff {text part : String} {start stop : Nat} :
    slice? text start stop = some part ↔ ∃ before after, text = before ++ (part ++ after) ∧
      start = before.utf8ByteSize ∧ stop = (before ++ part).utf8ByteSize := by
  unfold slice?
  constructor
  · intro h
    split at h
    · rename_i valid
      obtain ⟨before, after, first, last⟩ :=
        String.copy_slice_eq_iff_splits.mp ⟨valid.2.2, Option.some.inj h⟩
      exact ⟨before, after, first.eq_append, congrArg String.Pos.Raw.byteIdx
        first.offset_eq_rawEndPos, congrArg String.Pos.Raw.byteIdx last.offset_eq_rawEndPos⟩
    · cases h
  · rintro ⟨before, after, rfl, rfl, rfl⟩
    have first : String.Pos.Raw.IsValid (before ++ (part ++ after)) before.rawEndPos :=
      String.Pos.Raw.isValid_iff_exists_append.mpr ⟨before, part ++ after, rfl, rfl⟩
    have last : String.Pos.Raw.IsValid (before ++ (part ++ after)) (before ++ part).rawEndPos :=
      String.Pos.Raw.isValid_iff_exists_append.mpr
        ⟨before ++ part, after, (String.append_assoc ..).symm, rfl⟩
    have order : before.utf8ByteSize ≤ (before ++ part).utf8ByteSize := by
      rw [String.utf8ByteSize_append]
      omega
    rw [dif_pos ⟨first, last, order⟩]
    obtain ⟨_, copied⟩ :
        ∃ h, ((before ++ (part ++ after)).slice ⟨_, first⟩ ⟨_, last⟩ h).copy = part :=
      String.copy_slice_eq_iff_splits.mpr
        ⟨before, after, ⟨rfl, rfl⟩, ⟨(String.append_assoc ..).symm, rfl⟩⟩
    exact congrArg some copied

theorem valid_of_slice? {text part : String} {start stop : Nat}
    (h : slice? text start stop = some part) :
    String.Pos.Raw.IsValid text ⟨start⟩ ∧ String.Pos.Raw.IsValid text ⟨stop⟩ ∧ start ≤ stop := by
  unfold slice? at h
  split at h
  · assumption
  · cases h

/-- A text and the byte in it behind which reading goes on. A caret takes slices of the text for
what it answers, and comes to nothing if one would cut a character. -/
structure Caret where
  text : String
  offset : Nat
  deriving DecidableEq, Repr

namespace Caret

def start (text : String) : Caret := ⟨text, 0⟩

def moved (k : Caret) (bytes : Nat) : Caret := { k with offset := k.offset + bytes }

/-- What is still to be read. -/
def rest? (k : Caret) : Option (List Char) :=
  (slice? k.text k.offset k.text.utf8ByteSize).map String.toList

/-- What has been passed over from a byte on. -/
def since? (k : Caret) (start : Nat) : Option String := slice? k.text start k.offset

def peek? (k : Caret) : Option (Option Char) := k.rest?.map List.head?

def atEnd (k : Caret) : Bool := k.text.utf8ByteSize ≤ k.offset

def startsWith? (k : Caret) (text : String) : Option Bool := k.rest?.map text.toList.isPrefixOf

theorem offset_lt_of_peek? {k : Caret} {x : Char} (h : k.peek? = some (some x)) :
    k.offset < k.text.utf8ByteSize := by
  simp only [peek?, rest?, Option.map_map, Option.map_eq_some_iff, slice?_eq_some_iff] at h
  obtain ⟨part, ⟨before, after, _, hstart, hstop⟩, first⟩ := h
  have some : part.utf8ByteSize ≠ 0 := by
    intro none
    rw [String.utf8ByteSize_eq_zero_iff] at none
    rw [none] at first
    cases first
  rw [String.utf8ByteSize_append] at hstop
  omega

/-- Moves over characters of a class, one after the other, as long as there is one. -/
def skipRun? (k : Caret) (inClass : Char → Bool) : Option Caret :=
  match _next : k.peek? with
  | none => none
  | some none => some k
  | some (some x) => if inClass x then (k.moved x.utf8Size).skipRun? inClass else some k
termination_by k.text.utf8ByteSize - k.offset
decreasing_by
  have short := offset_lt_of_peek? _next
  have wide := x.utf8Size_pos
  simp only [moved]
  omega

theorem skipRun?_of_next {k : Caret} {x : Char} (h : k.peek? = some (some x))
    (inClass : Char → Bool) :
    k.skipRun? inClass = if inClass x then (k.moved x.utf8Size).skipRun? inClass else some k := by
  rw [skipRun?]
  split <;> simp_all

theorem skipRun?_of_last {k : Caret} (h : k.peek? = some none) (inClass : Char → Bool) :
    k.skipRun? inClass = some k := by
  rw [skipRun?]
  split <;> simp_all

def run? (k : Caret) (inClass : Char → Bool) (expected : String) :
    Option (Except TokenError String × Caret) := do
  let behind ← k.skipRun? inClass
  if behind.offset = k.offset then return (.error (.invalidSyntax expected), behind)
  let found ← behind.since? k.offset
  return (.ok found, behind)

def identifier? (k : Caret) : Option (Except TokenError String × Caret) :=
  k.run? (fun x => x == '_' || x.isAlphanum) "identifier expected"

def name? (k : Caret) : Option (Except TokenError String × Caret) :=
  k.run? (fun x => x == '_' || x.isAlpha) "name expected"

def number? (k : Caret) : Option (Except TokenError RecordId × Caret) := do
  let (digits, behind) ← k.run? Char.isDigit "expected integer"
  return (digits.bind recordIdOf, behind)

def takeUntil? (k : Caret) (stop : String) : Option (String × Caret) := do
  let rest ← k.rest?
  let behind := k.moved ((firstByte? stop.toList rest).getD (k.text.utf8ByteSize - k.offset))
  let taken ← behind.since? k.offset
  return (taken, behind)

def skipChar? (k : Caret) (x : Char) : Option (Bool × Caret) := do
  if (← k.peek?) = some x then return (true, k.moved x.utf8Size) else return (false, k)

def skipText? (k : Caret) (text : String) : Option (Bool × Caret) := do
  if ← k.startsWith? text then return (true, k.moved text.utf8ByteSize) else return (false, k)

/-- The caret between two parts of a text. -/
def between (before : String) (rest : List Char) : Caret :=
  ⟨before ++ String.ofList rest, before.utf8ByteSize⟩

theorem between_eq {text before : String} {rest : List Char}
    (h : text.toList = before.toList ++ rest) :
    between before rest = ⟨text, before.utf8ByteSize⟩ := by
  have whole : before ++ String.ofList rest = text := by
    apply String.toList_inj.mp
    simp [h]
  rw [between, whole]

section
variable (before passed : String) (rest : List Char)

@[simp] theorem offset_between : (between before rest).offset = before.utf8ByteSize := rfl

@[simp] theorem rest?_between : (between before rest).rest? = some rest := by
  rw [rest?, Option.map_eq_some_iff]
  refine ⟨String.ofList rest, ?_, String.toList_ofList⟩
  exact slice?_eq_some_iff.mpr ⟨before, "", by simp [between], rfl, rfl⟩

@[simp] theorem peek?_between : (between before rest).peek? = some rest.head? := by
  simp [peek?]

@[simp] theorem startsWith?_between (text : String) :
    (between before rest).startsWith? text = some (text.toList.isPrefixOf rest) := by
  simp [startsWith?]

theorem atEnd_between : (between before rest).atEnd = true ↔ rest = [] := by
  simp only [atEnd, between, decide_eq_true_iff, String.utf8ByteSize_append]
  rw [← String.ofList_eq_empty_iff, ← String.utf8ByteSize_eq_zero_iff]
  omega

/-- A caret that moves by the bytes of a text that stands before it is behind that text. -/
@[simp] theorem moved_between : (between before (passed.toList ++ rest)).moved passed.utf8ByteSize =
    between (before ++ passed) rest := by
  simp [between, moved, String.ofList_append, String.append_assoc]

@[simp] theorem moved_between_cons (x : Char) :
    (between before (x :: rest)).moved x.utf8Size =
      between (before ++ String.singleton x) rest := by
  simpa using moved_between before (String.singleton x) rest

@[simp] theorem since?_between :
    (between (before ++ passed) rest).since? before.utf8ByteSize = some passed :=
  slice?_eq_some_iff.mpr
    ⟨before, String.ofList rest, by simp [between, String.append_assoc], rfl, rfl⟩

end

end Caret

end Placeholders
