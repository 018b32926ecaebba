import Placeholders.Failure
import Placeholders.Record

namespace Placeholders

/-- The part of a text that is still to be read. Each operation answers together with the cursor
behind what it passed over; one that fails or answers `false` passes over nothing, but for a number
that no record can have, whose digits it passes over all the same. -/
structure Cursor where
  rest : List Char
  deriving DecidableEq, Repr

def recordId? (digits : List Char) : Option RecordId :=
  let n := Nat.ofDigitChars 10 digits 0
  if n < UInt64.size then some (.ofNat n) else none

/-- The record number that digits spell, which can be too large for one. -/
def recordIdOf (digits : String) : Except TokenError RecordId :=
  match recordId? digits.toList with
  | some id => .ok id
  | none => .error (.invalidSyntax "bad integer")

/-- A text up to the first occurrence of `stop`, or all of it, and the rest. -/
def splitAtFirst (stop : List Char) : List Char → List Char × List Char
  | [] => ([], [])
  | c :: cs =>
    if stop.isPrefixOf (c :: cs) then ([], c :: cs)
    else
      let (found, rest) := splitAtFirst stop cs
      (c :: found, rest)

theorem recordId?_eq_some_iff {digits : List Char} {id : RecordId} :
    recordId? digits = some id ↔ id.toNat = Nat.ofDigitChars 10 digits 0 := by
  unfold recordId?
  dsimp only
  split
  · rename_i h
    rw [Option.some.injEq]
    constructor
    · rintro rfl
      exact UInt64.toNat_ofNat_of_lt h
    · intro he
      rw [← he]
      exact UInt64.ofNat_toNat
  · rename_i h
    simp only [reduceCtorEq, false_iff]
    intro he
    exact h (he ▸ id.toNat_lt)

theorem splitAtFirst_append (stop cs : List Char) :
    (splitAtFirst stop cs).1 ++ (splitAtFirst stop cs).2 = cs := by
  induction cs with
  | nil => rfl
  | cons c cs ih =>
    unfold splitAtFirst
    split
    · rfl
    · simpa using ih

namespace Cursor

def ofString (text : String) : Cursor := ⟨text.toList⟩

def peek? (c : Cursor) : Option Char := c.rest.head?

def atEnd (c : Cursor) : Bool := c.rest.isEmpty

def startsWith (c : Cursor) (text : String) : Bool := text.toList.isPrefixOf c.rest

/-- The longest run of characters of a class, which has to have one at least. -/
def run (c : Cursor) (inClass : Char → Bool) (expected : String) :
    Except TokenError String × Cursor :=
  match c.rest.takeWhile inClass with
  | [] => (.error (.invalidSyntax expected), c)
  | found => (.ok (String.ofList found), ⟨c.rest.dropWhile inClass⟩)

def identifier (c : Cursor) : Except TokenError String × Cursor :=
  c.run (fun x => x == '_' || x.isAlphanum) "identifier expected"

def name (c : Cursor) : Except TokenError String × Cursor :=
  c.run (fun x => x == '_' || x.isAlpha) "name expected"

/-- A record number in decimal digits, any number of zeros before it. -/
def number (c : Cursor) : Except TokenError RecordId × Cursor :=
  match c.rest.takeWhile Char.isDigit with
  | [] => (.error (.invalidSyntax "expected integer"), c)
  | digits =>
    let behind : Cursor := ⟨c.rest.dropWhile Char.isDigit⟩
    match recordId? digits with
    | some id => (.ok id, behind)
    | none => (.error (.invalidSyntax "bad integer"), behind)

def takeUntil (c : Cursor) (stop : String) : String × Cursor :=
  let (found, rest) := splitAtFirst stop.toList c.rest
  (String.ofList found, ⟨rest⟩)

def skipChar (c : Cursor) (x : Char) : Bool × Cursor :=
  if c.peek? = some x then (true, ⟨c.rest.tail⟩) else (false, c)

def skipText (c : Cursor) (text : String) : Bool × Cursor :=
  if c.startsWith text then (true, ⟨c.rest.drop text.length⟩) else (false, c)

theorem length_takeUntil_le (c : Cursor) (stop : String) :
    (c.takeUntil stop).2.rest.length ≤ c.rest.length := by
  have whole := congrArg List.length (splitAtFirst_append stop.toList c.rest)
  rw [List.length_append] at whole
  change (splitAtFirst stop.toList c.rest).2.length ≤ c.rest.length
  omega

/-- Passing over a text leaves less to be read, unless the text is empty. -/
theorem length_skipText_lt {c : Cursor} {text : String} (full : text ≠ "")
    (h : (c.skipText text).1 = true) : (c.skipText text).2.rest.length < c.rest.length := by
  unfold skipText at h ⊢
  split at h
  · rename_i hs
    have within : text.toList.length ≤ c.rest.length := (List.isPrefixOf_iff_prefix.mp hs).length_le
    have some : text.length ≠ 0 := by simpa using full
    rw [String.length_toList] at within
    rw [if_pos hs, List.length_drop]
    omega
  · cases h

end Cursor

end Placeholders
