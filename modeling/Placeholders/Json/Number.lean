namespace Placeholders.Json

/-- The parts of a number's spelling. A fraction or an exponent that is not written is `none`. -/
structure Number where
  negative : Bool
  whole : List Char
  fraction : Option (List Char)
  exponent : Option (Bool × List Char)
  deriving DecidableEq, Repr

def isWhole : List Char → Bool
  | [] => false
  | [d] => d.isDigit
  | d :: ds => d.isDigit && d != '0' && ds.all Char.isDigit

def isDigits (ds : List Char) : Bool := !ds.isEmpty && ds.all Char.isDigit

def exponentPart? : List Char → Option (Option (Bool × List Char))
  | [] => some none
  | e :: cs =>
    if e = 'e' || e = 'E' then
      match cs with
      | '-' :: ds => if isDigits ds then some (some (true, ds)) else none
      | '+' :: ds => if isDigits ds then some (some (false, ds)) else none
      | ds => if isDigits ds then some (some (false, ds)) else none
    else none

def Number.ofSpelling? (cs : List Char) : Option Number := do
  let negative := cs.head? == some '-'
  let unsigned := if negative then cs.tail else cs
  let whole := unsigned.takeWhile Char.isDigit
  if !isWhole whole then none
  match unsigned.dropWhile Char.isDigit with
  | '.' :: rest =>
    let fraction := rest.takeWhile Char.isDigit
    if fraction.isEmpty then none
    return ⟨negative, whole, some fraction, ← exponentPart? (rest.dropWhile Char.isDigit)⟩
  | rest => return ⟨negative, whole, none, ← exponentPart? rest⟩

/-- The value of a number written without fraction and exponent. Minus zero is no whole number. -/
def Number.int? (n : Number) : Option Int :=
  match n.fraction, n.exponent with
  | none, none =>
    let size := Nat.ofDigitChars 10 n.whole 0
    if n.negative then if size = 0 then none else some (-size) else some size
  | _, _ => none

structure Scaled where
  digits : UInt64
  power : Int

def extend? (word : UInt64) (digit : Char) : Option UInt64 :=
  let n := word.toNat * 10 + (digit.toNat - '0'.toNat)
  if n < UInt64.size then some (.ofNat n) else none

/-- Gathers the digits before the point. From the first that does not fit on, each only
multiplies by ten. -/
def gatherWhole : UInt64 → List Char → Scaled
  | word, [] => ⟨word, 0⟩
  | word, d :: ds =>
    match extend? word d with
    | some word => gatherWhole word ds
    | none => ⟨word, (d :: ds).length⟩

/-- Gathers the digits behind the point. From the first that does not fit on, all are dropped. -/
def gatherFraction : Scaled → List Char → Scaled
  | s, [] => s
  | s, d :: ds =>
    match extend? s.digits d with
    | some word => gatherFraction ⟨word, s.power - 1⟩ ds
    | none => s

def largestPower : Nat := 308

def powerOfTen (n : Nat) : Float := Float.ofScientific 1 false n

/-- Divides by a power of ten, in steps that a double holds. The value is zero long before
`steps` runs out. -/
def shrink (steps : Nat) (f : Float) (power : Nat) : Float :=
  match steps with
  | 0 => f
  | steps + 1 =>
    if power ≤ largestPower then f / powerOfTen power
    else if f == 0 then f
    else shrink steps (f / powerOfTen largestPower) (power - largestPower)

/-- The double that a scaled word stands for; `none` if it is too large for one. The word is
converted first and scaled then, and each of these steps rounds. -/
def Scaled.float? (s : Scaled) : Option Float :=
  let f := s.digits.toFloat
  if s.power < 0 then some (shrink 4 f s.power.natAbs)
  else if s.power ≤ largestPower then
    let scaled := f * powerOfTen s.power.natAbs
    if scaled.isInf then none else some scaled
  else if f == 0 then some f
  else none

/-- Exponents that a signed 32-bit word does not hold are beyond every double. -/
def isHuge (exponent : List Char) : Bool := Int32.size / 2 ≤ Nat.ofDigitChars 10 exponent 0

def Number.float? (n : Number) : Option Float := do
  let whole := gatherWhole 0 n.whole
  let gathered := gatherFraction whole (n.fraction.getD [])
  let size ← match n.exponent with
    | none => gathered.float?
    | some (negative, ds) =>
      if isHuge ds then
        if gathered.digits ≠ 0 && !negative then none else some 0
      else
        let shift : Int := Nat.ofDigitChars 10 ds 0
        Scaled.float? ⟨gathered.digits,
          if negative then gathered.power - shift else gathered.power + shift⟩
  return if n.negative then -size else size

end Placeholders.Json
