namespace Placeholders.Json

def hexDigit? (c : Char) : Option Nat :=
  let n := c.toNat
  if '0'.toNat ≤ n && n ≤ '9'.toNat then some (n - '0'.toNat)
  else if 'a'.toNat ≤ n && n ≤ 'f'.toNat then some (n - 'a'.toNat + 10)
  else if 'A'.toNat ≤ n && n ≤ 'F'.toNat then some (n - 'A'.toNat + 10)
  else none

def unit? (a b c d : Char) : Option Nat := do
  return (((← hexDigit? a) * 16 + (← hexDigit? b)) * 16 + (← hexDigit? c)) * 16 + (← hexDigit? d)

def shortEscape? : Char → Option Char
  | '"' => some '"'
  | '\\' => some '\\'
  | '/' => some '/'
  | 'b' => some '\x08'
  | 'f' => some '\x0c'
  | 'n' => some '\n'
  | 'r' => some '\r'
  | 't' => some '\t'
  | _ => none

def isControl (c : Char) : Bool := c.toNat < 0x20

/-- A character of a literal, or half of one. -/
inductive Code where
  | char (c : Char)
  | half (unit : Nat)
  deriving DecidableEq, Repr

def Code.ofUnit (u : Nat) : Code :=
  if 0xD800 ≤ u && u ≤ 0xDFFF then .half u else .char (Char.ofNat u)

/-- What the characters and escapes of a literal stand for, if they are complete. -/
def codes? : List Char → Option (List Code)
  | [] => some []
  | '\\' :: 'u' :: a :: b :: c :: d :: cs => do
    return .ofUnit (← unit? a b c d) :: (← codes? cs)
  | '\\' :: e :: cs => do return .char (← shortEscape? e) :: (← codes? cs)
  | c :: cs => do
    if c = '\\' || isControl c then none
    return .char c :: (← codes? cs)

def isWellFormed (literal : List Char) : Bool := (codes? literal).isSome

/-- The character beyond the basic plane that a leading and a trailing surrogate stand for. -/
def joined? (u v : Nat) : Option Char :=
  if u < 0xDC00 && 0xDC00 ≤ v then
    some (Char.ofNat (0x10000 + (u - 0xD800) * 0x400 + (v - 0xDC00)))
  else none

def charsOf? : List Code → Option (List Char)
  | [] => some []
  | .char c :: cs => (charsOf? cs).map (c :: ·)
  | .half u :: .half v :: cs => do return (← joined? u v) :: (← charsOf? cs)
  | .half _ :: _ => none

/-- The text that a literal stands for. One is well formed when its escapes are complete, but has a
text only when each escaped surrogate is half of a pair as well. -/
def textOf? (literal : List Char) : Option String :=
  ((codes? literal).bind charsOf?).map String.ofList

end Placeholders.Json
