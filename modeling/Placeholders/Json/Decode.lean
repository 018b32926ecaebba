import Placeholders.Json.Syntax

namespace Placeholders.Json

def text? : Json → Option String
  | .text literal => textOf? literal
  | _ => none

def int? : Json → Option Int
  | .number n => n.int?
  | _ => none

/-- A whole number that an unsigned 64-bit word holds. -/
def word? (j : Json) : Option UInt64 := do
  let i ← j.int?
  if 0 ≤ i && i.toNat < UInt64.size then some (.ofNat i.toNat) else none

/-- A whole number that a signed 64-bit word holds. -/
def signedWord? (j : Json) : Option Int64 := do
  let i ← j.int?
  if Int64.minValue.toInt ≤ i && i ≤ Int64.maxValue.toInt then some (.ofInt i) else none

def float? : Json → Option Float
  | .number n => n.float?
  | _ => none

def nullable? {α : Type} (read : Json → Option α) : Json → Option (Option α)
  | .null => some none
  | j => (read j).map some

def list? {α : Type} (read : Json → Option α) : Json → Option (List α)
  | .array items => items.mapM read
  | _ => none

def members? : Json → Option (List (String × Json))
  | .object members => members.mapM fun (key, j) => do return (← textOf? key, j)
  | _ => none

/-- One of several names. A name may also be written as an object with the name as its only key
and null as its value. -/
def name? : Json → Option String
  | .text literal => textOf? literal
  | .object [(key, .null)] => textOf? key
  | _ => none

abbrev Fields := List (String × Json)

/-- The fields of a record with the declared names: an object, or an array of the fields in their
order. Other fields of an object are ignored; one that is given twice is refused, and so is an array
with too many elements. -/
def fields? (names : List String) : Json → Option Fields
  | .array items => if items.length ≤ names.length then some (names.zip items) else none
  | j => do
    let members ← j.members?
    let known := members.filter fun m => names.contains m.1
    if (known.map Prod.fst).eraseDups.length = known.length then some known else none

namespace Fields

def required? {α : Type} (fields : Fields) (name : String) (read : Json → Option α) : Option α :=
  (fields.lookup name).bind read

def getD? {α : Type} (fields : Fields) (name : String) (read : Json → Option α) (default : α) :
    Option α :=
  match fields.lookup name with
  | none => some default
  | some j => read j

end Fields

end Placeholders.Json
