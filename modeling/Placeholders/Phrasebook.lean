import Placeholders.Json.Decode

namespace Placeholders

structure Phrasebook where
  /-- The overrides, the latest first. -/
  overrides : List (String × String) := []
  deriving Repr

namespace Phrasebook

def standard : Phrasebook := {}

def override (b : Phrasebook) (key phrase : String) : Phrasebook := ⟨(key, phrase) :: b.overrides⟩

def english? : String → Option String
  | "guest" => some "Guest user"
  | "nograde" => some "No grade"
  | "novalue" => some "No value"
  | "noinstance" => some "No matching instance"
  | "unknowncontext" => some "Unknown metadata context"
  | "lookuperror" => some "Error retrieving value"
  | _ => none

/-- What stands for a phrase that there is none for. -/
def missing (key component : String) : String := "[[" ++ key ++ ", " ++ component ++ "]]"

def phrase (b : Phrasebook) (key component : String) : String :=
  match b.overrides.lookup key with
  | some phrase => phrase
  | none => (english? key).getD (missing key component)

/-- The overrides of an object from keys to phrases; a repeated key keeps the last phrase. -/
def overrides? (j : Json) : Option (List (String × String)) := do
  let entries ← (← j.members?).mapM fun (key, phrase) => do return (key, ← phrase.text?)
  return entries.reverse

def ofJson? (j : Json) : Option Phrasebook := do
  let fields ← j.fields? ["overrides"]
  return ⟨← fields.getD? "overrides" overrides? []⟩

def ofText? (text : String) : Option Phrasebook := (Json.read? text).bind ofJson?

end Phrasebook

end Placeholders
