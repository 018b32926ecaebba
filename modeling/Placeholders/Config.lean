import Placeholders.Json.Decode
import Placeholders.Grammar

namespace Placeholders

structure Config where
  grammar : Grammar := .simple
  /-- Stands between the values of a field that has several. -/
  listSeparator : String := ", "
  /-- The component that phrases are looked up under. -/
  component : String := "filter_tokens"
  deriving DecidableEq, Repr

namespace Config

def standard : Config := {}

def withGrammar (c : Config) (g : Grammar) : Config := { c with grammar := g }

/-- In settings each grammar has one name, and its case counts. -/
def grammar? (j : Json) : Option Grammar :=
  match j.name? with
  | some "simple" => some .simple
  | some "namespaced" => some .namespaced
  | _ => none

def ofJson? (j : Json) : Option Config := do
  let fields ← j.fields? ["grammar", "list_separator", "component"]
  return {
    grammar := ← fields.getD? "grammar" grammar? standard.grammar
    listSeparator := ← fields.getD? "list_separator" Json.text? standard.listSeparator
    component := ← fields.getD? "component" Json.text? standard.component }

def ofText? (text : String) : Option Config := (Json.read? text).bind ofJson?

end Config

end Placeholders
