import Placeholders.Cursor
import Placeholders.Grammar

namespace Placeholders

structure Arguments where
  data : String
  config : Option String
  grammar : Option Grammar
  viewer : Option RecordId
  anonymous : Bool
  course : Option RecordId
  verbosity : Nat
  text : Option String
  deriving DecidableEq, Repr

inductive ValueOption where
  | data
  | config
  | grammar
  | viewer
  | course
  deriving DecidableEq, Repr

def ValueOption.ofName? (name : List Char) : Option ValueOption :=
  match String.ofList name with
  | "data" => some .data
  | "config" => some .config
  | "grammar" => some .grammar
  | "viewer" => some .viewer
  | "scope" => some .course
  | _ => none

/-- Arguments read so far; the file of the store may still be missing. -/
structure Draft where
  data : Option String := none
  config : Option String := none
  grammar : Option Grammar := none
  viewer : Option RecordId := none
  anonymous : Bool := false
  course : Option RecordId := none
  verbosity : Nat := 0
  text : Option String := none

/-- A record number as an argument, which may have a plus sign before it. -/
def recordIdArgument? (value : String) : Option RecordId :=
  let digits := match value.toList with
    | '+' :: digits => digits
    | digits => digits
  if digits.isEmpty || !digits.all Char.isDigit then none else recordId? digits

namespace Draft

def once {α : Type} (old : Option α) (new : α) : Option (Option α) :=
  if old.isSome then none else some (some new)

def setValue? (d : Draft) (option : ValueOption) (value : String) : Option Draft :=
  match option with
  | .data => do return { d with data := ← once d.data value }
  | .config => do return { d with config := ← once d.config value }
  | .grammar => do return { d with grammar := ← once d.grammar (← (Grammar.ofName value).toOption) }
  | .viewer => do return { d with viewer := ← once d.viewer (← recordIdArgument? value) }
  | .course => do return { d with course := ← once d.course (← recordIdArgument? value) }

def setText? (d : Draft) (text : String) : Option Draft := do
  return { d with text := ← once d.text text }

def setFlag? (d : Draft) (name : List Char) : Option Draft :=
  match String.ofList name with
  | "anonymous" => if d.anonymous then none else some { d with anonymous := true }
  | "verbose" => some { d with verbosity := d.verbosity + 1 }
  | _ => none

/-- Short options written together, of which there is only one. -/
def setShort? (d : Draft) (letters : List Char) : Option Draft :=
  if letters.all (· = 'v') then some { d with verbosity := d.verbosity + letters.length } else none

/-- A dash alone is no option. -/
def looksLikeOption (arg : String) : Bool :=
  match arg.toList with
  | '-' :: _ :: _ => true
  | _ => false

/-- Reads the rest of the arguments. A value is attached to its option by an equals sign, or is
the next argument if that does not look like an option; behind two dashes there are no options. -/
def read? : Draft → List String → Option Draft
  | d, [] => some d
  | d, arg :: args =>
    match arg.toList with
    | ['-', '-'] => args.foldlM setText? d
    | '-' :: '-' :: long =>
      let name := long.takeWhile (· ≠ '=')
      match ValueOption.ofName? name, long.dropWhile (· ≠ '='), args with
      | some option, _ :: value, args => do (← d.setValue? option (String.ofList value)).read? args
      | some _, [], [] => none
      | some option, [], value :: args =>
        if looksLikeOption value then none else do (← d.setValue? option value).read? args
      | none, _ :: _, _ => none
      | none, [], args => do (← d.setFlag? name).read? args
    | '-' :: letter :: letters => do (← d.setShort? (letter :: letters)).read? args
    | _ => do (← d.setText? arg).read? args

end Draft

/-- The arguments of a command line; `none` if they are misused. A viewer cannot be anonymous. -/
def Arguments.read? (args : List String) : Option Arguments := do
  let d ← ({} : Draft).read? args
  let data ← d.data
  if d.viewer.isSome && d.anonymous then none
  return {
    data
    config := d.config
    grammar := d.grammar
    viewer := d.viewer
    anonymous := d.anonymous
    course := d.course
    verbosity := d.verbosity
    text := d.text }

def Arguments.usage : String :=
  "Usage: placeholders --data FILE [--config FILE] [--grammar GRAMMAR] " ++
    "[--viewer ID | --anonymous] [--scope ID] [-v] [TEXT]"

end Placeholders
