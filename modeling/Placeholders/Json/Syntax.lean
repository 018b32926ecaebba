import Placeholders.Json.Literal
import Placeholders.Json.Number

namespace Placeholders

/-- A value with its literals and numbers as they are spelled: a reader that has no use for one
never asks for its value. -/
inductive Json where
  | null
  | bool (b : Bool)
  | number (n : Json.Number)
  | text (literal : List Char)
  | array (items : List Json)
  | object (members : List (List Char × Json))

namespace Json

inductive Token where
  | openArray
  | closeArray
  | openObject
  | closeObject
  | comma
  | colon
  | scalar (value : Json)
  | literal (cs : List Char)

/-- Where the lexer stands; characters of an unfinished token are held last first. -/
inductive Lexer where
  | idle
  | inWord (taken : List Char)
  | inNumber (taken : List Char)
  | inText (taken : List Char)
  | inEscape (taken : List Char)

namespace Lexer

def isSpace (c : Char) : Bool := c = ' ' || c = '\t' || c = '\n' || c = '\r'

def isNumberChar (c : Char) : Bool :=
  c.isDigit || c = '-' || c = '+' || c = '.' || c = 'e' || c = 'E'

def punctuation? : Char → Option Token
  | '[' => some .openArray
  | ']' => some .closeArray
  | '\x7b' => some .openObject
  | '\x7d' => some .closeObject
  | ',' => some .comma
  | ':' => some .colon
  | _ => none

def word? (cs : List Char) : Option Token :=
  if cs = ['n', 'u', 'l', 'l'] then some (.scalar .null)
  else if cs = ['t', 'r', 'u', 'e'] then some (.scalar (.bool true))
  else if cs = ['f', 'a', 'l', 's', 'e'] then some (.scalar (.bool false))
  else none

def finish? : Lexer → Option (List Token)
  | .idle => some []
  | .inWord taken => (word? taken.reverse).map fun t => [t]
  | .inNumber taken => (Number.ofSpelling? taken.reverse).map fun n => [.scalar (.number n)]
  | .inText _ => none
  | .inEscape _ => none

def start? (c : Char) : Option (Lexer × List Token) :=
  if isSpace c then some (.idle, [])
  else if c = '"' then some (.inText [], [])
  else if c = '-' || c.isDigit then some (.inNumber [c], [])
  else if c.isLower then some (.inWord [c], [])
  else (punctuation? c).map fun t => (.idle, [t])

/-- One character: where the lexer stands then, and the tokens that are complete. -/
def step? (state : Lexer) (c : Char) : Option (Lexer × List Token) :=
  match state with
  | .inText taken =>
    if c = '"' then
      let literal := taken.reverse
      if isWellFormed literal then some (.idle, [.literal literal]) else none
    else if c = '\\' then some (.inEscape (c :: taken), [])
    else some (.inText (c :: taken), [])
  | .inEscape taken => some (.inText (c :: taken), [])
  | .inWord taken =>
    if c.isLower then some (.inWord (c :: taken), [])
    else do
      let done ← finish? (.inWord taken)
      let (next, more) ← start? c
      return (next, done ++ more)
  | .inNumber taken =>
    if isNumberChar c then some (.inNumber (c :: taken), [])
    else do
      let done ← finish? (.inNumber taken)
      let (next, more) ← start? c
      return (next, done ++ more)
  | .idle => start? c

/-- The tokens of a text, behind those already `done`, which are held last first. -/
def run (state : Lexer) (done : List Token) : List Char → Option (List Token)
  | [] => do return (done.reverse ++ (← finish? state))
  | c :: cs => do
    let (next, tokens) ← step? state c
    run next (tokens.reverse ++ done) cs

end Lexer

/-- An array or object that is still open, with its earlier parts last first. -/
inductive Frame where
  | array (items : List Json)
  | object (members : List (List Char × Json)) (key : List Char)

inductive Builder where
  | value
  | valueOrEnd
  | keyOrEnd
  | key (members : List (List Char × Json))
  | colon (members : List (List Char × Json)) (key : List Char)
  /-- Whatever may stand behind a complete value. -/
  | behind (value : Json)

namespace Builder

def value? (stack : List Frame) : Token → Option (List Frame × Builder)
  | .scalar v => some (stack, .behind v)
  | .literal cs => some (stack, .behind (.text cs))
  | .openArray => some (.array [] :: stack, .valueOrEnd)
  | .openObject => some (stack, .keyOrEnd)
  | _ => none

def step? (stack : List Frame) (due : Builder) (t : Token) : Option (List Frame × Builder) :=
  match due, t, stack with
  | .valueOrEnd, .closeArray, .array items :: stack => some (stack, .behind (.array items.reverse))
  | .value, t, stack => value? stack t
  | .valueOrEnd, t, stack => value? stack t
  | .keyOrEnd, .closeObject, stack => some (stack, .behind (.object []))
  | .keyOrEnd, .literal cs, stack => some (stack, .colon [] cs)
  | .key members, .literal cs, stack => some (stack, .colon members cs)
  | .colon members cs, .colon, stack => some (.object members cs :: stack, .value)
  | .behind v, .comma, .array items :: stack => some (.array (v :: items) :: stack, .value)
  | .behind v, .closeArray, .array items :: stack =>
    some (stack, .behind (.array (v :: items).reverse))
  | .behind v, .comma, .object members cs :: stack => some (stack, .key ((cs, v) :: members))
  | .behind v, .closeObject, .object members cs :: stack =>
    some (stack, .behind (.object ((cs, v) :: members).reverse))
  | _, _, _ => none

def run (stack : List Frame) (due : Builder) : List Token → Option Json
  | [] =>
    match stack, due with
    | [], .behind v => some v
    | _, _ => none
  | t :: ts => do
    let (stack, due) ← step? stack due t
    run stack due ts

end Builder

def read? (text : String) : Option Json :=
  (Lexer.run .idle [] text.toList).bind (Builder.run [] .value)

end Json

end Placeholders
