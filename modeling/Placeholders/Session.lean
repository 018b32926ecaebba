import Placeholders.Piece
import Placeholders.Resolver

namespace Placeholders

def Resolution.replacement (mark : Mark) : Resolution → List Char
  | .resolved value => value.toList
  | .placeholder phrase => phrase.toList
  | .unresolved => mark.spelling

namespace Resolver

/-- The pieces of a text with every mark replaced, in one pass from left to right. What takes
the place of a mark is not looked at again. -/
def fillPieces (r : Resolver) : Memo LookupKey → List Piece → Step (List Char)
  | m, [] => ⟨[], [], m⟩
  | m, .char c :: ps =>
    let rest := r.fillPieces m ps
    ⟨c :: rest.result, rest.queries, rest.memo⟩
  | m, .mark mark :: ps =>
    let step := r.resolveMark m mark
    let rest := r.fillPieces step.memo ps
    ⟨step.result.replacement mark ++ rest.result, step.queries ++ rest.queries, rest.memo⟩

def fill (r : Resolver) (m : Memo LookupKey) (g : Grammar) (text : String) : Step (List Char) :=
  r.fillPieces m (g.pieces text)

end Resolver

/-- A text to fill in, with a grammar of its own or in the configured one. -/
structure Call where
  text : String
  grammar : Option Grammar := none
  deriving DecidableEq, Repr

structure Session where
  resolver : Resolver
  memo : Memo LookupKey := .empty

namespace Session

def start (r : Resolver) : Session := { resolver := r }

def grammarOf (s : Session) (c : Call) : Grammar := c.grammar.getD s.resolver.config.grammar

/-- Fills in a text. One of which nothing would be left stays as it is. -/
def fill (s : Session) (c : Call) : Step String :=
  let filled := s.resolver.fill s.memo (s.grammarOf c) c.text
  ⟨if filled.result.isEmpty then c.text else String.ofList filled.result, filled.queries,
    filled.memo⟩

def fillAll : Session → List Call → List (Step String)
  | _, [] => []
  | s, c :: cs =>
    let step := s.fill c
    step :: fillAll { s with memo := step.memo } cs

/-- The same session with another directory of metadata contexts; the memo stays. -/
def withDirectory (s : Session) (d : Directory) : Session :=
  { s with resolver := { s.resolver with directory := d } }

end Session

def fillOnce (store : Store) (audience : Audience) (text : String) : Step String :=
  Session.fill { resolver := { store, audience } } { text }

end Placeholders
