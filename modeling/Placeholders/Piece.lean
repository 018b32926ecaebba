import Placeholders.Mark

namespace Placeholders

inductive Piece where
  | char (c : Char)
  | mark (m : Mark)
  deriving DecidableEq, Repr

def Piece.spelling : Piece → List Char
  | .char c => [c]
  | .mark m => m.spelling

/-- The pieces of a text whose first `skip` characters belong to a mark already found. The
search goes on behind each mark, and one character further where none starts. -/
def Grammar.piecesFrom (g : Grammar) : Nat → List Char → List Piece
  | _, [] => []
  | skip + 1, _ :: cs => g.piecesFrom skip cs
  | 0, c :: cs =>
    match g.markAt? (c :: cs) with
    | some m => .mark m :: g.piecesFrom (m.spelling.length - 1) cs
    | none => .char c :: g.piecesFrom 0 cs

def Grammar.pieces (g : Grammar) (text : String) : List Piece := g.piecesFrom 0 text.toList

/-- Cutting a text loses nothing and adds nothing. -/
theorem Grammar.piecesFrom_spelling (g : Grammar) (skip : Nat) (cs : List Char) :
    (g.piecesFrom skip cs).flatMap Piece.spelling = cs.drop skip := by
  induction cs generalizing skip with
  | nil => simp [piecesFrom]
  | cons c cs ih =>
    cases skip with
    | succ skip => simp [piecesFrom, ih]
    | zero =>
      unfold piecesFrom
      split
      · rename_i m h
        obtain ⟨rest, hrest⟩ := markAt?_spelling h
        cases hs : m.spelling with
        | nil => exact absurd hs m.spelling_ne_nil
        | cons x xs =>
          rw [hs, List.cons_append] at hrest
          obtain ⟨rfl, rfl⟩ := List.cons.inj hrest
          simp [Piece.spelling, hs, ih]
      · simp [Piece.spelling, ih]

theorem Grammar.pieces_spelling (g : Grammar) (text : String) :
    (g.pieces text).flatMap Piece.spelling = text.toList := by
  simp [pieces, piecesFrom_spelling]

def byteSize (cs : List Char) : Nat := (String.ofList cs).utf8ByteSize

theorem byteSize_append (cs ds : List Char) : byteSize (cs ++ ds) = byteSize cs + byteSize ds := by
  simp [byteSize, String.ofList_append]

/-- A mark and the byte range it takes up in its text. -/
structure PlacedMark where
  start : Nat
  stop : Nat
  mark : Mark
  deriving DecidableEq, Repr

/-- The marks among pieces of which the first starts at byte `offset`. -/
def placedFrom : Nat → List Piece → List PlacedMark
  | _, [] => []
  | offset, p :: ps =>
    let stop := offset + byteSize p.spelling
    match p with
    | .char _ => placedFrom stop ps
    | .mark m => ⟨offset, stop, m⟩ :: placedFrom stop ps

def Grammar.marks (g : Grammar) (text : String) : List PlacedMark := placedFrom 0 (g.pieces text)

end Placeholders
