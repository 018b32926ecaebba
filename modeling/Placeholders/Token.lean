import Placeholders.Cursor

namespace Placeholders

structure SimpleToken where
  raw : String
  segments : List String
  deriving DecidableEq, Repr

def SimpleToken.category (t : SimpleToken) : String := t.segments.headD ""

structure MetadataToken where
  raw : String
  category : String
  inst : Option RecordId
  field : String
  deriving DecidableEq, Repr

/-- What is left, piece by piece, without blanks around a piece. A piece goes up to the next
underscore, and only behind one that could be passed over is there another piece. -/
def Cursor.segments (c : Cursor) : List String :=
  let piece := c.takeUntil "_"
  let behind := piece.2.skipText "_"
  Text.trimmed piece.1 :: if _more : behind.1 then behind.2.segments else []
termination_by c.rest.length
decreasing_by
  exact Nat.lt_of_lt_of_le (length_skipText_lt (by decide) _more) (c.length_takeUntil_le "_")

/-- The pieces of a body between underscores. -/
def segmentsOf (body : String) : List String := (Cursor.ofString body).segments

/-- Reads the body of a simple token. Its first segment must not be empty. -/
def SimpleToken.read (raw body : String) : Except TokenError SimpleToken :=
  let segments := segmentsOf body
  if segments.headD "" = "" then .error .missingCategory else .ok ⟨raw, segments⟩

def expectEnd (c : Cursor) (text : String) : Except TokenError Unit :=
  if c.atEnd then .ok () else .error (.invalidSyntax ("trailing input in `" ++ text ++ "`"))

/-- Reads a context: a name, and an instance behind an equals sign. -/
def readContext (context : String) : Except TokenError (String × Option RecordId) :=
  match (Cursor.ofString (Text.trimmed context)).name with
  | (.error _, _) => .error .missingCategory
  | (.ok name, behind) =>
    match behind.skipChar '=' with
    | (false, _) => do
      expectEnd behind context
      return (name, none)
    | (true, behind) => do
      let (number, behind) := behind.number
      let inst ← number
      expectEnd behind context
      return (name, some inst)

def readField (field : String) : Except TokenError String := do
  let (name, behind) := (Cursor.ofString (Text.trimmed field)).identifier
  let name ← name
  expectEnd behind field
  return name

/-- Reads the two parts of a namespaced token, the context first. Blanks around a part do not
count. -/
def MetadataToken.read (raw context field : String) : Except TokenError MetadataToken := do
  let (category, inst) ← readContext context
  let field ← readField field
  return { raw, category, inst, field }

end Placeholders
