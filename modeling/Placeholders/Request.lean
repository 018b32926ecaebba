import Placeholders.Field

namespace Placeholders

inductive Request where
  | account (field : AccountField)
  | customField (name : String)
  | course (field : CourseField)
  | member (field : MemberField)
  | holders (role : Role) (field : HolderField)
  | unknown
  deriving DecidableEq, Repr

namespace Request

/-- A custom field is named by all that follows the first two segments, underscores included. -/
def ofCustomName (segments : List String) : Request :=
  let name := String.intercalate "_" segments
  if name = "" then unknown else customField name

def ofHolders (role field : String) : Request :=
  match Role.ofSegment? role, HolderField.ofSegment? field with
  | some role, some field => holders role field
  | _, _ => unknown

/-- Reads segments by their number and the words they start with. What `COURSE` is followed by
is a field of the course before it is a role, and the viewer before it is a role. -/
def ofSegments (segments : List String) : Request :=
  match segments with
  | "USER" :: "FIELD" :: name => ofCustomName name
  | ["USER", field] => (AccountField.ofSegment? field).elim unknown account
  | ["COURSE", "USER", field] => (MemberField.ofSegment? field).elim unknown member
  | ["COURSE", field] => (CourseField.ofSegment? field).elim unknown course
  | ["COURSE", role, field] => ofHolders role field
  | [role, field] => ofHolders role field
  | _ => unknown

end Request

end Placeholders
