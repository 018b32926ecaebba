import Placeholders.Record
import Placeholders.Failure

namespace Placeholders

/-- The kinds of query. A store fails or counts all queries of a kind alike. -/
inductive QueryKind where
  | account
  | customFields
  | course
  | rolesOf
  | roleHolders
  | groupsOf
  | groupingsOf
  | enrolmentDate
  | finalGrade
  | resolveInstance
  | fieldValue
  deriving DecidableEq, Repr

def QueryKind.name : QueryKind → String
  | .account => "profile"
  | .customFields => "custom_fields"
  | .course => "scope"
  | .rolesOf => "roles_of"
  | .roleHolders => "role_holders"
  | .groupsOf => "groups_of"
  | .groupingsOf => "groupings_of"
  | .enrolmentDate => "enrolment_date"
  | .finalGrade => "final_grade"
  | .resolveInstance => "resolve_instance"
  | .fieldValue => "field_value"

def QueryKind.all : List QueryKind :=
  [.account, .customFields, .course, .rolesOf, .roleHolders, .groupsOf, .groupingsOf,
    .enrolmentDate, .finalGrade, .resolveInstance, .fieldValue]

def QueryKind.ofName? (name : String) : Option QueryKind := QueryKind.all.find? (·.name = name)

inductive Query where
  | account (id : RecordId)
  | customFields (id : RecordId)
  | course (id : RecordId)
  | rolesOf (user course : RecordId)
  | roleHolders (course : RecordId) (role : String)
  | groupsOf (user course : RecordId)
  | groupingsOf (user course : RecordId)
  | enrolmentDate (user course : RecordId)
  | finalGrade (user course : RecordId)
  | resolveInstance (context : String) (course : Option RecordId)
  | fieldValue (inst : RecordId) (level : Level) (field : String)
  deriving DecidableEq, Repr

def Query.kind : Query → QueryKind
  | .account _ => .account
  | .customFields _ => .customFields
  | .course _ => .course
  | .rolesOf _ _ => .rolesOf
  | .roleHolders _ _ => .roleHolders
  | .groupsOf _ _ => .groupsOf
  | .groupingsOf _ _ => .groupingsOf
  | .enrolmentDate _ _ => .enrolmentDate
  | .finalGrade _ _ => .finalGrade
  | .resolveInstance _ _ => .resolveInstance
  | .fieldValue _ _ _ => .fieldValue

@[reducible]
def Query.Answer : Query → Type
  | .account _ => Option Account
  | .customFields _ => List (String × String)
  | .course _ => Option Course
  | .rolesOf _ _ => List String
  | .roleHolders _ _ => List Account
  | .groupsOf _ _ => List String
  | .groupingsOf _ _ => List String
  | .enrolmentDate _ _ => Option Timestamp
  | .finalGrade _ _ => Option Float
  | .resolveInstance _ _ => Option RecordId
  | .fieldValue _ _ _ => Option String

theorem QueryKind.ofName?_name (k : QueryKind) : QueryKind.ofName? k.name = some k := by
  cases k <;> rfl

/-- How often queries of a kind were put. -/
def callsOf (kind : QueryKind) (asked : List Query) : Nat :=
  asked.countP (·.kind = kind)

/-- An outcome with the queries that were put on the way to it, in order. -/
structure Asked (α : Type) where
  queries : List Query
  outcome : Except Failure α

end Placeholders
