import Placeholders.Text.Blank

namespace Placeholders

/-- The number of an account, a course or a metadata instance. -/
abbrev RecordId := UInt64

/-- Seconds since the start of 1970, UTC. -/
abbrev Timestamp := Int64

structure Account where
  id : RecordId := 0
  username : String := ""
  idNumber : String := ""
  email : String := ""
  firstName : String := ""
  lastName : String := ""
  phone1 : String := ""
  phone2 : String := ""
  address : String := ""
  city : String := ""
  country : String := ""
  /-- Missing for an account that never logged in. -/
  lastLogin : Option Timestamp := none
  picture : String := ""
  deriving DecidableEq, Repr, Inhabited

/-- First and last name with a space between them, and none around them where one is blank. -/
def Account.fullName (p : Account) : String := Text.trimmed (p.firstName ++ " " ++ p.lastName)

/-- The course, or any other subject, that a text is shown within. -/
structure Course where
  id : RecordId := 0
  fullName : String := ""
  shortName : String := ""
  idNumber : String := ""
  summary : String := ""
  startDate : Timestamp := 0
  deriving DecidableEq, Repr, Inhabited

inductive Level where
  | user
  | category
  | course
  | activity
  deriving DecidableEq, Repr

def Level.code : Level → Nat
  | .user => 30
  | .category => 40
  | .course => 50
  | .activity => 70

def Level.name : Level → String
  | .user => "user"
  | .category => "coursecat"
  | .course => "course"
  | .activity => "module"

def Level.all : List Level := [.user, .category, .course, .activity]

def Level.ofName? (name : String) : Option Level := Level.all.find? (·.name = name)

structure CustomField where
  user : RecordId
  name : String
  value : String
  deriving DecidableEq, Repr

structure Assignment where
  user : RecordId
  course : RecordId
  role : String
  deriving DecidableEq, Repr

structure Membership where
  user : RecordId
  course : RecordId
  group : String
  grouping : Option String
  deriving DecidableEq, Repr

structure Enrolment where
  user : RecordId
  course : RecordId
  start : Timestamp
  deriving DecidableEq, Repr

structure FinalGrade where
  user : RecordId
  course : RecordId
  value : Float

/-- The instance of a metadata context within one course, or within any if no course is named. -/
structure Mapping where
  context : String
  course : Option RecordId
  inst : RecordId
  deriving DecidableEq, Repr

structure MetadataEntry where
  inst : RecordId
  level : Level
  field : String
  value : String
  deriving DecidableEq, Repr

end Placeholders
