import Placeholders.Query

namespace Placeholders

/-- Records in the order in which they came. Of two that answer the same question the first counts,
but for enrolments, of which the earliest does. -/
structure Store where
  accounts : List Account := []
  /-- At most one record for a user and a name. -/
  customFields : List CustomField := []
  courses : List Course := []
  roles : List Assignment := []
  groups : List Membership := []
  enrolments : List Enrolment := []
  grades : List FinalGrade := []
  instances : List Mapping := []
  metadata : List MetadataEntry := []
  /-- The kinds of query that fail. -/
  failing : List QueryKind := []

namespace Store

def empty : Store := {}

def addAccount (s : Store) (a : Account) : Store := { s with accounts := s.accounts ++ [a] }

/-- A custom field has one value: a new one takes the place of the old. -/
def setCustomField (s : Store) (f : CustomField) : Store :=
  { s with
    customFields := s.customFields.filter (fun g => g.user ≠ f.user || g.name ≠ f.name) ++ [f] }

def addCourse (s : Store) (c : Course) : Store := { s with courses := s.courses ++ [c] }

def addRole (s : Store) (r : Assignment) : Store := { s with roles := s.roles ++ [r] }

def addGroup (s : Store) (g : Membership) : Store := { s with groups := s.groups ++ [g] }

def addEnrolment (s : Store) (e : Enrolment) : Store := { s with enrolments := s.enrolments ++ [e] }

def addGrade (s : Store) (g : FinalGrade) : Store := { s with grades := s.grades ++ [g] }

def addInstance (s : Store) (m : Mapping) : Store := { s with instances := s.instances ++ [m] }

def addMetadata (s : Store) (m : MetadataEntry) : Store := { s with metadata := s.metadata ++ [m] }

def fail (s : Store) (kind : QueryKind) : Store := { s with failing := kind :: s.failing }

def account? (s : Store) (id : RecordId) : Option Account := s.accounts.find? (·.id = id)

def customFieldsOf (s : Store) (user : RecordId) : List (String × String) :=
  (s.customFields.filter (·.user = user)).map fun f => (f.name, f.value)

def course? (s : Store) (id : RecordId) : Option Course := s.courses.find? (·.id = id)

def rolesOf (s : Store) (user course : RecordId) : List String :=
  (s.roles.filter fun r => r.user = user && r.course = course).map (·.role)

/-- The accounts of those who hold a role, once for each assignment, in the order of the
assignments. Users without an account are passed over. -/
def roleHolders (s : Store) (course : RecordId) (role : String) : List Account :=
  (s.roles.filter fun r => r.course = course && r.role = role).filterMap fun r => s.account? r.user

def membershipsOf (s : Store) (user course : RecordId) : List Membership :=
  s.groups.filter fun g => g.user = user && g.course = course

def groupsOf (s : Store) (user course : RecordId) : List String :=
  (s.membershipsOf user course).map (·.group)

/-- The groupings of a user's groups, each once. -/
def groupingsOf (s : Store) (user course : RecordId) : List String :=
  ((s.membershipsOf user course).filterMap (·.grouping)).eraseDups

def earlier (t : Timestamp) : Option Timestamp → Timestamp
  | none => t
  | some u => if u < t then u else t

def enrolmentDate (s : Store) (user course : RecordId) : Option Timestamp :=
  (s.enrolments.filter fun e => e.user = user && e.course = course).foldl
    (fun best e => some (earlier e.start best)) none

def finalGrade (s : Store) (user course : RecordId) : Option Float :=
  (s.grades.find? fun g => g.user = user && g.course = course).map (·.value)

/-- The instance that a context is mapped to, where a mapping without a course holds anywhere. -/
def resolveInstance (s : Store) (context : String) (course : Option RecordId) : Option RecordId :=
  (s.instances.find? fun m => m.context = context && (m.course.isNone || m.course = course)).map
    (·.inst)

def fieldValue (s : Store) (inst : RecordId) (level : Level) (field : String) : Option String :=
  (s.metadata.find? fun m => m.inst = inst && m.level = level && m.field = field).map (·.value)

def answer (s : Store) : (q : Query) → q.Answer
  | .account id => s.account? id
  | .customFields id => s.customFieldsOf id
  | .course id => s.course? id
  | .rolesOf user course => s.rolesOf user course
  | .roleHolders course role => s.roleHolders course role
  | .groupsOf user course => s.groupsOf user course
  | .groupingsOf user course => s.groupingsOf user course
  | .enrolmentDate user course => s.enrolmentDate user course
  | .finalGrade user course => s.finalGrade user course
  | .resolveInstance context course => s.resolveInstance context course
  | .fieldValue inst level field => s.fieldValue inst level field

def unavailable (kind : QueryKind) : Failure := .dataAccess (kind.name ++ " unavailable")

def fails (s : Store) (kind : QueryKind) : Bool := s.failing.contains kind

def ask (s : Store) (q : Query) : Except Failure q.Answer :=
  if s.fails q.kind then .error (unavailable q.kind) else .ok (s.answer q)

theorem ask_of_fails {s : Store} {q : Query} (h : s.fails q.kind = true) :
    s.ask q = .error (unavailable q.kind) := by
  simp [ask, h]

theorem ask_of_answers {s : Store} {q : Query} (h : s.fails q.kind = false) :
    s.ask q = .ok (s.answer q) := by
  simp [ask, h]

theorem ask_congr {A B : Store} {q : Query} (hf : A.fails q.kind = B.fails q.kind)
    (ha : A.answer q = B.answer q) : A.ask q = B.ask q := by
  rw [ask, ask, hf, ha]

theorem fails_fail (s : Store) (k l : QueryKind) :
    (s.fail k).fails l = (decide (l = k) || s.fails l) := by
  simp [fails, fail]

end Store

end Placeholders
