import Placeholders.Record

namespace Placeholders

/-- A fact about the viewer's account. -/
inductive AccountField where
  | id
  | username
  | idNumber
  | email
  | firstName
  | lastName
  | fullName
  | phone1
  | phone2
  | address
  | city
  | country
  | lastLogin
  | picture
  deriving DecidableEq, Repr

/-- A fact about the current course. -/
inductive CourseField where
  | id
  | fullName
  | shortName
  | idNumber
  | summary
  | startDate
  deriving DecidableEq, Repr

/-- A fact about the viewer inside the current course. -/
inductive MemberField where
  | role
  | enrolDate
  | grade
  | group
  | grouping
  deriving DecidableEq, Repr

/-- A role whose holders can be named. -/
inductive Role where
  | manager
  | courseCreator
  | editingTeacher
  | teacher
  deriving DecidableEq, Repr

/-- What a text may say of the holders of a role. -/
inductive HolderField where
  | email
  | fullName
  deriving DecidableEq, Repr

/-- Where each word is read back, a word finds a row exactly when it is the row's own. -/
theorem find?_word_eq_some_iff {α : Type} {rows : List α} {word : α → String}
    (found : ∀ x, rows.find? (word · = word x) = some x) {s : String} {x : α} :
    rows.find? (word · = s) = some x ↔ s = word x := by
  constructor
  · intro h
    have hx := List.find?_some h
    exact (of_decide_eq_true hx).symm
  · rintro rfl
    exact found x

namespace AccountField

def all : List AccountField :=
  [.id, .username, .idNumber, .email, .firstName, .lastName, .fullName, .phone1, .phone2,
    .address, .city, .country, .lastLogin, .picture]

def segment : AccountField → String
  | .id => "ID"
  | .username => "USERNAME"
  | .idNumber => "IDNUMBER"
  | .email => "EMAIL"
  | .firstName => "FIRSTNAME"
  | .lastName => "LASTNAME"
  | .fullName => "FULLNAME"
  | .phone1 => "PHONE1"
  | .phone2 => "PHONE2"
  | .address => "ADDRESS"
  | .city => "CITY"
  | .country => "COUNTRY"
  | .lastLogin => "LASTLOGIN"
  | .picture => "PICTURE"

/-- The word for the field in lookup keys. -/
def key : AccountField → String
  | .id => "id"
  | .username => "username"
  | .idNumber => "idnumber"
  | .email => "email"
  | .firstName => "firstname"
  | .lastName => "lastname"
  | .fullName => "fullname"
  | .phone1 => "phone1"
  | .phone2 => "phone2"
  | .address => "address"
  | .city => "city"
  | .country => "country"
  | .lastLogin => "lastlogin"
  | .picture => "picture"

def ofSegment? (s : String) : Option AccountField := all.find? (·.segment = s)

theorem ofSegment?_eq_some_iff {s : String} {f : AccountField} :
    ofSegment? s = some f ↔ s = f.segment :=
  find?_word_eq_some_iff (by intro f; cases f <;> rfl)

end AccountField

namespace CourseField

def all : List CourseField := [.id, .fullName, .shortName, .idNumber, .summary, .startDate]

def segment : CourseField → String
  | .id => "ID"
  | .fullName => "FULLNAME"
  | .shortName => "SHORTNAME"
  | .idNumber => "IDNUMBER"
  | .summary => "SUMMARY"
  | .startDate => "STARTDATE"

def key : CourseField → String
  | .id => "id"
  | .fullName => "fullname"
  | .shortName => "shortname"
  | .idNumber => "idnumber"
  | .summary => "summary"
  | .startDate => "startdate"

def ofSegment? (s : String) : Option CourseField := all.find? (·.segment = s)

theorem ofSegment?_eq_some_iff {s : String} {f : CourseField} :
    ofSegment? s = some f ↔ s = f.segment :=
  find?_word_eq_some_iff (by intro f; cases f <;> rfl)

end CourseField

namespace MemberField

def all : List MemberField := [.role, .enrolDate, .grade, .group, .grouping]

def segment : MemberField → String
  | .role => "ROLE"
  | .enrolDate => "ENROLDATE"
  | .grade => "GRADE"
  | .group => "GROUP"
  | .grouping => "GROUPING"

def key : MemberField → String
  | .role => "role"
  | .enrolDate => "enroldate"
  | .grade => "grade"
  | .group => "group"
  | .grouping => "grouping"

def ofSegment? (s : String) : Option MemberField := all.find? (·.segment = s)

theorem ofSegment?_eq_some_iff {s : String} {f : MemberField} :
    ofSegment? s = some f ↔ s = f.segment :=
  find?_word_eq_some_iff (by intro f; cases f <;> rfl)

end MemberField

namespace Role

def all : List Role := [.manager, .courseCreator, .editingTeacher, .teacher]

def segment : Role → String
  | .manager => "MANAGER"
  | .courseCreator => "COURSECREATOR"
  | .editingTeacher => "EDITINGTEACHER"
  | .teacher => "TEACHER"

/-- The name that role assignments call the role by. -/
def name : Role → String
  | .manager => "manager"
  | .courseCreator => "coursecreator"
  | .editingTeacher => "editingteacher"
  | .teacher => "teacher"

def ofSegment? (s : String) : Option Role := all.find? (·.segment = s)

theorem ofSegment?_eq_some_iff {s : String} {f : Role} :
    ofSegment? s = some f ↔ s = f.segment :=
  find?_word_eq_some_iff (by intro f; cases f <;> rfl)

end Role

namespace HolderField

def all : List HolderField := [.email, .fullName]

def segment : HolderField → String
  | .email => "EMAIL"
  | .fullName => "FULLNAME"

def key : HolderField → String
  | .email => "email"
  | .fullName => "fullname"

def ofSegment? (s : String) : Option HolderField := all.find? (·.segment = s)

theorem ofSegment?_eq_some_iff {s : String} {f : HolderField} :
    ofSegment? s = some f ↔ s = f.segment :=
  find?_word_eq_some_iff (by intro f; cases f <;> rfl)

def valueOf (a : Account) : HolderField → String
  | .email => a.email
  | .fullName => a.fullName

end HolderField

/-- The value of a field of an account, dates written by `dateText` and `-` for no login. -/
def AccountField.valueOf (dateText : Timestamp → String) (a : Account) : AccountField → String
  | .id => toString a.id
  | .username => a.username
  | .idNumber => a.idNumber
  | .email => a.email
  | .firstName => a.firstName
  | .lastName => a.lastName
  | .fullName => a.fullName
  | .phone1 => a.phone1
  | .phone2 => a.phone2
  | .address => a.address
  | .city => a.city
  | .country => a.country
  | .lastLogin => (a.lastLogin.map dateText).getD "-"
  | .picture => a.picture

/-- The value of a field of a course, dates written by `dateText`. -/
def CourseField.valueOf (dateText : Timestamp → String) (c : Course) : CourseField → String
  | .id => toString c.id
  | .fullName => c.fullName
  | .shortName => c.shortName
  | .idNumber => c.idNumber
  | .summary => c.summary
  | .startDate => dateText c.startDate

end Placeholders
