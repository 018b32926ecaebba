import Placeholders.Lookup

namespace Placeholders

/-- The text is settled without a query, perhaps by there being none, or it is looked up. What a
viewer who is signed in and an anonymous one get to see is decided here. -/
inductive Plan where
  | settled (text : Option String)
  | lookup (l : Lookup)

def Plan.inCourse (a : Audience) (lookup : RecordId → Lookup) : Plan :=
  match a.course with
  | none => .settled none
  | some course => .lookup (lookup course)

namespace Request

def planSignedIn (a : Audience) (c : Config) (viewer : RecordId) : Request → Plan
  | .account field => .lookup (.account a viewer field)
  | .customField name => .lookup (.customField viewer name)
  | .course field => .inCourse a fun course => .course a course field
  | .member field => .inCourse a fun course => .member a c viewer course field
  | .holders role field => .inCourse a fun course => .holders c course role field
  | .unknown => .settled none

/-- What an anonymous viewer sees in place of a field of an account. -/
def guestText (a : Audience) (c : Config) : AccountField → String
  | .firstName => a.phrase "guest" c.component
  | .fullName => a.phrase "guest" c.component
  | .username => a.phrase "guest" c.component
  | .lastName => ""
  | _ => dash

/-- Guests see courses and the names of teachers, and nothing that identifies an account. -/
def planAnonymous (a : Audience) (c : Config) : Request → Plan
  | .account field => .settled (some (guestText a c field))
  | .customField _ => .settled (some dash)
  | .course field => .inCourse a fun course => .course a course field
  | .member _ => .settled (some dash)
  | .holders _ .email => .settled (some dash)
  | .holders role .fullName => .inCourse a fun course => .holders c course role .fullName
  | .unknown => .settled none

def plan (a : Audience) (c : Config) (q : Request) : Plan :=
  match a.viewer with
  | .signedIn viewer => q.planSignedIn a c viewer
  | .anonymous => q.planAnonymous a c

end Request

end Placeholders
