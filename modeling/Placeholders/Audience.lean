import Placeholders.Calendar.Format
import Placeholders.Phrasebook

namespace Placeholders

inductive Viewer where
  | signedIn (id : RecordId)
  | anonymous
  deriving DecidableEq, Repr

def Viewer.id? : Viewer → Option RecordId
  | .signedIn id => some id
  | .anonymous => none

/-- For whom and where a text is shown. An audience never changes while a text is filled in. -/
structure Audience where
  viewer : Viewer
  course : Option RecordId
  /-- The phrase for a key, looked up under a component. -/
  phrase : String → String → String
  dateText : Timestamp → String

def Audience.english (viewer : Viewer) (course : Option RecordId) : Audience :=
  { viewer, course
    phrase := Phrasebook.standard.phrase
    dateText := Calendar.DateFormat.standard.format }

end Placeholders
