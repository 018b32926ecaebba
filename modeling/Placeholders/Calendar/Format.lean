import Placeholders.Calendar.Pattern
import Placeholders.Failure

namespace Placeholders.Calendar

structure DateFormat where
  pattern : String
  deriving DecidableEq, Repr

namespace DateFormat

def standard : DateFormat := ⟨"%A, %-d %B %Y, %-I:%M %p"⟩

/-- The format of a pattern in which every percent sign starts a specifier. -/
def checked (pattern : String) : Except Failure DateFormat :=
  match items? pattern with
  | some _ => .ok ⟨pattern⟩
  | none => .error (.config ("bad date pattern `" ++ pattern ++ "`"))

def render? (f : DateFormat) (t : Timestamp) : Option String := do
  let moment ← Moment.ofTimestamp? t
  Calendar.render? moment (← items? f.pattern)

/-- A timestamp that has no date, or that the pattern cannot render, is written as a number. -/
def format (f : DateFormat) (t : Timestamp) : String := (f.render? t).getD (toString t.toInt)

end DateFormat

end Placeholders.Calendar
