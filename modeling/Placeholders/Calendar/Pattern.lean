import Placeholders.Calendar.Moment

namespace Placeholders.Calendar

inductive Pad where
  | nothing
  | space
  | zero
  deriving DecidableEq, Repr

inductive NumberField where
  | year
  | isoYear
  | century
  | yearOfCentury
  | isoYearOfCentury
  | month
  | day
  | hour
  | dialHour
  | minute
  | second
  | nanosecond
  | sundayWeek
  | mondayWeek
  | isoWeek
  | dayOfYear
  | quarter
  | weekdayFromMonday
  | weekdayFromSunday
  | timestamp
  deriving DecidableEq, Repr

inductive Item where
  /-- Text that is the same for every moment, as the offset from UTC is too. -/
  | text (s : String)
  | number (field : NumberField) (pad : Pad)
  | weekday (long : Bool)
  | month (long : Bool)
  | half (upper : Bool)
  /-- An offset with its minutes left out where that may be: it can be read, never written. -/
  | shortestOffset
  deriving DecidableEq, Repr

/-- The number that a letter asks for, and how it is filled up unless the pattern says. -/
def numberField? : Char → Option (NumberField × Pad)
  | 'Y' => some (.year, .zero)
  | 'G' => some (.isoYear, .zero)
  | 'C' => some (.century, .zero)
  | 'y' => some (.yearOfCentury, .zero)
  | 'g' => some (.isoYearOfCentury, .zero)
  | 'm' => some (.month, .zero)
  | 'd' => some (.day, .zero)
  | 'e' => some (.day, .space)
  | 'H' => some (.hour, .zero)
  | 'k' => some (.hour, .space)
  | 'I' => some (.dialHour, .zero)
  | 'l' => some (.dialHour, .space)
  | 'M' => some (.minute, .zero)
  | 'S' => some (.second, .zero)
  | 'f' => some (.nanosecond, .zero)
  | 'U' => some (.sundayWeek, .zero)
  | 'W' => some (.mondayWeek, .zero)
  | 'V' => some (.isoWeek, .zero)
  | 'j' => some (.dayOfYear, .zero)
  | 'q' => some (.quarter, .zero)
  | 'u' => some (.weekdayFromMonday, .zero)
  | 'w' => some (.weekdayFromSunday, .zero)
  | 's' => some (.timestamp, .nothing)
  | _ => none

def slashedDate : List Item :=
  [.number .month .zero, .text "/", .number .day .zero, .text "/", .number .yearOfCentury .zero]

def isoDate : List Item :=
  [.number .year .zero, .text "-", .number .month .zero, .text "-", .number .day .zero]

def hourAndMinute : List Item := [.number .hour .zero, .text ":", .number .minute .zero]

def timeOfDay : List Item := hourAndMinute ++ [.text ":", .number .second .zero]

def dialTime : List Item :=
  [.number .dialHour .zero, .text ":", .number .minute .zero, .text ":", .number .second .zero,
    .text " ", .half true]

def dashedDate : List Item :=
  [.number .day .space, .text "-", .month false, .text "-", .number .year .zero]

def dateAndTime : List Item :=
  [.weekday false, .text " ", .month false, .text " ", .number .day .space, .text " "] ++
  timeOfDay ++ [.text " ", .number .year .zero]

def isoDateAndTime : List Item := isoDate ++ [.text "T"] ++ timeOfDay ++ [.text "+00:00"]

def letterItems? (c : Char) : Option (List Item) :=
  match c with
  | 'a' => some [.weekday false]
  | 'A' => some [.weekday true]
  | 'b' => some [.month false]
  | 'h' => some [.month false]
  | 'B' => some [.month true]
  | 'p' => some [.half true]
  | 'P' => some [.half false]
  | 'Z' => some [.text "UTC"]
  | 'z' => some [.text "+0000"]
  | 'n' => some [.text "\n"]
  | 't' => some [.text "\t"]
  | '%' => some [.text "%"]
  | 'D' => some slashedDate
  | 'x' => some slashedDate
  | 'F' => some isoDate
  | 'R' => some hourAndMinute
  | 'T' => some timeOfDay
  | 'X' => some timeOfDay
  | 'r' => some dialTime
  | 'v' => some dashedDate
  | 'c' => some dateAndTime
  | '+' => some isoDateAndTime
  | c => (numberField? c).map fun (field, pad) => [.number field pad]

def pad? : Char → Option Pad
  | '-' => some .nothing
  | '_' => some .space
  | '0' => some .zero
  | _ => none

/-- The items of a specifier of two letters: a number filled up as asked, the fraction of the
second, or an offset. -/
def pairItems? (p c : Char) : Option (List Item) :=
  match pad? p, numberField? c with
  | some pad, some (field, _) => some [.number field pad]
  | _, _ =>
    match p, c with
    | '.', 'f' => some [.text ""]
    | '3', 'f' => some [.text "000"]
    | '6', 'f' => some [.text "000000"]
    | '9', 'f' => some [.text "000000000"]
    | ':', 'z' => some [.text "+00:00"]
    | '#', 'z' => some [.shortestOffset]
    | _, _ => none

def longItems? : List Char → Option (List Item)
  | ['.', '3', 'f'] => some [.text ".000"]
  | ['.', '6', 'f'] => some [.text ".000000"]
  | ['.', '9', 'f'] => some [.text ".000000000"]
  | [':', ':', 'z'] => some [.text "+00:00:00"]
  | [':', ':', ':', 'z'] => some [.text "+00"]
  | _ => none

/-- The specifier that stands behind a percent sign: its length and its items. No specifier is
the beginning of another. -/
def specifier? (cs : List Char) : Option (Nat × List Item) :=
  match cs with
  | [] => none
  | c :: cs =>
    match letterItems? c with
    | some items => some (1, items)
    | none =>
      match cs with
      | [] => none
      | d :: cs =>
        match pairItems? c d with
        | some items => some (2, items)
        | none =>
          match longItems? (c :: d :: cs.take 1) with
          | some items => some (3, items)
          | none => (longItems? (c :: d :: cs.take 2)).map fun items => (4, items)

/-- The items of a pattern whose first `skip` characters belong to a specifier already read. -/
def itemsFrom? : Nat → List Char → Option (List Item)
  | _, [] => some []
  | skip + 1, _ :: cs => itemsFrom? skip cs
  | 0, c :: cs =>
    if c = '%' then do
      let (length, items) ← specifier? cs
      return items ++ (← itemsFrom? length cs)
    else (itemsFrom? 0 cs).map (.text (String.singleton c) :: ·)

def items? (pattern : String) : Option (List Item) := itemsFrom? 0 pattern.toList

def monthNames : List String :=
  ["January", "February", "March", "April", "May", "June", "July", "August", "September",
    "October", "November", "December"]

def weekdayNames : List String :=
  ["Sunday", "Monday", "Tuesday", "Wednesday", "Thursday", "Friday", "Saturday"]

def nameText (long : Bool) (name : String) : String :=
  if long then name else String.ofList (name.toList.take 3)

def NumberField.width : NumberField → Nat
  | .year => 4
  | .isoYear => 4
  | .nanosecond => 9
  | .timestamp => 9
  | .dayOfYear => 3
  | .quarter => 1
  | .weekdayFromMonday => 1
  | .weekdayFromSunday => 1
  | _ => 2

def NumberField.value (m : Moment) : NumberField → Int
  | .year => m.date.year
  | .isoYear => m.isoYear
  | .century => m.date.year / 100
  | .yearOfCentury => m.date.year % 100
  | .isoYearOfCentury => m.isoYear % 100
  | .month => m.date.month
  | .day => m.date.day
  | .hour => m.hour
  | .dialHour => m.dialHour
  | .minute => m.minute
  | .second => m.second
  | .nanosecond => 0
  | .sundayWeek => m.sundayWeek
  | .mondayWeek => m.mondayWeek
  | .isoWeek => m.isoWeek
  | .dayOfYear => m.ordinal
  | .quarter => m.quarter
  | .weekdayFromMonday => m.sinceMonday + 1
  | .weekdayFromSunday => m.weekday
  | .timestamp => m.timestamp.toInt

def fill (c : Char) (n : Nat) : String := String.ofList (List.replicate n c)

/-- A number filled up to a width that counts its sign. Zeros stand behind the sign, spaces
before it. -/
def filled (pad : Pad) (width : Nat) (sign : String) (size : Nat) : String :=
  let digits := toString size
  let missing := width - (sign.length + digits.length)
  match pad with
  | .nothing => sign ++ digits
  | .zero => sign ++ fill '0' missing ++ digits
  | .space => fill ' ' missing ++ sign ++ digits

/-- Years of more than four digits have a sign and years before 0 have one, which makes them
wider by one. -/
def NumberField.text (m : Moment) (field : NumberField) (pad : Pad) : String :=
  let v := field.value m
  let isYear := field = .year || field = .isoYear
  if isYear && (v < 0 || 9999 < v) then
    filled pad (field.width + 1) (if v < 0 then "-" else "+") v.natAbs
  else filled pad field.width (if v < 0 then "-" else "") v.natAbs

def Item.render? (m : Moment) : Item → Option String
  | .text s => some s
  | .number field pad => some (field.text m pad)
  | .weekday long => some (nameText long (weekdayNames.getD m.weekday ""))
  | .month long => some (nameText long (monthNames.getD (m.date.month - 1) ""))
  | .half upper =>
    let name := if m.isAfternoon then "PM" else "AM"
    some (if upper then name else String.ofList (name.toList.map Char.toLower))
  | .shortestOffset => none

def render? (m : Moment) (items : List Item) : Option String :=
  (items.mapM (Item.render? m)).map String.join

end Placeholders.Calendar
