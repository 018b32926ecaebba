import Placeholders.Source

namespace Placeholders

abbrev Steps := List (List Char)

def stepsOf (path : String) : Steps := path.toList.splitOn '/'

def staysHere (step : List Char) : Bool := step = [] || step = ['.']

/-- Text files, each under the names that lead to it. A path may take detours, but everything that
it goes through has to be a folder, and nothing outside is known. -/
structure Folder where
  files : List (Steps × String) := []
  deriving Repr

namespace Folder

def ofFiles (files : List (String × String)) : Folder :=
  ⟨files.map fun (name, text) => ((stepsOf name).filter (! staysHere ·), text)⟩

/-- Whether a place is a folder: the folder itself, or one on the way to a file. -/
def isFolder (f : Folder) (place : Steps) : Bool :=
  place.isEmpty || f.files.any fun file => place.isPrefixOf file.1 && place ≠ file.1

/-- Where the steps lead from a place. Each starts in a folder and none leaves the outermost. -/
def walk? (f : Folder) : Steps → Steps → Option Steps
  | place, [] => some place
  | place, step :: steps =>
    if !f.isFolder place then none
    else if staysHere step then f.walk? place steps
    else if step = ['.', '.'] then
      if place.isEmpty then none else f.walk? place.dropLast steps
    else f.walk? (place ++ [step]) steps

def textAt? (f : Folder) (place : Steps) : Option String :=
  if f.isFolder place then none else f.files.lookup place

def read? (f : Folder) (path : String) : Option String :=
  if path.startsWith "/" then none else (f.walk? [] (stepsOf path)).bind f.textAt?

/-- The folder to run the program in, with a text as its input. -/
def source (f : Folder) (input : String) : Source Id :=
  { file := fun path => match f.read? path with
      | some text => Except.ok text
      | none => Except.error "no such file"
    input := Except.ok input }

end Folder

end Placeholders
