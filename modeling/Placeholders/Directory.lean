import Placeholders.Audience
import Placeholders.Store

namespace Placeholders

/-- How a context finds the instance for a token that names none. -/
inductive InstanceRule where
  | viewer
  | course
  /-- What the store maps the context to. -/
  | mapped
  | custom (find : Audience → Store → Asked (Option RecordId))

structure MetadataContext where
  name : String
  level : Level
  rule : InstanceRule

namespace MetadataContext

def user : MetadataContext := ⟨"user", .user, .viewer⟩

def course : MetadataContext := ⟨"course", .course, .course⟩

def mapped (name : String) (level : Level) : MetadataContext := ⟨name, level, .mapped⟩

def findInstance (c : MetadataContext) (a : Audience) (s : Store) : Asked (Option RecordId) :=
  match c.rule with
  | .viewer => ⟨[], .ok a.viewer.id?⟩
  | .course => ⟨[], .ok a.course⟩
  | .mapped =>
    let q := Query.resolveInstance c.name a.course
    ⟨[q], s.ask q⟩
  | .custom find => find a s

end MetadataContext

/-- At most one context of each name. -/
structure Directory where
  contexts : List MetadataContext := []

namespace Directory

def empty : Directory := {}

/-- Adds a context in the place of one of the same name. -/
def register (d : Directory) (c : MetadataContext) : Directory :=
  ⟨c :: d.contexts.filter (·.name ≠ c.name)⟩

def get? (d : Directory) (name : String) : Option MetadataContext :=
  d.contexts.find? (·.name = name)

def builtin : Directory :=
  [.user, .course, .mapped "coursecat" .category, .mapped "module" .activity].foldl register empty

end Directory

end Placeholders
