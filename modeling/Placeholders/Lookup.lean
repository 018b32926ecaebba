import Placeholders.Config
import Placeholders.Directory
import Placeholders.Memo
import Placeholders.Request
import Placeholders.Text.Fixed

namespace Placeholders

/-- What a lookup is about: a field, and the account, course or instance that it belongs to. -/
inductive Subject where
  | account (field : AccountField) (viewer : RecordId)
  | customField (name : String) (viewer : RecordId)
  | course (field : CourseField) (course : RecordId)
  | member (field : MemberField) (viewer : RecordId)
  | holders (role : Role) (field : HolderField) (course : RecordId)
  | metadata (context field : String) (inst : RecordId)
  deriving DecidableEq, Repr

structure LookupKey where
  /-- The kind of field, with the role or the metadata context where there is one. -/
  family : String
  field : String
  inst : RecordId
  deriving DecidableEq, Repr

def Subject.key : Subject → LookupKey
  | .account field viewer => ⟨"user", field.key, viewer⟩
  | .customField name viewer => ⟨"user_field", name, viewer⟩
  | .course field id => ⟨"course", field.key, id⟩
  | .member field viewer => ⟨"course_user", field.key, viewer⟩
  | .holders role field id => ⟨"role:" ++ role.name, field.key, id⟩
  | .metadata context field inst => ⟨"metadata:" ++ context, field, inst⟩

/-- A query, and the text made of its answer, which is none where the answer has no value. -/
structure Lookup where
  subject : Subject
  query : Query
  text : query.Answer → Option String

/-- A result, the queries that were put for it, and the memo after it. -/
structure Step (α : Type) where
  result : α
  queries : List Query
  memo : Memo LookupKey

namespace Lookup

def key (l : Lookup) : LookupKey := l.subject.key

/-- The text as the store has it, without a memo. -/
def outcome (l : Lookup) (s : Store) : Except Failure (Option String) := (s.ask l.query).map l.text

theorem outcome_congr_of_answer {l : Lookup} {A B : Store}
    (hf : A.fails l.query.kind = B.fails l.query.kind)
    (ht : l.text (A.answer l.query) = l.text (B.answer l.query)) : l.outcome A = l.outcome B := by
  unfold outcome Store.ask
  rw [hf]
  split
  · rfl
  · exact congrArg Except.ok ht

/-- Looks into the memo first; only then the query is put. -/
def run (l : Lookup) (s : Store) (m : Memo LookupKey) : Step (Except Failure (Option String)) :=
  let fetched := m.fetch l.key fun _ => l.outcome s
  ⟨fetched.outcome, if fetched.computed then [l.query] else [], fetched.memo⟩

theorem run_of_get? {l : Lookup} {m : Memo LookupKey} {v : String} (h : m.get? l.key = some v)
    (s : Store) : l.run s m = ⟨.ok (some v), [], m⟩ := by
  simp [run, Memo.fetch_of_get? h]

theorem run_of_not_held {l : Lookup} {m : Memo LookupKey} (h : m.get? l.key = none) (s : Store) :
    l.run s m = ⟨l.outcome s, [l.query], m.keep l.key (l.outcome s)⟩ := by
  simp [run, Memo.fetch_of_not_held h]

theorem run_queries (l : Lookup) (s : Store) (m : Memo LookupKey) :
    (l.run s m).queries = if (m.get? l.key).isSome then [] else [l.query] := by
  cases h : m.get? l.key with
  | some v => simp [run_of_get? h]
  | none => simp [run_of_not_held h]

/-- A lookup changes what is held under its own key only, and only where nothing was. -/
theorem get?_run_memo (l : Lookup) (s : Store) (m : Memo LookupKey) (k : LookupKey) :
    (l.run s m).memo.get? k =
      (m.get? k).or (if l.key = k then Memo.kept (l.outcome s) else none) :=
  m.get?_fetch l.key (fun _ => l.outcome s) k

theorem keys_run_nodup (l : Lookup) (s : Store) {m : Memo LookupKey} (hm : m.keys.Nodup) :
    (l.run s m).memo.keys.Nodup :=
  Memo.keys_fetch_nodup hm l.key _

end Lookup

def dash : String := "-"

/-- The distinct values in the order of their first occurrence, joined, or a dash if that is
empty. -/
def listed (separator : String) (values : List String) : String :=
  let joined := String.intercalate separator values.eraseDups
  if joined = "" then dash else joined

def gradeText (a : Audience) (c : Config) : Option Float → String
  | some grade => Text.twoPlaces grade.toBits
  | none => a.phrase "nograde" c.component

namespace Lookup

def account (a : Audience) (viewer : RecordId) (field : AccountField) : Lookup :=
  { subject := .account field viewer
    query := .account viewer
    text := fun (found : Option Account) => found.map (field.valueOf a.dateText) }

def customField (viewer : RecordId) (name : String) : Lookup :=
  { subject := .customField name viewer
    query := .customFields viewer
    text := fun (fields : List (String × String)) => fields.lookup name }

def course (a : Audience) (course : RecordId) (field : CourseField) : Lookup :=
  { subject := .course field course
    query := .course course
    text := fun (found : Option Course) => found.map (field.valueOf a.dateText) }

def member (a : Audience) (c : Config) (viewer course : RecordId) (field : MemberField) : Lookup :=
  let subject := Subject.member field viewer
  match field with
  | .role =>
    { subject
      query := .rolesOf viewer course
      text := fun (roles : List String) => some (listed c.listSeparator roles) }
  | .group =>
    { subject
      query := .groupsOf viewer course
      text := fun (groups : List String) => some (listed c.listSeparator groups) }
  | .grouping =>
    { subject
      query := .groupingsOf viewer course
      text := fun (groupings : List String) => some (listed c.listSeparator groupings) }
  | .enrolDate =>
    { subject
      query := .enrolmentDate viewer course
      text := fun (date : Option Timestamp) => date.map a.dateText }
  | .grade =>
    { subject
      query := .finalGrade viewer course
      text := fun (grade : Option Float) => some (gradeText a c grade) }

/-- The holders of a role in a course. Those for whom the field is empty are left out. -/
def holders (c : Config) (course : RecordId) (role : Role) (field : HolderField) : Lookup :=
  { subject := .holders role field course
    query := .roleHolders course role.name
    text := fun (found : List Account) =>
      some (listed c.listSeparator ((found.map field.valueOf).filter (· ≠ ""))) }

def metadata (context : MetadataContext) (inst : RecordId) (field : String) : Lookup :=
  { subject := .metadata context.name field inst
    query := .fieldValue inst context.level field
    text := fun (value : Option String) => value }

end Lookup

end Placeholders
