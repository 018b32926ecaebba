import Placeholders.Json.Decode
import Placeholders.Store

namespace Placeholders

open Json

def Account.ofJson? (j : Json) : Option Account := do
  let fields ← j.fields? ["id", "username", "idnumber", "email", "firstname", "lastname",
    "phone1", "phone2", "address", "city", "country", "lastlogin", "picture"]
  let text := fun name => fields.getD? name text? ""
  return {
    id := ← fields.getD? "id" word? 0
    username := ← text "username"
    idNumber := ← text "idnumber"
    email := ← text "email"
    firstName := ← text "firstname"
    lastName := ← text "lastname"
    phone1 := ← text "phone1"
    phone2 := ← text "phone2"
    address := ← text "address"
    city := ← text "city"
    country := ← text "country"
    lastLogin := ← fields.getD? "lastlogin" (nullable? signedWord?) none
    picture := ← text "picture" }

def Course.ofJson? (j : Json) : Option Course := do
  let fields ← j.fields? ["id", "fullname", "shortname", "idnumber", "summary", "startdate"]
  let text := fun name => fields.getD? name text? ""
  return {
    id := ← fields.getD? "id" word? 0
    fullName := ← text "fullname"
    shortName := ← text "shortname"
    idNumber := ← text "idnumber"
    summary := ← text "summary"
    startDate := ← fields.getD? "startdate" signedWord? 0 }

def Level.ofJson? (j : Json) : Option Level := j.name?.bind Level.ofName?

/-- A user number as a key: the digits as such, without escapes. -/
def userKey? (literal : List Char) : Option RecordId :=
  (Number.ofSpelling? literal).bind fun n => word? (.number n)

/-- The custom fields of the users. Where a user or a field is repeated the last counts. -/
def customFields? : Json → Option (List CustomField)
  | .object members => do
    let users ← members.mapM fun (key, fields) => do
      return (← userKey? key, ← fields.members?)
    users.foldlM (fun (read : List CustomField) (user, fields) => do
      let values ← fields.mapM fun (name, value) => do
        return ({ user, name, value := ← value.text? } : CustomField)
      let others := { Store.empty with customFields := read.filter (·.user ≠ user) }
      return (values.foldl Store.setCustomField others).customFields) []
  | _ => none

def Assignment.ofJson? (j : Json) : Option Assignment := do
  let fields ← j.fields? ["user", "scope", "role"]
  return {
    user := ← fields.required? "user" word?
    course := ← fields.required? "scope" word?
    role := ← fields.required? "role" text? }

def Membership.ofJson? (j : Json) : Option Membership := do
  let fields ← j.fields? ["user", "scope", "group", "grouping"]
  return {
    user := ← fields.required? "user" word?
    course := ← fields.required? "scope" word?
    group := ← fields.required? "group" text?
    grouping := ← fields.getD? "grouping" (nullable? text?) none }

def Enrolment.ofJson? (j : Json) : Option Enrolment := do
  let fields ← j.fields? ["user", "scope", "timestart"]
  return {
    user := ← fields.required? "user" word?
    course := ← fields.required? "scope" word?
    start := ← fields.required? "timestart" signedWord? }

def FinalGrade.ofJson? (j : Json) : Option FinalGrade := do
  let fields ← j.fields? ["user", "scope", "value"]
  return {
    user := ← fields.required? "user" word?
    course := ← fields.required? "scope" word?
    value := ← fields.required? "value" float? }

def Mapping.ofJson? (j : Json) : Option Mapping := do
  let fields ← j.fields? ["category", "scope", "instance"]
  return {
    context := ← fields.required? "category" text?
    course := ← fields.getD? "scope" (nullable? word?) none
    inst := ← fields.required? "instance" word? }

def MetadataEntry.ofJson? (j : Json) : Option MetadataEntry := do
  let fields ← j.fields? ["instance", "level", "field", "value"]
  return {
    inst := ← fields.required? "instance" word?
    level := ← fields.required? "level" Level.ofJson?
    field := ← fields.required? "field" text?
    value := ← fields.required? "value" text? }

def Store.ofJson? (j : Json) : Option Store := do
  let fields ← j.fields? ["profiles", "custom_fields", "scopes", "roles", "groups", "enrolments",
    "grades", "instances", "metadata"]
  return {
    accounts := ← fields.getD? "profiles" (list? Account.ofJson?) []
    customFields := ← fields.getD? "custom_fields" customFields? []
    courses := ← fields.getD? "scopes" (list? Course.ofJson?) []
    roles := ← fields.getD? "roles" (list? Assignment.ofJson?) []
    groups := ← fields.getD? "groups" (list? Membership.ofJson?) []
    enrolments := ← fields.getD? "enrolments" (list? Enrolment.ofJson?) []
    grades := ← fields.getD? "grades" (list? FinalGrade.ofJson?) []
    instances := ← fields.getD? "instances" (list? Mapping.ofJson?) []
    metadata := ← fields.getD? "metadata" (list? MetadataEntry.ofJson?) [] }

/-- The store that a text describes. Every part of a store may be left out, and every field of an
account or a course; other records have to be complete. -/
def Store.ofText? (text : String) : Option Store := (Json.read? text).bind Store.ofJson?

end Placeholders
