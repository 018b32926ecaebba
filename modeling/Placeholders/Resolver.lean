import Placeholders.Mark
import Placeholders.Plan
import Placeholders.Token

namespace Placeholders

inductive Resolution where
  | resolved (value : String)
  | unresolved
  | placeholder (phrase : String)
  deriving DecidableEq, Repr

def Failure.phraseKey : Failure → String
  | .parse _ => "novalue"
  | .missingInstance _ => "noinstance"
  | .unknownContext _ => "unknowncontext"
  | .dataAccess _ => "lookuperror"
  | .config _ => "lookuperror"

/-- All that the resolution of tokens depends on, the memo apart. -/
structure Resolver where
  store : Store
  audience : Audience
  config : Config := .standard
  directory : Directory := .builtin

namespace Resolver

def phrase (r : Resolver) (key : String) : String := r.audience.phrase key r.config.component

def failed (r : Resolver) (e : Failure) : Resolution := .placeholder (r.phrase e.phraseKey)

/-- A simple token without a value stays as it is; an empty value is one. -/
def simpleResolution (r : Resolver) : Except Failure (Option String) → Resolution
  | .ok (some value) => .resolved value
  | .ok none => .unresolved
  | .error e => r.failed e

/-- A metadata token without a value, or with an empty one, becomes a phrase. -/
def metadataResolution (r : Resolver) : Except Failure (Option String) → Resolution
  | .ok (some value) => if value = "" then .placeholder (r.phrase "novalue") else .resolved value
  | .ok none => .placeholder (r.phrase "novalue")
  | .error e => r.failed e

def plan (r : Resolver) (segments : List String) : Plan :=
  (Request.ofSegments segments).plan r.audience r.config

def resolveSegments (r : Resolver) (m : Memo LookupKey) (segments : List String) :
    Step Resolution :=
  match r.plan segments with
  | .settled text => ⟨r.simpleResolution (.ok text), [], m⟩
  | .lookup l =>
    let step := l.run r.store m
    ⟨r.simpleResolution step.result, step.queries, step.memo⟩

/-- The instance that a token means in a context: its own, or else the context's. -/
def instanceOf (r : Resolver) (t : MetadataToken) (c : MetadataContext) : Asked RecordId :=
  match t.inst with
  | some id => ⟨[], .ok id⟩
  | none =>
    let found := c.findInstance r.audience r.store
    ⟨found.queries, found.outcome.bind fun
      | some id => .ok id
      | none => .error (.missingInstance t.category)⟩

/-- Where the value of a metadata token is looked up. Finding the instance may take a query of
its own, which is put each time. -/
def metadataLookup (r : Resolver) (t : MetadataToken) : Asked Lookup :=
  match r.directory.get? t.category with
  | none => ⟨[], .error (.unknownContext t.category)⟩
  | some c =>
    let inst := r.instanceOf t c
    ⟨inst.queries, inst.outcome.map fun id => .metadata c id t.field⟩

def resolveMetadata (r : Resolver) (m : Memo LookupKey) (t : MetadataToken) : Step Resolution :=
  let found := r.metadataLookup t
  match found.outcome with
  | .error e => ⟨r.failed e, found.queries, m⟩
  | .ok l =>
    let step := l.run r.store m
    ⟨r.metadataResolution step.result, found.queries ++ step.queries, step.memo⟩

/-- Reads and resolves a mark. One that cannot be read stays as it is in the simple grammar and
becomes a phrase in the namespaced one. -/
def resolveMark (r : Resolver) (m : Memo LookupKey) (mark : Mark) : Step Resolution :=
  match mark with
  | .simple body =>
    match SimpleToken.read mark.text body with
    | .ok token => r.resolveSegments m token.segments
    | .error _ => ⟨.unresolved, [], m⟩
  | .namespaced context field =>
    match MetadataToken.read mark.text context field with
    | .ok token => r.resolveMetadata m token
    | .error e => ⟨r.failed e.toFailure, [], m⟩

end Resolver

end Placeholders
