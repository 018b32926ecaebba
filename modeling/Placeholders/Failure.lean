namespace Placeholders

inductive TokenError where
  | invalidSyntax (detail : String)
  | missingCategory
  deriving DecidableEq, Repr

def TokenError.message : TokenError → String
  | .invalidSyntax detail => "invalid token syntax: " ++ detail
  | .missingCategory => "token has no category"

inductive Failure where
  | parse (detail : String)
  /-- The store could not answer a query. -/
  | dataAccess (detail : String)
  /-- A metadata context has no instance for the current audience. -/
  | missingInstance (context : String)
  | unknownContext (context : String)
  | config (detail : String)
  deriving DecidableEq, Repr

def Failure.message : Failure → String
  | .parse detail => "parse error: " ++ detail
  | .dataAccess detail => "data access failure: " ++ detail
  | .missingInstance context => "no instance for context `" ++ context ++ "`"
  | .unknownContext context => "unknown metadata context `" ++ context ++ "`"
  | .config detail => "invalid configuration: " ++ detail

def TokenError.toFailure (e : TokenError) : Failure := .parse e.message

end Placeholders
