import Placeholders.Failure

namespace Placeholders

inductive Grammar where
  | simple
  | namespaced
  deriving DecidableEq, Repr

/-- Grammars are named without regard to ASCII case, and `metadata` is another name of the
namespaced one. -/
def Grammar.ofName (name : String) : Except Failure Grammar :=
  let lowered := String.ofList (name.toList.map Char.toLower)
  if lowered = "simple" then .ok .simple
  else if lowered = "namespaced" || lowered = "metadata" then .ok .namespaced
  else .error (.config ("unknown grammar `" ++ lowered ++ "`"))

end Placeholders
