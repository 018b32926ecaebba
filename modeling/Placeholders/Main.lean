import Placeholders.CommandLine

namespace Placeholders

/-- What an action reads, or the reason why it cannot. -/
def attempt (action : IO String) : IO (Except String String) := do
  try
    return .ok (← action)
  catch e =>
    return .error (toString e)

def processSource : Source IO where
  file path := attempt (IO.FS.readFile path)
  input := attempt do (← IO.getStdin).readToEnd

end Placeholders

open Placeholders in
def main (args : List String) : IO UInt32 := do
  let outcome ← runCommand processSource args
  match outcome with
  | .printed text =>
    let out ← IO.getStdout
    out.putStr text
    out.flush
  | .complained c => IO.eprintln c.line
  | .misused => IO.eprintln Arguments.usage
  return outcome.exitCode
