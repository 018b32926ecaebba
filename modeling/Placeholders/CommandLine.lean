import Placeholders.Arguments
import Placeholders.Fixture
import Placeholders.Session
import Placeholders.Source

namespace Placeholders

inductive Complaint where
  | unreadableFile (path reason : String)
  | unreadableInput (reason : String)
  | invalidFixture
  | invalidConfig
  deriving DecidableEq, Repr

def Complaint.line : Complaint → String
  | .unreadableFile path reason => "Cannot read " ++ path ++ ": " ++ reason
  | .unreadableInput reason => "Cannot read stdin: " ++ reason
  | .invalidFixture => "Invalid fixture: not a store of records"
  | .invalidConfig => "Invalid config: not a set of settings"

inductive Outcome where
  | printed (text : String)
  | complained (c : Complaint)
  | misused
  deriving DecidableEq, Repr

def Outcome.exitCode : Outcome → UInt32
  | .printed _ => 0
  | .complained _ => 1
  | .misused => 2

namespace Arguments

/-- Without a viewer the text is shown to an anonymous one. -/
def audience (a : Arguments) : Audience :=
  .english ((a.viewer.map Viewer.signedIn).getD .anonymous) a.course

/-- The settings of a file, with the grammar of the arguments if they name one. -/
def settings (a : Arguments) (c : Config) : Config := (a.grammar.map c.withGrammar).getD c

section
variable {m : Type → Type} [Monad m]

def load {α : Type} (source : Source m) (path : String) (read? : String → Option α)
    (invalid : Complaint) : m (Except Complaint α) := do
  match ← source.file path with
  | .error reason => return .error (.unreadableFile path reason)
  | .ok text => return (read? text).elim (.error invalid) .ok

def loadConfig (source : Source m) : Option String → m (Except Complaint Config)
  | none => return .ok .standard
  | some path => load source path Config.ofText? .invalidConfig

def inputText (a : Arguments) (source : Source m) : m (Except Complaint String) := do
  match a.text with
  | some text => return .ok text
  | none =>
    match ← source.input with
    | .ok text => return .ok text
    | .error reason => return .error (.unreadableInput reason)

/-- Reads the store, then the settings, then the text, and fills the text in. -/
def run (a : Arguments) (source : Source m) : ExceptT Complaint m String := do
  let store ← ExceptT.mk (load source a.data Store.ofText? .invalidFixture)
  let config ← ExceptT.mk (loadConfig source a.config)
  let text ← ExceptT.mk (a.inputText source)
  let resolver : Resolver := { store, audience := a.audience, config := a.settings config }
  return (Session.fill { resolver } { text }).result

end

end Arguments

def runCommand {m : Type → Type} [Monad m] (source : Source m) (args : List String) :
    m Outcome := do
  match Arguments.read? args with
  | none => return .misused
  | some arguments =>
    match ← (arguments.run source).run with
    | .ok text => return .printed text
    | .error c => return .complained c

end Placeholders
