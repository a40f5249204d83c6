import ClientGen.Client.Generate
import ClientGen.Command.Options

/-!
# Running the command

The command is given its options (`Command.runWith`). It reads its configuration and its document
and generates the client. A failure that has a message is told on the error output and gives exit
code 1 (`exitCode_of_message`); other failures are left to the system, with the same code. The
program (`Command.run`) finds the options in the words of a command line; words that make no sense
give exit code 2.
-/
namespace ClientGen

inductive Ending where
  | success
  /-- The arguments make no sense. -/
  | usage
  /-- A failure that is told by its message. -/
  | told (message : String)
  /-- A failure that has no message. -/
  | untold (failure : Failure)
  deriving DecidableEq, Repr

namespace Ending

def ofFailure (e : Failure) : Ending :=
  match e.message? with
  | some message => .told message
  | none => .untold e

def ofOutcome {α : Type} : Outcome α → Ending
  | .ok _ => .success
  | .error e => ofFailure e

def ofRefusal : Refusal → Ending
  | .usage => .usage
  | .failure e => ofFailure e

def exitCode : Ending → Nat
  | success => 0
  | usage => 2
  | told _ => 1
  | untold _ => 1

/-- What is told about the end on the error output. -/
def text : Ending → String
  | told message => "Error: " ++ message ++ "\n"
  | _ => ""

/-- A failure with a message ends the command with exit code 1, and its message is told. -/
theorem exitCode_of_message {e : Failure} {message : String} (h : e.message? = some message) :
    (ofFailure e).exitCode = 1 ∧ (ofFailure e).text = "Error: " ++ message ++ "\n" := by
  simp [ofFailure, h, exitCode, text]

end Ending

/-- What the command leaves: the disk, its error output, and its end. -/
structure CommandRun where
  disk : Disk
  errorOutput : String
  ending : Ending

namespace Command

def isPrinted (verbose : Bool) (r : Record) : Bool :=
  verbose || r.severity != .debug

def logText (verbose : Bool) (records : List Record) : String :=
  String.join ((records.filter (isPrinted verbose)).map Record.line)

/-- The configuration of a run: that of the configuration file, if one is given, with the settings
of the command line and the command line itself. -/
def configFor (parsers : Parsers) (o : CommandOptions) (d : Disk) : Outcome Config := do
  let config ← match o.config with
    | some path => parsers.readConfig d path
    | none => .ok {}
  return { o.applyTo config with commandLine := ← o.commandLine d }

/-- Reads the configuration and generates the client. -/
def generate (platform : Platform) (o : CommandOptions) : OnDisk (List FilePath) := do
  let config ← OnDisk.look (configFor platform.parsers o)
  Client.generateFileOn platform config o.document o.output

/-- Runs the command with the options that it is given. -/
def runWith (platform : Platform) (o : CommandOptions) (d : Disk) : CommandRun :=
  let after := generate platform o d
  let ending := Ending.ofOutcome after.outcome
  ⟨after.disk, logText o.verbose after.records ++ ending.text, ending⟩

/-- Runs the command with the words of a command line. -/
def run (words : List String) (d : Disk) : CommandRun :=
  match Arguments.parse? words with
  | none => ⟨d, "", .usage⟩
  | some a => match CommandOptions.ofArguments d a with
    | .error refusal => ⟨d, "", .ofRefusal refusal⟩
    | .ok o => runWith .standard o d

end Command

end ClientGen
