import TypedApi.CommandLine.Command
import TypedApi.Config.OfToml
import TypedApi.Report.Check
import TypedApi.Run.Batch

/-!
Running a command line: what is printed, how it ends, and what it does to the world.
-/
namespace TypedApi.CommandLine

/-- How a command line ends. -/
inductive Outcome
  | done (output : Report.Output)
  /-- The run failed; the message comes after the output. -/
  | failed (output : Report.Output) (message : String)
  | misconfigured (e : Config.Error)
  | stopped (s : Stop)
  /-- A panic has ended the program. -/
  | crashed

namespace Outcome

def exitCode : Outcome → Nat
  | done _ => 0
  | failed _ _ => 1
  | misconfigured _ => 1
  | stopped .usage => 2
  | stopped .help | stopped .version => 0
  | crashed => 101

end Outcome

def versionText : String := "yapit 0.1.0\n"

def readConfig (files : FileTree) (path : String) : Except Config.Error Config :=
  match files.read path with
  | .ok text => Config.ofText text
  | .error _ => .error (.unreadable path)

/-- The settings of the configuration, over them those of the entry with the given id, and over
these the flags. -/
def GenerateFlags.builder (f : GenerateFlags) (config : Option Config) : InvocationBuilder :=
  let start := (config.map InvocationBuilder.ofConfig).getD {}
  let naming := (config.map (·.naming)).getD {}
  let entry : Option Config.Entry := do
    let c ← config
    let id ← f.id
    c.interfaces.find? fun e => e.id == id
  let b := match entry with
    | some e => (start.withOutput e.output).withRequestPath e.requestPath
    | none => start
  let b := match f.baseUrl with
    | some url => b.withBaseUrl url
    | none => b
  let b := match f.id with
    | some id => b.withId id
    | none => b
  let b := match f.output with
    | some output => b.withOutput output
    | none => b
  ((b.withToken f.token).withRequestPath f.requestPath).withNaming
    ⟨f.roleSuffix.getD naming.roleSuffix, f.collisions.getD naming.collisions⟩

def GenerateFlags.invocation (f : GenerateFlags) (files : FileTree) :
    Except Config.Error Invocation := do
  match f.config with
  | some path => (f.builder (some (← readConfig files path))).build
  | none => (f.builder none).build

/-- A token that is not empty replaces that of every invocation. -/
def BatchFlags.overrideToken (f : BatchFlags) (i : Invocation) : Invocation :=
  match f.token.filter isNotEmpty with
  | some token => { i with source := { i.source with token := some token } }
  | none => i

def BatchFlags.invocations (f : BatchFlags) (files : FileTree) :
    Except Config.Error (List Invocation) := do
  let config ← readConfig files f.config
  return (← config.invocations).map f.overrideToken

section

variable [JsonWording] (source : Source)

def runGenerate (f : GenerateFlags) (w : Run.World) : Outcome × Run.World :=
  match f.invocation w.files with
  | .error e => (.misconfigured e, w)
  | .ok i =>
    match Run.generate source i f.mode w with
    | (.ok report, w) => (.done (.ofLines report.lines), w)
    | (.error e, w) => (if e.isPanic then .crashed else .failed {} e.text, w)

def batchFailedMessage (b : Report.Batch) : String :=
  toString b.failures.length ++ " of " ++ toString b.total ++ " interfaces failed"

/-- The outcome of a batch by its report, if there is one. -/
def concludeBatch : Option Report.Batch → Outcome
  | none => .crashed
  | some report =>
    let output := Report.Output.ofLines report.lines
    if report.isSuccess then .done output else .failed output (batchFailedMessage report)

/-- The invocations of a batch take these turns. -/
def runBatch (turns : List Nat) (f : BatchFlags) (w : Run.World) : Outcome × Run.World :=
  match f.invocations w.files with
  | .error e => (.misconfigured e, w)
  | .ok is =>
    let (report, w) := Run.batch source turns is f.mode w
    (concludeBatch report, w)

def runCheck (path : String) (w : Run.World) : Outcome :=
  match (readConfig w.files path).bind (Report.Check.ofConfig · path) with
  | .ok report => .done (.ofLines report.lines)
  | .error e => .misconfigured e

def runCommand (turns : List Nat) (c : Command) (w : Run.World) : Outcome × Run.World :=
  match c with
  | .generate f => runGenerate source f w
  | .batch f => runBatch source turns f w
  | .check path => (runCheck path w, w)

/-- Runs the arguments, with the token that the environment gives. -/
def run (turns : List Nat) (environment : Option String) (args : List String) (w : Run.World) :
    Outcome × Run.World :=
  match Command.ofArgs environment args with
  | .error s => (.stopped s, w)
  | .ok c => runCommand source turns c w

end

end TypedApi.CommandLine
