import TypedApi.CommandLine.Execution
import TypedApi.Source.Http

/-!
Running a command line against a source that is asked step by step. A run is repeated with the
answers known so far until it needs no other; since a run depends on its answers alone, each
repetition makes the same requests as the one before, and one more.
-/
namespace TypedApi.CommandLine

/-- The source that has given these answers and is out of reach from then on. -/
def knownSource (known : List Exchange) : Source where
  answer request earlier :=
    (((known.filter (·.request.id == request.id)).map (·.answer))[earlier]?).getD
      (.failed (.unreachable request.address))

/-- The first request of a run that is not among the known ones. -/
def nextRequest? (known made : List Exchange) : Option Exchange := made[known.length]?

/-- The files that a command is about. -/
def Command.configPath? : Command → Option String
  | generate f => f.config
  | batch f => some f.config
  | check path => some path

def Command.invocations (c : Command) (files : FileTree) : List Invocation :=
  match c with
  | generate f =>
    match f.invocation files with
    | .ok i => [i]
    | .error _ => []
  | batch f => ((f.invocations files).toOption).getD []
  | check _ => []

/-- The files that a command may write. -/
def Command.outputPaths (c : Command) (files : FileTree) : List String :=
  (c.invocations files).flatMap fun i =>
    [TypeScript.TypesFile.fileName, TypeScript.ClientFile.fileName].map (FilePath.join i.output)

end TypedApi.CommandLine
