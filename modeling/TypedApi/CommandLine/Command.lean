import TypedApi.CommandLine.Options
import TypedApi.Config.Invocation
import TypedApi.Run.Generate

/-!
The three commands and their options.
-/
namespace TypedApi.CommandLine

structure GenerateFlags where
  id : Option String := none
  output : Option String := none
  baseUrl : Option String := none
  token : Option String := none
  requestPath : Option String := none
  roleSuffix : Option RoleSuffix := none
  collisions : Option CollisionPolicy := none
  config : Option String := none
  mode : Run.Mode := {}

structure BatchFlags where
  config : String := Config.fileName
  token : Option String := none
  mode : Run.Mode := {}

inductive Command
  | generate (flags : GenerateFlags)
  | batch (flags : BatchFlags)
  | check (config : String)

def isNotEmpty (s : String) : Bool := s ≠ ""

def configSpec : OptionSpec := { long := "config", short := some 'c', accepts := isNotEmpty }

def modeSpecs : List OptionSpec :=
  [{ long := "dry-run", takesValue := false }, { long := "skip-existing", takesValue := false }]

def generateSpecs : List OptionSpec :=
  [{ long := "id" }, { long := "output", short := some 'o', accepts := isNotEmpty },
    { long := "base-url" }, { long := "token" }, { long := "request-path" },
    { long := "role-suffix", accepts := fun s => (RoleSuffix.ofText? s).isSome },
    { long := "collisions", accepts := fun s => (CollisionPolicy.ofText? s).isSome },
    configSpec] ++ modeSpecs

def batchSpecs : List OptionSpec := [configSpec, { long := "token" }] ++ modeSpecs

def modeOf (given : Given) : Run.Mode :=
  ⟨(given.lookup "dry-run").isSome, (given.lookup "skip-existing").isSome⟩

/-- The token of the environment counts where none is given. -/
def tokenOf (environment : Option String) (given : Given) : Option String :=
  (given.lookup "token").or environment

def configOf (given : Given) : String := (given.lookup "config").getD Config.fileName

def generateFlags (environment : Option String) (given : Given) : GenerateFlags where
  id := given.lookup "id"
  output := given.lookup "output"
  baseUrl := given.lookup "base-url"
  token := tokenOf environment given
  requestPath := given.lookup "request-path"
  roleSuffix := (given.lookup "role-suffix").bind RoleSuffix.ofText?
  collisions := (given.lookup "collisions").bind CollisionPolicy.ofText?
  config := given.lookup "config"
  mode := modeOf given

def commandOf (environment : Option String) (name : String) (args : List String) :
    Except Stop Command :=
  match name with
  | "generate" => do
    return .generate (generateFlags environment (← readOptions generateSpecs {} args))
  | "batch" => do
    let given ← readOptions batchSpecs {} args
    return .batch ⟨configOf given, tokenOf environment given, modeOf given⟩
  | "check" => do return .check (configOf (← readOptions [configSpec] {} args))
  | _ => .error .usage

def commandNames : List String := ["generate", "batch", "check", "help"]

/-- Letters before the command. -/
def readTopCluster : List Char → Except Stop Unit
  | [] => .ok ()
  | 'v' :: rest => readTopCluster rest
  | 'h' :: _ => .error .help
  | 'V' :: _ => .error .version
  | _ => .error .usage

/-- Reads what stands before the command, and then the command. -/
def Command.ofArgs (environment : Option String) : List String → Except Stop Command
  | [] => .error .usage
  | "--verbose" :: args => ofArgs environment args
  | "--help" :: _ => .error .help
  | "--version" :: _ => .error .version
  | ["help"] => .error .help
  | ["help", name] => .error (if commandNames.contains name then .help else .usage)
  | "help" :: _ => .error .usage
  | arg :: args =>
    match arg.toList with
    | '-' :: '-' :: _ => .error .usage
    | '-' :: c :: cs => do
      readTopCluster (c :: cs)
      ofArgs environment args
    | _ => commandOf environment arg args

end TypedApi.CommandLine
