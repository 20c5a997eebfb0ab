/-!
Options on a command line: long and short names, values of their own or attached, and flags in
clusters. Reading goes from left to right and stops at the first thing that is wrong.
-/
namespace TypedApi.CommandLine

/-- Why a command line is not run. -/
inductive Stop
  | usage | help | version
deriving DecidableEq, Repr

structure OptionSpec where
  long : String
  short : Option Char := none
  takesValue : Bool := true
  accepts : String → Bool := fun _ => true

/-- The options that were given, by their long names; a flag has the empty value. -/
abbrev Given := List (String × String)

/-- What has been read: the options, and the one that waits for its value. -/
structure Reading where
  given : Given := []
  waiting : Option OptionSpec := none

/-- Begins like an option; a single dash does not. -/
def looksLikeOption (arg : String) : Bool :=
  match arg.toList with
  | '-' :: _ :: _ => true
  | _ => false

/-- No option is given twice, and its value has to be acceptable. -/
def give (spec : OptionSpec) (value : String) (given : Given) : Except Stop Given :=
  if (given.lookup spec.long).isSome || !spec.accepts value then .error .usage
  else .ok (given ++ [(spec.long, value)])

/-- The flag that asks for more log output may be repeated. -/
def verboseLong : String := "verbose"

def readLong (specs : List OptionSpec) (name : String) (value : Option String) (given : Given) :
    Except Stop Reading :=
  match value with
  | none =>
    if name = verboseLong then .ok ⟨given, none⟩
    else if name = "help" then .error .help
    else match specs.find? (·.long == name) with
      | none => .error .usage
      | some spec =>
        if spec.takesValue then .ok ⟨given, some spec⟩
        else do return ⟨← give spec "" given, none⟩
  | some v =>
    match specs.find? fun s => s.long == name && s.takesValue with
    | none => .error .usage
    | some spec => do return ⟨← give spec v given, none⟩

/-- Reads the letters after a single dash; what follows the letter of an option with a value is that
value. -/
def readCluster (specs : List OptionSpec) (given : Given) : List Char → Except Stop Reading
  | [] => .ok ⟨given, none⟩
  | 'v' :: rest => readCluster specs given rest
  | 'h' :: _ => .error .help
  | c :: rest =>
    match specs.find? (·.short == some c) with
    | none => .error .usage
    | some spec =>
      if spec.takesValue then
        match rest with
        | [] => .ok ⟨given, some spec⟩
        | '=' :: value => do return ⟨← give spec (.ofList value) given, none⟩
        | value => do return ⟨← give spec (.ofList value) given, none⟩
      else do readCluster specs (← give spec "" given) rest

/-- The name of a long option and the value attached to it. -/
def splitLong (cs : List Char) : String × Option String :=
  let name := cs.takeWhile (· != '=')
  match cs.drop name.length with
  | [] => (.ofList name, none)
  | _ :: value => (.ofList name, some (.ofList value))

def readOption (specs : List OptionSpec) (arg : String) (given : Given) : Except Stop Reading :=
  match arg.toList with
  | '-' :: '-' :: rest => readLong specs (splitLong rest).1 (splitLong rest).2 given
  | '-' :: rest => readCluster specs given rest
  | _ => .error .usage

/-- Reads arguments that are all options. -/
def readOptions (specs : List OptionSpec) (r : Reading) : List String → Except Stop Given
  | [] => if r.waiting.isSome then .error .usage else .ok r.given
  | arg :: args =>
    match r.waiting with
    | some spec =>
      if looksLikeOption arg then .error .usage
      else do readOptions specs ⟨← give spec arg r.given, none⟩ args
    | none =>
      if arg = "--" then (if args.isEmpty then .ok r.given else .error .usage)
      else if looksLikeOption arg then do
        readOptions specs (← readOption specs arg r.given) args
      else .error .usage

end TypedApi.CommandLine
