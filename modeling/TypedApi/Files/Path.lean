import TypedApi.Text.Words

/-!
Paths as texts. Two paths are the same place by name when their steps agree: doubled and final
slashes do not count, nor does a dot except as the first step.
-/
namespace TypedApi

inductive PathStep
  | root
  | here
  | up
  | name (s : String)
deriving DecidableEq, Repr

namespace FilePath

/-- The parts between slashes, empty ones included. -/
def parts (path : String) : List String :=
  (Text.pieces (· == '/') path.toList).map String.ofList

def isRooted (path : String) : Bool := path.toList.head? == some '/'

def laterStep? (part : String) : Option PathStep :=
  match part with
  | "" | "." => none
  | ".." => some .up
  | s => some (.name s)

def steps (path : String) : List PathStep :=
  match parts path with
  | [] => []
  | first :: rest =>
    let start := if isRooted path then [PathStep.root]
      else if first = "." then [.here] else (laterStep? first).toList
    start ++ rest.filterMap laterStep?

def sameSteps (a b : String) : Bool := steps a == steps b

/-- How many parts there are up to and with the last one that is a step, and up to the one
before. -/
def lastTwoSteps (path : String) : Option Nat × Option Nat :=
  let isStep (i : Nat) (part : String) : Bool := part ≠ "" && (part ≠ "." || i == 0)
  let marked := ((parts path).zipIdx.filter fun p => isStep p.2 p.1).map (·.2 + 1)
  (marked.getLast?, marked.dropLast.getLast?)

/-- The path without its last step, as far as it is written; the empty path and the root have
none. -/
def parent? (path : String) : Option String :=
  match lastTwoSteps path with
  | (none, _) => none
  | (some _, none) => some (if isRooted path then "/" else "")
  | (some _, some n) => some ("/".intercalate ((parts path).take n))

/-- The path of an entry of a directory. -/
def join (directory entry : String) : String :=
  if directory = "" then entry
  else if directory.toList.getLast? = some '/' then directory ++ entry
  else directory ++ "/" ++ entry

end FilePath
end TypedApi
