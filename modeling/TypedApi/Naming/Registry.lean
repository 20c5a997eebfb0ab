import TypedApi.Naming.Policy
import TypedApi.Naming.Convention

/-!
The names issued in one run. No name is issued twice; a candidate that is taken is numbered or
refused, as the collision policy says.
-/
namespace TypedApi

inductive NamingError
  | degeneratePath (path : String)
  | collision (name : String)
deriving DecidableEq, Repr

def NamingError.message : NamingError → String
  | degeneratePath path => "path '" ++ path ++ "' contains no identifier characters"
  | collision name => "name '" ++ name ++ "' is already taken in this run"

structure Registry where
  settings : NamingSettings
  convention : Convention
  /-- In the order of issue. -/
  issued : List String := []

namespace Registry

def isIssued (r : Registry) (name : String) : Bool := r.issued.contains name

def issue (r : Registry) (name : String) : Registry := { r with issued := r.issued ++ [name] }

def numbered (candidate : String) (n : Nat) : String := candidate ++ toString n

/-- The smallest number from 2 on that makes the candidate a free name. One of the first
`issued.length + 1` numbers does, because distinct numbers make distinct names. Natural numbers
stand for machine integers of 32 bits here, whose range no registry exhausts that issues fewer than
2³¹ names. -/
def freeNumber? (r : Registry) (candidate : String) : Option Nat :=
  ((List.range (r.issued.length + 1)).map (· + 2)).find? fun n => !r.isIssued (numbered candidate n)

def freeName (r : Registry) (candidate : String) : String :=
  match r.freeNumber? candidate with
  | some n => numbered candidate n
  | none => candidate

/-- Issues the candidate, or what the collision policy makes of it if it is taken. -/
def allocate (r : Registry) (candidate : String) : Except NamingError (String × Registry) :=
  if !r.isIssued candidate then .ok (candidate, r.issue candidate)
  else match r.settings.collisions with
    | .reject => .error (.collision candidate)
    | .suffix => .ok (r.freeName candidate, r.issue (r.freeName candidate))

end Registry
end TypedApi
