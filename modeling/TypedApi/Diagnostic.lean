/-!
Diagnostics: what was degraded on the way to the generated code, and where.
-/
namespace TypedApi

inductive Severity
  | info | warning | error
deriving DecidableEq, Repr

namespace Severity

def name : Severity → String
  | info => "info"
  | warning => "warning"
  | error => "error"

def rank : Severity → Nat
  | info => 0
  | warning => 1
  | error => 2

/-- Severities are ordered by rank. -/
def exceeds (a b : Severity) : Bool := b.rank < a.rank

end Severity

inductive Phase
  | schema | naming | resolve
deriving DecidableEq, Repr

def Phase.name : Phase → String
  | schema => "schema"
  | naming => "naming"
  | resolve => "resolve"

structure Diagnostic where
  severity : Severity
  phase : Phase
  message : String
  location : Option String := none
deriving DecidableEq, Repr

namespace Diagnostic

/-- The place replaces an earlier one. -/
def atPlace (d : Diagnostic) (location : String) : Diagnostic :=
  { d with location := some location }

def text (d : Diagnostic) : String :=
  let place := match d.location with
    | some l => " (at " ++ l ++ ")"
    | none => ""
  d.severity.name ++ " [" ++ d.phase.name ++ "]: " ++ d.message ++ place

/-- Worth showing to a user. -/
def isNotable (d : Diagnostic) : Bool := d.severity.exceeds .info

end Diagnostic
end TypedApi
