/-!
The lines that reports are made of, and the two texts they go to.
-/
namespace TypedApi.Report

inductive Line
  | heading (name : String)
  | keyValue (key value : String)
  | item (s : String)
  | added (s : String)
  | warning (s : String)
  | error (s : String)
  | divider (label : String)
  | verbatim (s : String)
  | blank
deriving DecidableEq, Repr

namespace Line

/-- Warnings and errors are kept apart from the rest. -/
def isTrouble : Line → Bool
  | warning _ | error _ => true
  | _ => false

def text : Line → String
  | heading name => name ++ ":\n"
  | keyValue key value => key ++ ": " ++ value ++ "\n"
  | item s => "  - " ++ s ++ "\n"
  | added s => "  + " ++ s ++ "\n"
  | warning s => "warning: " ++ s ++ "\n"
  | error s => "error: " ++ s ++ "\n"
  | divider label => "── " ++ label ++ " ──\n"
  | verbatim s => s ++ "\n"
  | blank => "\n"

end Line

/-- What is printed, and what is printed as trouble. -/
structure Output where
  out : String := ""
  err : String := ""
deriving DecidableEq, Repr

def Output.ofLines (lines : List Line) : Output where
  out := String.join ((lines.filter (!·.isTrouble)).map (·.text))
  err := String.join ((lines.filter (·.isTrouble)).map (·.text))

end TypedApi.Report
