import TypedApi.Config.Invocation
import TypedApi.Report.Line

/-!
The report on a configuration that has been checked.
-/
namespace TypedApi.Report

structure Check where
  path : String
  baseUrl : String
  naming : NamingSettings
  invocations : List Invocation

namespace Check

/-- Resolves all entries, as a run would. -/
def ofConfig (c : Config) (path : String) : Except Config.Error Check := do
  let invocations ← c.invocations
  let baseUrl := (invocations.head?.map (·.source.baseUrl)).getD ""
  return ⟨path, baseUrl, c.naming, invocations⟩

def entryText (i : Invocation) : String :=
  i.id ++ " → " ++ i.output ++
    match i.requestPath with
    | some p => " (" ++ p ++ ")"
    | none => ""

def lines (c : Check) : List Line :=
  let count := c.invocations.length
  [.verbatim ("✓ " ++ c.path ++ " is valid"), .blank, .keyValue "Source" c.baseUrl,
    .keyValue "Naming" ("role_suffix = " ++ c.naming.roleSuffix.name ++ ", collisions = " ++
      c.naming.collisions.name),
    .blank, .heading (toString count ++ " interface" ++ if count = 1 then "" else "s")] ++
    c.invocations.map fun i => .item (entryText i)

end Check
end TypedApi.Report
