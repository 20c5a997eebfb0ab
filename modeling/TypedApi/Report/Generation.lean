import TypedApi.Report.Line
import TypedApi.Text.Blank

/-!
Reports on generated interfaces, one or many.
-/
namespace TypedApi.Report

inductive Product
  | files (written kept : List String)
  /-- Paths and contents that would be written. -/
  | preview (files : List (String × String))
deriving DecidableEq, Repr

structure Generation where
  id : String
  title : String
  functionName : String
  requestType : Option String
  responseType : String
  warnings : List String
  product : Product
deriving DecidableEq, Repr

namespace Generation

/-- The id, and the title if there is one. -/
def label (g : Generation) : String :=
  let title := Text.mapChars Text.trim g.title
  if title = "" then g.id else g.id ++ " (" ++ title ++ ")"

def listing (name : String) (item : String → Line) (paths : List String) : List Line :=
  if paths.isEmpty then [] else .blank :: .heading name :: paths.map item

def summaryLines (g : Generation) (written kept : List String) : List Line :=
  [.keyValue "Interface" g.label, .keyValue "Function" g.functionName] ++
    (g.requestType.map (Line.keyValue "Request")).toList ++
    [.keyValue "Response" g.responseType] ++
    listing "Generated" .added written ++ listing "Kept existing" .item kept

def previewLines (g : Generation) (files : List (String × String)) : List Line :=
  files.flatMap (fun f => [.divider f.1, .verbatim f.2]) ++
    [.divider "Summary",
      .verbatim (toString files.length ++ " files would be generated for " ++ g.label)]

def lines (g : Generation) : List Line :=
  g.warnings.map .warning ++
    match g.product with
    | .files written kept => g.summaryLines written kept
    | .preview files => g.previewLines files

end Generation

structure Batch where
  generated : List Generation := []
  /-- Ids, and what went wrong. -/
  failures : List (String × String) := []
deriving DecidableEq, Repr

namespace Batch

def total (b : Batch) : Nat := b.generated.length + b.failures.length

def isSuccess (b : Batch) : Bool := b.failures.isEmpty

def separated : List (List Line) → List Line
  | [] => []
  | [group] => group
  | group :: groups => group ++ .blank :: separated groups

def lines (b : Batch) : List Line :=
  separated (b.generated.map (·.lines)) ++
    b.failures.map (fun f => .error ("interface " ++ f.1 ++ ": " ++ f.2)) ++
    [.blank, .keyValue "Summary"
      (toString b.generated.length ++ " of " ++ toString b.total ++ " interfaces generated")]

end Batch
end TypedApi.Report
