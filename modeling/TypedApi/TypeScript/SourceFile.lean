import TypedApi.Code.Builder

/-!
Source files: imports, then functions and other elements with blank lines between them.
-/
namespace TypedApi.TypeScript

open Code (Fragment Builder)

structure Import where
  source : String
  default : Option String := none
  names : List String := []
  typeOnly : Bool := false

namespace Import

/-- Imports one more name; a name that is there already is not repeated. -/
def withName (i : Import) (name : String) : Import :=
  if i.names.contains name then i else { i with names := i.names ++ [name] }

def statement (i : Import) : String :=
  let kind := if i.typeOnly then "type " else ""
  let list := "\x7b " ++ ", ".intercalate i.names ++ " \x7d"
  let origin := " from '" ++ i.source ++ "';"
  match i.default, i.names with
  | some d, [] => "import " ++ kind ++ d ++ origin
  | some d, _ => "import " ++ kind ++ d ++ ", " ++ list ++ origin
  | none, [] => "import '" ++ i.source ++ "';"
  | none, _ => "import " ++ kind ++ list ++ origin

end Import

/-- An exported function. -/
structure Function where
  name : String
  doc : List String := []
  isAsync : Bool := false
  /-- Names and types. -/
  parameters : List (String × String) := []
  body : List String := []

namespace Function

def signature (f : Function) : String :=
  let parameters := f.parameters.map fun p => p.1 ++ ": " ++ p.2
  "export " ++ (if f.isAsync then "async " else "") ++ "function " ++ f.name ++ "(" ++
    ", ".intercalate parameters ++ ") \x7b"

def docFragments : List String → List Fragment
  | [] => []
  | [single] => [.ofDoc single]
  | lines => [.docLines lines]

def fragments (f : Function) : List Fragment :=
  docFragments f.doc ++ [.block f.signature (f.body.map .line) (some "\x7d")]

end Function

structure SourceFile where
  imports : List Import := []
  elements : List (List Fragment) := []

def SourceFile.text (file : SourceFile) : String :=
  let b := ({} : Builder).applyAll (file.imports.map fun i => .line i.statement)
  let b := if file.imports.isEmpty || file.elements.isEmpty then b else b.blank
  (b.applyGroups file.elements).text

end TypedApi.TypeScript
