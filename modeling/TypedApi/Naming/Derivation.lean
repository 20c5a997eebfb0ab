import TypedApi.Diagnostic
import TypedApi.Naming.Registry
import TypedApi.Text.Words

/-!
Names derived from the path of an endpoint. Derivation only looks at a registry and issues nothing;
a path without identifier characters gets a placeholder and a warning.
-/
namespace TypedApi

namespace Path

/-- Strips the marks of a path parameter: `:id` and `{id}` both become `id`. -/
def stripMarks (segment : List Char) : List Char :=
  let s := match Text.trim segment with
    | ':' :: rest => rest
    | s => s
  match s with
  | '{' :: rest => if rest.getLast? = some '}' then rest.dropLast else s
  | _ => s

/-- The segments that are not empty once their marks are gone. -/
def segments (path : String) : List (List Char) :=
  ((Text.pieces (· == '/') path.toList).map stripMarks).filter (!·.isEmpty)

end Path

def placeholderFunction : String := "apiUnknown"

namespace Registry

def roleMark (r : Registry) (method : Method) (role : Role) : String :=
  method.name ++ r.settings.roleSuffix.suffix role

/-- The words of all segments, the method and the role suffix, as in `UserInfoGETReq`. -/
def typeName (r : Registry) (path : String) (method : Method) (role : Role) :
    Except NamingError String :=
  let words := String.join ((Path.segments path).map fun s => r.convention.segmentWord (.ofList s))
  if words = "" then .error (.degeneratePath path)
  else .ok (Text.mapChars Text.guardDigit (words ++ r.roleMark method role))

def placeholderType (r : Registry) (method : Method) (role : Role) : String :=
  "Unknown" ++ r.roleMark method role

/-- A segment with an upper-case letter is taken to be in camel case already, if lowering its
first letter makes it an identifier. -/
def functionBase (c : Convention) (segment : List Char) : String :=
  let lowered := Text.lowercaseFirst segment
  if segment.any Char.isUpper && Text.isIdentifier lowered then .ofList lowered
  else c.functionWord (.ofList segment)

/-- The function name comes from the last segment. -/
def functionName (r : Registry) (path : String) : Except NamingError String :=
  let base := ((Path.segments path).getLast?.map (functionBase r.convention)).getD ""
  if base = "" then .error (.degeneratePath path)
  else .ok (r.convention.safeName (Text.mapChars Text.guardDigit base))

def orPlaceholder (path placeholder : String) :
    Except NamingError String → String × List Diagnostic
  | .ok name => (name, [])
  | .error e =>
    let message := e.message ++ "; using '" ++ placeholder ++ "'"
    (placeholder, [⟨.warning, .naming, message, some path⟩])

def typeNameOrPlaceholder (r : Registry) (path : String) (method : Method) (role : Role) :
    String × List Diagnostic :=
  orPlaceholder path (r.placeholderType method role) (r.typeName path method role)

def functionNameOrPlaceholder (r : Registry) (path : String) : String × List Diagnostic :=
  orPlaceholder path placeholderFunction (r.functionName path)

end Registry
end TypedApi
