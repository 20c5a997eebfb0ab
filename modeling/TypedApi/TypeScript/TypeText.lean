import TypedApi.Declaration

/-!
Types in the notation of TypeScript. The brackets of an array bind tighter than a bar, so an
element with a bar stands in parentheses.
-/
namespace TypedApi.TypeScript

def languageName : String := "typescript"

/-- Wide integers are plain numbers, which is why they are lossy. -/
def scalarText : Scalar → String
  | .string => "string"
  | .number => "number"
  | .wideInteger => "number"
  | .boolean => "boolean"
  | .stringOrNumber => "string | number"

def arrayText (element : String) : String :=
  if element.toList.contains '|' then "(" ++ element ++ ")[]" else element ++ "[]"

def typeText : TypeRef → String
  | .scalar s => scalarText s
  | .named name => name
  | .array element => arrayText (typeText element)
  | .openMap => "Record<string, any>"
  | .unknown => "unknown"

end TypedApi.TypeScript
