import TypedApi.Text.Words

/-!
String literals and property keys of TypeScript.
-/
namespace TypedApi.TypeScript

/-- Puts this text in the place of every such character. -/
def replaceChar (c : Char) (text : List Char) (s : List Char) : List Char :=
  s.flatMap fun d => if d = c then text else [d]

/-- Single quotes around the text, in which first the backslashes are escaped and then the single
quotes. -/
def stringLiteral (s : String) : String :=
  let escaped := replaceChar '\'' ['\\', '\''] (replaceChar '\\' ['\\', '\\'] s.toList)
  String.ofList ('\'' :: escaped ++ ['\''])

/-- The key itself if it is an identifier, else a literal. -/
def propertyKey (name : String) : String :=
  if Text.isIdentifier name.toList then name else stringLiteral name

end TypedApi.TypeScript
