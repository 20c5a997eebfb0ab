import TypedApi.Naming.Convention
import TypedApi.Text.Words

/-!
Names in TypeScript.
-/
namespace TypedApi.TypeScript

/-- The words that cannot name a function in a module. Words reserved in some contexts only, such
as `type`, are not among them. -/
def reservedWords : List String := [
  "break", "case", "catch", "class", "const", "continue", "debugger", "default", "delete", "do",
  "else", "enum", "export", "extends", "false", "finally", "for", "function", "if", "import", "in",
  "instanceof", "new", "null", "return", "super", "switch", "this", "throw", "true", "try",
  "typeof", "var", "void", "while", "with",
  "await", "implements", "interface", "let", "package", "private", "protected", "public", "static",
  "yield"]

def convention : Convention where
  segmentWord := Text.mapChars Text.pascalCase
  keyWord := Text.mapChars Text.capitalizeWords
  functionWord := Text.mapChars Text.camelCase
  reserved := reservedWords
  escape := ("_" ++ ·)

end TypedApi.TypeScript
