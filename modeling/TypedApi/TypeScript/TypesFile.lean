import TypedApi.Endpoint
import TypedApi.TypeScript.Interface

/-!
The file of type declarations for one endpoint.
-/
namespace TypedApi.TypeScript

structure TypesFile where
  title : String
  path : String
  method : Method
  /-- The declarations of the request, if any, and of the response. -/
  sections : List DeclarationTree

namespace TypesFile

def fileName : String := "types.ts"

def header (file : TypesFile) : List String :=
  (if Text.allBlank file.title then [] else [Text.mapChars Text.trim file.title]) ++
    ["@path " ++ file.path, "@method " ++ file.method.name]

def text (file : TypesFile) : String :=
  let start := ({} : Code.Builder).docLines file.header
  (file.sections.foldl (fun b tree => emitTree b.blank tree) start).text

end TypesFile
end TypedApi.TypeScript
