import TypedApi.Endpoint
import TypedApi.TypeScript.Literal
import TypedApi.TypeScript.SourceFile

/-!
The file with the request function for one endpoint.
-/
namespace TypedApi.TypeScript

/-- How the request travels, with the name of its type. -/
inductive RequestArgument
  | none
  | body (type : String)
  | query (type : String)
deriving DecidableEq, Repr

def RequestArgument.type? : RequestArgument → Option String
  | none => Option.none
  | body t | query t => some t

structure ClientFile where
  title : String
  path : String
  method : Method
  functionName : String
  /-- The address that the call is sent to. -/
  url : String
  request : RequestArgument
  responseType : String

namespace ClientFile

def fileName : String := "api.ts"

def callArguments (file : ClientFile) : String :=
  let url := stringLiteral file.url
  match file.request with
  | .none => url
  | .body _ => if file.method.takesBody then url ++ ", data" else url ++ ", \x7b data \x7d"
  | .query _ => url ++ ", \x7b params \x7d"

def call (file : ClientFile) : String :=
  "const response = await axios." ++ file.method.lowerName ++ "<" ++ file.responseType ++ ">(" ++
    file.callArguments ++ ");"

def parameters : RequestArgument → List (String × String)
  | .none => []
  | .body t => [("data", t)]
  | .query t => [("params", t)]

def function (file : ClientFile) : Function where
  name := file.functionName
  doc :=
    (if Text.allBlank file.title then [] else [Text.mapChars Text.trim file.title]) ++
      ["@description " ++ file.path, "@method " ++ file.method.name]
  isAsync := true
  parameters := parameters file.request
  body := [file.call, "return response.data;"]

def typeImport (file : ClientFile) : Import :=
  let base : Import := { source := "./types", typeOnly := true }
  let base := match file.request.type? with
    | some t => base.withName t
    | none => base
  base.withName file.responseType

def sourceFile (file : ClientFile) : SourceFile where
  imports := [{ source := "axios", default := some "axios" }, file.typeImport]
  elements := [file.function.fragments]

def text (file : ClientFile) : String := file.sourceFile.text

end ClientFile
end TypedApi.TypeScript
