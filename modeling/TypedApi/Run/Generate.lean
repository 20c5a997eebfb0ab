import TypedApi.Files.OutputFile
import TypedApi.Report.Generation
import TypedApi.Source.Fetch
import TypedApi.TypeScript.Artifacts

/-!
Generating an interface: fetch its document, make the two files, and write or show them. Nothing is
written when the fetch or the generation fails.
-/
namespace TypedApi.Run

structure Mode where
  /-- Show the files and write nothing. -/
  dryRun : Bool := false
  /-- Leave files alone that are there already. -/
  skipExisting : Bool := false
deriving DecidableEq, Repr

def Mode.overwrite (m : Mode) : Overwrite := if m.skipExisting then .ifMissing else .always

/-- What runs change: the files, and the requests that were made. -/
structure World where
  files : FileTree := {}
  made : List Exchange := []

inductive Error
  | fetch (id : String) (e : FetchError)
  | naming (id : String) (e : NamingError)
  | write (e : WriteError)
deriving DecidableEq, Repr

namespace Error

/-- The message, and after it the causes from the nearest to the farthest. -/
def chain : Error → List String
  | fetch id e => ("failed to fetch interface " ++ id) :: e.chain
  | naming id e => ["failed to generate interface " ++ id, e.message]
  | write e => [e.message, e.cause.message]

def text (e : Error) : String := ": ".intercalate e.chain

/-- No error that is reported, but the end of the program. -/
def isPanic : Error → Bool
  | fetch _ .overflow => true
  | _ => false

end Error

def banner : String := "// Generated by yapit - DO NOT EDIT"

def outputFiles (a : TypeScript.Artifacts) (directory : String) (overwrite : Overwrite) :
    List OutputFile :=
  [(TypeScript.TypesFile.fileName, a.types), (TypeScript.ClientFile.fileName, a.client)].map
    fun f => ⟨FilePath.join directory f.1, f.2, some banner, overwrite⟩

/-- Writes files one after the other up to the first that fails. -/
def writeAll (t : FileTree) : List OutputFile →
    Except WriteError (List (String × WriteResult)) × FileTree
  | [] => (.ok [], t)
  | f :: fs =>
    match f.write t with
    | (.error e, t) => (.error e, t)
    | (.ok r, t) =>
      match writeAll t fs with
      | (.error e, t) => (.error e, t)
      | (.ok rs, t) => (.ok ((f.path, r) :: rs), t)

def pathsOf (result : WriteResult) (rs : List (String × WriteResult)) : List String :=
  (rs.filter (·.2 == result)).map (·.1)

/-- Shows the files or writes them. -/
def produce (mode : Mode) (files : List OutputFile) (t : FileTree) :
    Except WriteError Report.Product × FileTree :=
  if mode.dryRun then (.ok (.preview (files.map fun f => (f.path, f.content))), t)
  else match writeAll t files with
    | (.error e, t) => (.error e, t)
    | (.ok rs, t) => (.ok (.files (pathsOf .written rs) (pathsOf .skipped rs)), t)

def warningText (d : Diagnostic) : String :=
  match d.location with
  | some l => d.message ++ "\n  --> " ++ l
  | none => d.message

def report (i : Invocation) (title : String) (a : TypeScript.Artifacts) (product : Report.Product) :
    Report.Generation where
  id := i.id
  title
  functionName := a.functionName
  requestType := a.requestType
  responseType := a.responseType
  warnings := a.warnings.map warningText
  product

variable [JsonWording]

/-- What an invocation makes of the document it has fetched. -/
def generateFrom (i : Invocation) (mode : Mode) (d : InterfaceDocument) (t : FileTree) :
    Except Error Report.Generation × FileTree :=
  let endpoint := d.endpoint
  match TypeScript.Artifacts.generate ⟨i.naming, i.requestPath⟩ endpoint with
  | .error e => (.error (.naming i.id e), t)
  | .ok a =>
    match produce mode (outputFiles a i.output mode.overwrite) t with
    | (.error e, t) => (.error (.write e), t)
    | (.ok product, t) => (.ok (report i endpoint.title a product), t)

/-- All that is left to do after a fetch. -/
def finish (i : Invocation) (mode : Mode) (answer : Except FetchError InterfaceDocument)
    (t : FileTree) : Except Error Report.Generation × FileTree :=
  match answer with
  | .error e => (.error (.fetch i.id e), t)
  | .ok d => generateFrom i mode d t

def generate (source : Source) (i : Invocation) (mode : Mode) (w : World) :
    Except Error Report.Generation × World :=
  let (answer, made) := i.source.fetch source i.id w.made
  let (result, files) := finish i mode answer w.files
  (result, ⟨files, made⟩)

end TypedApi.Run
