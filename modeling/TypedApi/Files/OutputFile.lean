import TypedApi.Files.FileTree

/-!
Files to be written, with their rules: what stands on top, and whether a file that is there already
is kept.
-/
namespace TypedApi

inductive Overwrite
  | always
  | ifMissing
deriving DecidableEq, Repr

structure OutputFile where
  path : String
  body : String
  /-- A line on top of the file. -/
  header : Option String := none
  overwrite : Overwrite := .always

inductive WriteResult
  | written | skipped
deriving DecidableEq, Repr

/-- What could not be done, and why. -/
inductive WriteError
  | create (directory : String) (cause : FileError)
  | write (path : String) (cause : FileError)
deriving DecidableEq, Repr

namespace WriteError

def message : WriteError → String
  | create directory _ => "failed to create '" ++ directory ++ "'"
  | write path _ => "failed to write '" ++ path ++ "'"

def cause : WriteError → FileError
  | create _ e | write _ e => e

end WriteError

namespace OutputFile

def content (f : OutputFile) : String :=
  match f.header with
  | some h => h ++ "\n" ++ f.body
  | none => f.body

/-- Makes the directories above the file. -/
def prepare (f : OutputFile) (t : FileTree) : FileTree × Option WriteError :=
  match FilePath.parent? f.path with
  | none => (t, none)
  | some directory =>
    let (t, e) := t.makeAll directory
    (t, e.map (.create directory))

def store (f : OutputFile) (t : FileTree) : Except WriteError WriteResult × FileTree :=
  match f.prepare t with
  | (t, some e) => (.error e, t)
  | (t, none) =>
    match t.store f.path f.content with
    | .ok t => (.ok .written, t)
    | .error e => (.error (.write f.path e), t)

/-- Writes the file by its rules. -/
def write (f : OutputFile) (t : FileTree) : Except WriteError WriteResult × FileTree :=
  match f.overwrite with
  | .always => f.store t
  | .ifMissing => if t.holds f.path then (.ok .skipped, t) else f.store t

end OutputFile
end TypedApi
