import TypedApi.Files.Path

/-!
A tree of files, and the operations on it that a file system offers for paths.
-/
namespace TypedApi

inductive FileEntry
  | directory
  | file (content : String)
deriving DecidableEq, Repr

inductive FileError
  | notFound | notDirectory | occupied | isDirectory
deriving DecidableEq, Repr

def FileError.message : FileError → String
  | notFound => "No such file or directory (os error 2)"
  | notDirectory => "Not a directory (os error 20)"
  | occupied => "File exists (os error 17)"
  | isDirectory => "Is a directory (os error 21)"

/-- Entries by the names on the way to them from the root, which needs no entry. There are no links,
so that a way leads nowhere but to its own location, and nothing but what is there already stands in
the way of a write. -/
structure FileTree where
  entries : List (List String × FileEntry) := []
  /-- The directory that relative paths start from. -/
  start : List String := []
deriving DecidableEq, Repr

namespace FileTree

def entry? (t : FileTree) (location : List String) : Option FileEntry :=
  if location.isEmpty then some .directory else t.entries.lookup location

/-- Sets the entry at a location. -/
def put (t : FileTree) (location : List String) (e : FileEntry) : FileTree :=
  if t.entries.any (·.1 == location) then
    { t with entries := t.entries.map fun p => if p.1 == location then (location, e) else p }
  else { t with entries := t.entries ++ [(location, e)] }

/-- What a path leads to: something that is there, or a name that is free in a directory. -/
inductive Target
  | directory (location : List String)
  | file (location : List String) (content : String)
  | free (location : List String)
deriving DecidableEq, Repr

/-- Follows the parts of a path from a directory on. -/
def follow (t : FileTree) (location : List String) : List String → Except FileError Target
  | [] => .ok (.directory location)
  | "." :: rest => follow t location rest
  | ".." :: rest => follow t location.dropLast rest
  | name :: rest =>
    let next := location ++ [name]
    match t.entry? next with
    | some .directory => follow t next rest
    | some (.file content) =>
      if rest.isEmpty then .ok (.file next content) else .error .notDirectory
    | none => if rest.isEmpty then .ok (.free next) else .error .notFound

/-- The directory that a path starts from. -/
def origin (t : FileTree) (path : String) : List String :=
  if FilePath.isRooted path then [] else t.start

/-- What the parts of a path lead to. -/
def reach (t : FileTree) (path : String) : Except FileError Target :=
  t.follow (t.origin path) ((FilePath.parts path).filter (· ≠ ""))

def endsInSlash (path : String) : Bool := path.toList.getLast? == some '/'

/-- The target of a path. One that ends in a slash leads to no file. -/
def target (t : FileTree) (path : String) : Except FileError Target :=
  if path = "" then .error .notFound
  else match t.reach path with
    | .ok (.file location content) =>
      if endsInSlash path then .error .notDirectory else .ok (.file location content)
    | r => r

def isDirectory (t : FileTree) (path : String) : Bool :=
  match t.target path with
  | .ok (.directory _) => true
  | _ => false

/-- There is a file or a directory. -/
def holds (t : FileTree) (path : String) : Bool :=
  match t.target path with
  | .ok (.directory _) | .ok (.file _ _) => true
  | _ => false

def read (t : FileTree) (path : String) : Except FileError String :=
  match t.target path with
  | .ok (.file _ content) => .ok content
  | .ok (.directory _) => .error .isDirectory
  | .ok (.free _) => .error .notFound
  | .error e => .error e

def makeDirectory (t : FileTree) (path : String) : Except FileError FileTree :=
  match t.target path with
  | .ok (.free location) => .ok (t.put location .directory)
  | .ok _ => .error .occupied
  | .error e => .error e

/-- Makes a directory and those above it; one that is there already will do. The bound is on the
number of directories above. -/
def makeAllFrom : Nat → FileTree → String → FileTree × Option FileError
  | 0, t, _ => (t, some .notFound)
  | n + 1, t, path =>
    if path = "" then (t, none)
    else match t.makeDirectory path with
      | .ok t => (t, none)
      | .error .notFound =>
        match FilePath.parent? path with
        | none => (t, some .notFound)
        | some above =>
          match makeAllFrom n t above with
          | (t, some e) => (t, some e)
          | (t, none) =>
            match t.makeDirectory path with
            | .ok t => (t, none)
            | .error e => (t, if t.isDirectory path then none else some e)
      | .error e => (t, if t.isDirectory path then none else some e)

def makeAll (t : FileTree) (path : String) : FileTree × Option FileError :=
  makeAllFrom (path.length + 1) t path

/-- Writes a file whose directory is there. -/
def store (t : FileTree) (path content : String) : Except FileError FileTree :=
  match t.target path with
  | .ok (.file location _) => .ok (t.put location (.file content))
  | .ok (.free location) =>
    if endsInSlash path then .error .isDirectory else .ok (t.put location (.file content))
  | .ok (.directory _) => .error .isDirectory
  | .error e => .error e

/-- The locations that a path passes through, its last one included. -/
def passing (location : List String) : List String → List (List String)
  | [] => []
  | "." :: rest => passing location rest
  | ".." :: rest => passing location.dropLast rest
  | name :: rest => (location ++ [name]) :: passing (location ++ [name]) rest

def way (t : FileTree) (path : String) : List (List String) :=
  passing (t.origin path) ((FilePath.parts path).filter (· ≠ ""))

/-- The entries of `t` that are not in an earlier tree. -/
def since (t earlier : FileTree) : List (List String × FileEntry) :=
  t.entries.filter fun p => earlier.entry? p.1 ≠ some p.2

/-- All entries by path, in the order of the paths. -/
def listing (t : FileTree) : List (String × FileEntry) :=
  (t.entries.map fun p => ("/".intercalate p.1, p.2)).mergeSort fun a b => a.1 ≤ b.1

end FileTree
end TypedApi
