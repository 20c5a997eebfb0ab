import TypedApi.Toml.Scalar
import TypedApi.Toml.Table

/-!
TOML texts: a sequence of headers and assignments, each on a line of its own.
-/
namespace TypedApi.Toml

private def skipSpaces (s : List Char) : List Char := s.dropWhile isSpace

/-- Skips white space, line breaks and comments. -/
private def skipFiller (inComment : Bool) : List Char → Option (List Char)
  | [] => some []
  | '\n' :: rest => skipFiller false rest
  | '\r' :: '\n' :: rest => skipFiller false rest
  | c :: rest =>
    if inComment then (if isPlain c then skipFiller true rest else none)
    else if isSpace c then skipFiller false rest
    else if c == '#' then skipFiller true rest
    else some (c :: rest)

/-- Skips the rest of a line, which may hold a comment. -/
private def skipLine (inComment : Bool) : List Char → Option (List Char)
  | [] => some []
  | '\n' :: rest => some rest
  | '\r' :: '\n' :: rest => some rest
  | c :: rest =>
    if inComment then (if isPlain c then skipLine true rest else none)
    else if isSpace c then skipLine false rest
    else if c == '#' then skipLine true rest
    else none

/-- Reads a key of one or more parts, and the spaces around it. The bound is on the number of
parts. -/
private def readParts : Nat → List Char → Option (List String × List Char)
  | 0, _ => none
  | n + 1, s => do
    let (part, rest) ← readKeyPart (skipSpaces s)
    match skipSpaces rest with
    | '.' :: rest =>
      let (parts, rest) ← readParts n rest
      return (part :: parts, rest)
    | rest => return ([part], rest)

/-- The most parts that a key may have, and the most brackets that may be open at a time. -/
def nestingLimit : Nat := 80

private def readKey (s : List Char) : Option (List String × List Char) := readParts nestingLimit s

mutual

/-- Reads a value. The first bound is on the number of steps, the second on that of brackets to be
opened. -/
private def readValue : Nat → Nat → List Char → Option (Value × List Char)
  | 0, _, _ => none
  | n + 1, depth, s =>
    match s, depth with
    | '"' :: _, _ | '\'' :: _, _ => (readString s).map fun r => (.string r.1, r.2)
    | '[' :: _, 0 | '{' :: _, 0 => none
    | '[' :: rest, depth + 1 => (readItems n depth rest).map fun r => (.array r.1, r.2)
    | '{' :: rest, depth + 1 =>
      (readEntries n depth (Table.empty .header) rest).map fun r => (r.1.value, r.2)
    | _, _ => readWord s

private def readItems : Nat → Nat → List Char → Option (List Value × List Char)
  | 0, _, _ => none
  | n + 1, depth, s => do
    match ← skipFiller false s with
    | ']' :: rest => return ([], rest)
    | s =>
      let (item, rest) ← readValue n depth s
      match ← skipFiller false rest with
      | ',' :: rest =>
        let (items, rest) ← readItems n depth rest
        return (item :: items, rest)
      | ']' :: rest => return ([item], rest)
      | _ => none

/-- Reads the entries of a table written in line and adds them to those before. -/
private def readEntries : Nat → Nat → Table → List Char → Option (Table × List Char)
  | 0, _, _, _ => none
  | n + 1, depth, t, s => do
    match ← skipFiller false s with
    | '}' :: rest => return (t, rest)
    | s =>
      let (key, rest) ← readKey s
      match ← skipFiller false rest with
      | '=' :: rest =>
        let (v, rest) ← readValue n depth (← skipFiller false rest)
        let t ← t.assign key v
        match ← skipFiller false rest with
        | ',' :: rest => readEntries n depth t rest
        | '}' :: rest => return (t, rest)
        | _ => none
      | _ => none

end

/-- What has been read of a text: the tables so far, and the path of the one that is open. -/
private structure Progress where
  root : Table
  current : List String

/-- Reads the header or assignment that the text begins with. -/
private def readLine (p : Progress) (s : List Char) : Option (Progress × List Char) :=
  match s with
  | '[' :: '[' :: rest => do
    let (path, rest) ← readKey rest
    match rest with
    | ']' :: ']' :: rest => return (⟨← p.root.openElement path, path⟩, ← skipLine false rest)
    | _ => none
  | '[' :: rest => do
    let (path, rest) ← readKey rest
    match rest with
    | ']' :: rest => return (⟨← p.root.openTable path, path⟩, ← skipLine false rest)
    | _ => none
  | _ => do
    let (path, rest) ← readKey s
    match rest with
    | '=' :: rest =>
      let (v, rest) ← readValue (s.length + 1) nestingLimit (skipSpaces rest)
      let root ← p.root.update false (·.assign path v) p.current
      return (⟨root, p.current⟩, ← skipLine false rest)
    | _ => none

private def readLines : Nat → Progress → List Char → Option Table
  | 0, _, _ => none
  | n + 1, p, s => do
    match ← skipFiller false s with
    | [] => return p.root
    | s =>
      let (p, rest) ← readLine p s
      readLines n p rest

private def skipMark : List Char → List Char
  | '\uFEFF' :: rest => rest
  | s => s

/-- The table that a text describes. -/
def ofText? (text : String) : Option Value :=
  let s := skipMark text.toList
  (readLines (s.length + 1) ⟨.empty .header, []⟩ s).map Table.value

end TypedApi.Toml
