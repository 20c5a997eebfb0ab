import TypedApi.Text.Blank
import TypedApi.Text.Lines

/-!
Building indented code out of fragments. A fragment is a line, a block of fragments one level
deeper, or a documentation comment; no text can close a comment before its end.
-/
namespace TypedApi.Code

inductive Indent
  | spaces (width : Nat)
  | tab
deriving DecidableEq, Repr

/-- Widths other than 4 and 8 count as 2. -/
def Indent.text : Indent → String
  | spaces 4 => "    "
  | spaces 8 => "        "
  | spaces _ => "  "
  | tab => "\t"

inductive Fragment
  | line (s : String)
  | block (header : String) (body : List Fragment) (close : Option String)
  /-- A comment on one line. -/
  | doc (s : String)
  /-- A comment over several lines. -/
  | docLines (lines : List String)
deriving Inhabited

/-- A comment, spread over lines if the text has line breaks. -/
def Fragment.ofDoc (s : String) : Fragment :=
  if s.toList.contains '\n' then .docLines ((Text.lines s.toList).map String.ofList) else .doc s

/-- Puts a backslash between a star and a slash. -/
def splitTerminators : List Char → List Char
  | '*' :: '/' :: rest => '*' :: '\\' :: '/' :: splitTerminators rest
  | c :: rest => c :: splitTerminators rest
  | [] => []

/-- Free text made safe for the inside of a comment. -/
def escapeDoc (s : List Char) : List Char := splitTerminators (Text.trimEnd s)

structure Builder where
  indent : Indent := .spaces 2
  level : Nat := 0
  text : String := ""

namespace Builder

def margin (b : Builder) : String := String.join (List.replicate b.level b.indent.text)

def append (b : Builder) (s : String) : Builder := { b with text := b.text ++ s }

def line (b : Builder) (s : String) : Builder := b.append (b.margin ++ s ++ "\n")

def blank (b : Builder) : Builder := b.append "\n"

def deeper (b : Builder) : Builder := { b with level := b.level + 1 }

/-- There is no level below the outermost. -/
def shallower (b : Builder) : Builder := { b with level := b.level - 1 }

def doc (b : Builder) (s : String) : Builder :=
  b.append (b.margin ++ "/** " ++ Text.mapChars escapeDoc s ++ " */\n")

def docLine (s : String) : String :=
  let escaped := Text.mapChars escapeDoc s
  if escaped = "" then " *" else " * " ++ escaped

def docLines (b : Builder) (lines : List String) : Builder :=
  (lines.foldl (fun b s => b.line (docLine s)) (b.line "/**")).line " */"

mutual

def apply (b : Builder) : Fragment → Builder
  | .line s => b.line s
  | .doc s => b.doc s
  | .docLines lines => b.docLines lines
  | .block header body close =>
    let b := ((b.line header).deeper.applyAll body).shallower
    match close with
    | some s => b.line s
    | none => b

def applyAll (b : Builder) : List Fragment → Builder
  | [] => b
  | f :: fs => (b.apply f).applyAll fs

end

/-- Groups of fragments with a blank line between any two. -/
def applyGroups (b : Builder) : List (List Fragment) → Builder
  | [] => b
  | [group] => b.applyAll group
  | group :: groups => (b.applyAll group).blank.applyGroups groups

end Builder
end TypedApi.Code
