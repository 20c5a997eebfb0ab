import TypedApi.Text.Words

/-!
Lines of a text, and joining and searching texts.
-/
namespace TypedApi.Text

def dropReturn (line : List Char) : List Char :=
  if line.getLast? = some '\r' then line.dropLast else line

/-- Lines end at a line feed, with or without a carriage return before it; the part after the last
line feed is a line only if it is not empty. -/
def lines (s : List Char) : List (List Char) :=
  let parts := pieces (· == '\n') s
  let ended := parts.dropLast.map dropReturn
  match parts.getLast? with
  | none | some [] => ended
  | some last => ended ++ [last]

/-- `needle` occurs in the text. -/
def occursIn (needle : List Char) : List Char → Bool
  | [] => needle.isEmpty
  | c :: rest => needle.isPrefixOf (c :: rest) || occursIn needle rest

/-- Text before the first occurrence of `needle`. -/
def before? (needle : List Char) : List Char → Option (List Char)
  | [] => if needle.isEmpty then some [] else none
  | c :: rest =>
    if needle.isPrefixOf (c :: rest) then some [] else (before? needle rest).map (c :: ·)

end TypedApi.Text
