import TypedApi.Text.Digit
import TypedApi.Text.Words
import TypedApi.Toml.Value

/-!
Scalars of TOML: strings in their four notations, numbers and booleans, and the keys, which share
the notations of strings.
-/
namespace TypedApi.Toml

private def push (c : Char) (r : List Char × List Char) : List Char × List Char := (c :: r.1, r.2)

/-- Control characters other than the tab may stand nowhere. -/
def isPlain (c : Char) : Bool := c == '\t' || (0x20 ≤ c.toNat && c.toNat ≠ 0x7F)

def isSpace (c : Char) : Bool := c == ' ' || c == '\t'

/-- The character with that code, if there is one. -/
private def coded? (digits : List Char) : Option Char := do
  let n ← Text.hexNumber? digits
  if h : n.isValidChar then some (Char.ofNatAux n h) else none

private def escaped? : Char → Option Char
  | '"' => some '"'
  | '\\' => some '\\'
  | 'b' => some '\x08'
  | 't' => some '\t'
  | 'n' => some '\n'
  | 'f' => some '\x0c'
  | 'r' => some '\r'
  | 'e' => some '\x1b'
  | _ => none

/-- Reads a basic string after its opening quote. -/
private def readBasic : List Char → Option (List Char × List Char)
  | [] => none
  | '"' :: rest => some ([], rest)
  | '\\' :: 'x' :: a :: b :: rest => do
    let c ← coded? [a, b]
    (readBasic rest).map (push c)
  | '\\' :: 'u' :: a :: b :: c :: d :: rest => do
    let c ← coded? [a, b, c, d]
    (readBasic rest).map (push c)
  | '\\' :: 'U' :: a :: b :: c :: d :: e :: f :: g :: h :: rest => do
    let c ← coded? [a, b, c, d, e, f, g, h]
    (readBasic rest).map (push c)
  | '\\' :: c :: rest => do
    let c ← escaped? c
    (readBasic rest).map (push c)
  | c :: rest => if isPlain c then (readBasic rest).map (push c) else none

/-- Only spaces stand before the end of the line. -/
private def endsLine : List Char → Bool
  | '\n' :: _ => true
  | '\r' :: '\n' :: _ => true
  | c :: rest => isSpace c && endsLine rest
  | [] => false

/-- Reads a basic string over several lines after its opening quotes. Up to two quotes may stand
directly before the closing ones. A backslash at the end of a line takes away the white space up to
the next visible character; `skipping` tells that such a gap is being read. -/
private def readBasicLines (skipping : Bool) : List Char → Option (List Char × List Char)
  | [] => none
  | '"' :: '"' :: '"' :: '"' :: '"' :: rest => some (['"', '"'], rest)
  | '"' :: '"' :: '"' :: '"' :: rest => some (['"'], rest)
  | '"' :: '"' :: '"' :: rest => some ([], rest)
  | '\r' :: '\n' :: rest =>
    if skipping then readBasicLines true rest
    else (readBasicLines false rest).map fun r => ('\r' :: '\n' :: r.1, r.2)
  | '\\' :: 'x' :: a :: b :: rest => do
    let c ← coded? [a, b]
    (readBasicLines false rest).map (push c)
  | '\\' :: 'u' :: a :: b :: c :: d :: rest => do
    let c ← coded? [a, b, c, d]
    (readBasicLines false rest).map (push c)
  | '\\' :: 'U' :: a :: b :: c :: d :: e :: f :: g :: h :: rest => do
    let c ← coded? [a, b, c, d, e, f, g, h]
    (readBasicLines false rest).map (push c)
  | '\\' :: c :: rest =>
    if endsLine (c :: rest) then readBasicLines true (c :: rest)
    else do
      let c ← escaped? c
      (readBasicLines false rest).map (push c)
  | c :: rest =>
    if skipping && (isSpace c || c == '\n') then readBasicLines true rest
    else if c == '\n' || (isPlain c && c ≠ '\\') then (readBasicLines false rest).map (push c)
    else none

/-- Reads a literal string after its opening quote. -/
private def readLiteral : List Char → Option (List Char × List Char)
  | [] => none
  | '\'' :: rest => some ([], rest)
  | c :: rest => if isPlain c then (readLiteral rest).map (push c) else none

private def readLiteralLines : List Char → Option (List Char × List Char)
  | [] => none
  | '\'' :: '\'' :: '\'' :: '\'' :: '\'' :: rest => some (['\'', '\''], rest)
  | '\'' :: '\'' :: '\'' :: '\'' :: rest => some (['\''], rest)
  | '\'' :: '\'' :: '\'' :: rest => some ([], rest)
  | '\r' :: '\n' :: rest => (readLiteralLines rest).map fun r => ('\r' :: '\n' :: r.1, r.2)
  | c :: rest => if isPlain c || c == '\n' then (readLiteralLines rest).map (push c) else none

/-- A line break directly after the opening quotes does not count. -/
private def skipFirstBreak : List Char → List Char
  | '\n' :: rest => rest
  | '\r' :: '\n' :: rest => rest
  | s => s

private def asString (r : Option (List Char × List Char)) : Option (String × List Char) :=
  r.map fun r => (.ofList r.1, r.2)

def readString : List Char → Option (String × List Char)
  | '"' :: '"' :: '"' :: rest => asString (readBasicLines false (skipFirstBreak rest))
  | '"' :: rest => asString (readBasic rest)
  | '\'' :: '\'' :: '\'' :: rest => asString (readLiteralLines (skipFirstBreak rest))
  | '\'' :: rest => asString (readLiteral rest)
  | _ => none

private def isBareKey (c : Char) : Bool := c.isAlphanum || c == '_' || c == '-'

/-- Reads one part of a key. -/
def readKeyPart : List Char → Option (String × List Char)
  | '"' :: rest => asString (readBasic rest)
  | '\'' :: rest => asString (readLiteral rest)
  | s =>
    match s.takeWhile isBareKey with
    | [] => none
    | cs => some (.ofList cs, s.dropWhile isBareKey)

/-- The characters of a number without the underscores, each of which stands between two digits. -/
private def joined? (isDigit : Char → Bool) (s : List Char) : Option (List Char) :=
  match Text.pieces (· == '_') s with
  | [] => none
  | first :: later =>
    if later.all (·.head?.any isDigit) && (first :: later).dropLast.all (·.getLast?.any isDigit)
    then some (first :: later).flatten
    else none

private def isHexDigit (c : Char) : Bool := (Text.hexValue? c).isSome

private def splitSign : List Char → Bool × List Char
  | '-' :: rest => (true, rest)
  | '+' :: rest => (false, rest)
  | s => (false, s)

/-- The number that a sign and digits write. -/
private def number? (base : Nat) (s : List Char) : Option Int :=
  let (negative, digits) := splitSign s
  let isDigit (c : Char) := (Text.hexValue? c).any (· < base)
  if digits.isEmpty || !digits.all isDigit then none
  else if negative then some (-(Text.natural base digits : Int))
  else some (Text.natural base digits)

/-- An integer after the mark of its base. -/
private def based? (base : Nat) (s : List Char) : Option Value :=
  let isDigit (c : Char) := (Text.hexValue? c).any (· < base)
  if s.all fun c => isDigit c || c == '_' then
    (joined? isHexDigit s).map fun ds => .integer (number? base ds)
  else none

/-- Skips digits and underscores, among which there is a digit. -/
private def skipDigits? (s : List Char) : Option (List Char) :=
  let isPart (c : Char) := c.isDigit || c == '_'
  if (s.takeWhile isPart).any Char.isDigit then some (s.dropWhile isPart) else none

private def skipFraction? : List Char → Option (List Char)
  | '.' :: s => skipDigits? s
  | s => some s

private def skipExponent? : List Char → Option (List Char)
  | 'e' :: s | 'E' :: s => skipDigits? (splitSign s).2
  | s => some s

/-- More than one digit, of which the first is a zero. -/
private def hasSpareZero (s : List Char) : Bool :=
  s.head? == some '0' && (s.takeWhile fun c => c.isDigit || c == '_').countP Char.isDigit > 1

/-- Whether a text without sign is a float, the places of underscores aside. -/
private def isFloat (s : List Char) : Bool :=
  !hasSpareZero s && ((skipDigits? s).bind skipFraction?).bind skipExponent? == some []

/-- Reads a number or a date that begins, after its sign, with decimal digits. What follows them
tells the kinds apart. The digits of an integer are looked at as far as underscores ask for it. -/
private def decimal? (word s : List Char) : Option Value :=
  match s.dropWhile Char.isDigit with
  | '-' :: _ | ':' :: _ => (DateTime.ofChars? word).map .dateTime
  | tail =>
    if tail.any fun c => c == '.' || c == 'e' || c == 'E' then
      if isFloat s then (joined? Char.isDigit word).map fun ds => .float (.ofList ds) else none
    else if !tail.isEmpty && tail.head? != some '_' then none
    else if s.head? == some '0' && s.length > 1 then none
    else (joined? isHexDigit word).map fun ds => .integer (number? 10 ds)

private def word? (word : List Char) : Option Value :=
  let (_, s) := splitSign word
  let signed := s.length != word.length
  if word == "true".toList then some (.boolean true)
  else if word == "false".toList then some (.boolean false)
  else if s == "inf".toList || s == "nan".toList then some (.float (.ofList word))
  else match s with
    | '0' :: 'x' :: ds => if signed then none else based? 16 ds
    | '0' :: 'o' :: ds => if signed then none else based? 8 ds
    | '0' :: 'b' :: ds => if signed then none else based? 2 ds
    | c :: _ => if c.isDigit || c == '_' then decimal? word s else none
    | [] => none

/-- Words end at white space, at a comment, and at the marks of arrays, tables and assignments. -/
private def wordEnds : List Char := ['=', ',', '[', ']', '{', '}', ' ', '\t', '#', '\r', '\n']

private def isWordChar (c : Char) : Bool := !wordEnds.contains c

/-- Splits the first word off. A date and the time after a space are one word. -/
private def splitWord (s : List Char) : List Char × List Char :=
  let word := s.takeWhile isWordChar
  match s.dropWhile isWordChar with
  | ' ' :: rest =>
    if (DateTime.ofChars? word).any DateTime.isDate && rest.head?.any isWordChar then
      (word ++ ' ' :: rest.takeWhile isWordChar, rest.dropWhile isWordChar)
    else (word, ' ' :: rest)
  | rest => (word, rest)

/-- Reads a boolean, a number or a date. -/
def readWord (s : List Char) : Option (Value × List Char) :=
  let (word, rest) := splitWord s
  (word? word).map fun v => (v, rest)

end TypedApi.Toml
