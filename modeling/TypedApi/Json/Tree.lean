import TypedApi.Json.Number
import TypedApi.Text.Blank
import TypedApi.Text.Digit

/-!
JSON texts by their grammar alone. A tree keeps repeated members, the digits of its numbers, and
strings whose escapes leave half of a surrogate pair; whether those are acceptable is for the
reader of the tree to say.
-/
namespace TypedApi.Json

/-- A string is `none` when an unpaired surrogate keeps it from being a text. -/
inductive Tree
  | null
  | bool (b : Bool)
  | number (l : Literal)
  | string (s : Option String)
  | array (items : List Tree)
  | object (members : List (Option String × Tree))
deriving Inhabited

namespace Tree

private def isSpace (c : Char) : Bool := c == ' ' || c == '\t' || c == '\n' || c == '\r'

private def skipSpace (s : List Char) : List Char := s.dropWhile isSpace

private def escape? : Char → Option Char
  | '"' => some '"'
  | '\\' => some '\\'
  | '/' => some '/'
  | 'b' => some '\x08'
  | 'f' => some '\x0c'
  | 'n' => some '\n'
  | 'r' => some '\r'
  | 't' => some '\t'
  | _ => none

private def isHigh (n : Nat) : Bool := 0xD800 ≤ n && n < 0xDC00

private def isLow (n : Nat) : Bool := 0xDC00 ≤ n && n < 0xE000

private abbrev Chars := Option (List Char) × List Char

private def Chars.push (c : Char) (r : Chars) : Chars := (r.1.map (c :: ·), r.2)

private def Chars.spoil (r : Chars) : Chars := (none, r.2)

/-- Reads a string after its opening quote, up to and with the closing one. `high` is the first
half of a surrogate pair that has just been read. -/
private def readChars (high : Option Nat) : List Char → Option Chars
  | [] => none
  | '"' :: rest => some (if high.isSome then none else some [], rest)
  | '\\' :: 'u' :: a :: b :: c :: d :: rest => do
    let unit ← Text.hexNumber? [a, b, c, d]
    match high with
    | some h =>
      if isLow unit then
        return (← readChars none rest).push
          (Char.ofNat (0x10000 + (h - 0xD800) * 0x400 + (unit - 0xDC00)))
      else return (← readChars (if isHigh unit then some unit else none) rest).spoil
    | none =>
      if isHigh unit then readChars (some unit) rest
      else if isLow unit then return (← readChars none rest).spoil
      else return (← readChars none rest).push (Char.ofNat unit)
  | '\\' :: c :: rest => do
    let e ← escape? c
    let r ← readChars none rest
    return if high.isSome then r.spoil else r.push e
  | c :: rest =>
    if c.toNat < 0x20 then none
    else do
      let r ← readChars none rest
      return if high.isSome then r.spoil else r.push c

private def readString (s : List Char) : Option (Option String × List Char) :=
  (readChars none s).map fun r => (r.1.map String.ofList, r.2)

private def readExponent (s : List Char) : Option (Option (Bool × List Char) × List Char) :=
  match s with
  | 'e' :: rest | 'E' :: rest =>
    let (negative, rest) := match rest with
      | '-' :: r => (true, r)
      | '+' :: r => (false, r)
      | r => (false, r)
    match rest.takeWhile Char.isDigit with
    | [] => none
    | ds => some (some (negative, ds), rest.dropWhile Char.isDigit)
  | _ => some (none, s)

private def readFraction (s : List Char) : Option (List Char × List Char) :=
  match s with
  | '.' :: rest =>
    match rest.takeWhile Char.isDigit with
    | [] => none
    | ds => some (ds, rest.dropWhile Char.isDigit)
  | _ => some ([], s)

private def readWhole (s : List Char) : Option (List Char × List Char) :=
  match s with
  | '0' :: rest => some (['0'], rest)
  | _ =>
    match s.takeWhile Char.isDigit with
    | [] => none
    | ds => some (ds, s.dropWhile Char.isDigit)

private def readNumber (s : List Char) : Option (Literal × List Char) := do
  let (negative, s) := match s with
    | '-' :: r => (true, r)
    | _ => (false, s)
  let (whole, s) ← readWhole s
  let (fraction, s) ← readFraction s
  let (exponent, s) ← readExponent s
  return (⟨negative, whole, fraction, exponent⟩, s)

mutual

/-- Reads a value and returns what follows it; the bound is on the number of steps. -/
private def read : Nat → List Char → Option (Tree × List Char)
  | 0, _ => none
  | n + 1, s =>
    match skipSpace s with
    | 'n' :: 'u' :: 'l' :: 'l' :: rest => some (null, rest)
    | 't' :: 'r' :: 'u' :: 'e' :: rest => some (bool true, rest)
    | 'f' :: 'a' :: 'l' :: 's' :: 'e' :: rest => some (bool false, rest)
    | '"' :: rest => (readString rest).map fun r => (string r.1, r.2)
    | '[' :: rest =>
      match skipSpace rest with
      | ']' :: rest => some (array [], rest)
      | rest => (readItems n rest).map fun r => (array r.1, r.2)
    | '{' :: rest =>
      match skipSpace rest with
      | '}' :: rest => some (object [], rest)
      | rest => (readMembers n rest).map fun r => (object r.1, r.2)
    | rest => (readNumber rest).map fun r => (number r.1, r.2)

private def readItems : Nat → List Char → Option (List Tree × List Char)
  | 0, _ => none
  | n + 1, s => do
    let (item, rest) ← read n s
    match skipSpace rest with
    | ',' :: rest =>
      let (items, rest) ← readItems n rest
      return (item :: items, rest)
    | ']' :: rest => return ([item], rest)
    | _ => none

private def readMembers : Nat → List Char → Option (List (Option String × Tree) × List Char)
  | 0, _ => none
  | n + 1, s =>
    match skipSpace s with
    | '"' :: rest => do
      let (key, rest) ← readString rest
      match skipSpace rest with
      | ':' :: rest =>
        let (value, rest) ← read n rest
        match skipSpace rest with
        | ',' :: rest =>
          let (members, rest) ← readMembers n rest
          return ((key, value) :: members, rest)
        | '}' :: rest => return ([(key, value)], rest)
        | _ => none
      | _ => none
    | _ => none

end

/-- The tree of a text that holds one value and nothing else. -/
def ofText? (text : String) : Option Tree :=
  match read (text.length + 1) text.toList with
  | some (tree, rest) => if (skipSpace rest).isEmpty then some tree else none
  | none => none

private theorem isDigit_of_blank {c : Char} (h : Text.isBlank c = true) : c.isDigit = false := by
  simp only [Text.isBlank, Bool.or_eq_true, Bool.and_eq_true, decide_eq_true_eq, beq_iff_eq] at h
  cases hd : c.isDigit with
  | false => rfl
  | true =>
    simp only [Char.isDigit, Bool.and_eq_true, decide_eq_true_eq, ge_iff_le,
      UInt32.le_iff_toNat_le] at hd
    have hlow : 48 ≤ c.toNat := hd.1
    have hhigh : c.toNat ≤ 57 := hd.2
    omega

private theorem readNumber_of_blank {s : List Char} (h : ∀ c ∈ s, Text.isBlank c = true) :
    readNumber s = none := by
  cases s with
  | nil => rfl
  | cons c rest =>
    have hc : Text.isBlank c = true := h c (List.mem_cons_self ..)
    have hsign : c ≠ '-' := by
      rintro rfl
      exact absurd hc (by decide)
    have hzero : c ≠ '0' := by
      rintro rfl
      exact absurd hc (by decide)
    have hwhole : readWhole (c :: rest) = none := by
      simp [readWhole, hzero, isDigit_of_blank hc]
    simp [readNumber, hsign, hwhole]

/-- White space holds no value. -/
theorem ofText?_of_blank {text : String} (h : ∀ c ∈ text.toList, Text.isBlank c = true) :
    ofText? text = none := by
  have hskip : ∀ c ∈ skipSpace text.toList, Text.isBlank c = true :=
    fun c hc => h c ((List.dropWhile_sublist _).subset hc)
  have hread : read (text.length + 1) text.toList = none := by
    rw [read]
    split
    case h_7 => rw [readNumber_of_blank hskip, Option.map_none]
    -- Every other form of a value begins with a character that is not blank.
    all_goals
      next hs =>
        rw [hs] at hskip
        exact absurd (hskip _ (List.mem_cons_self ..)) (by decide)
  rw [ofText?, hread]

private def writeChar (c : Char) : List Char :=
  if c = '"' then ['\\', '"']
  else if c = '\\' then ['\\', '\\']
  else if c = '\n' then ['\\', 'n']
  else if c = '\r' then ['\\', 'r']
  else if c = '\t' then ['\\', 't']
  else if c = '\x08' then ['\\', 'b']
  else if c = '\x0c' then ['\\', 'f']
  else if c.toNat < 0x20 then
    ['\\', 'u', '0', '0', Text.lowerHexDigit (c.toNat / 16), Text.lowerHexDigit (c.toNat % 16)]
  else [c]

private def writeString : Option String → List Char
  | some s => '"' :: s.toList.flatMap writeChar ++ ['"']
  | none => "\"\\ud800\"".toList

private def writeNumber (l : Literal) : List Char :=
  (if l.negative then ['-'] else []) ++ l.whole ++
    (if l.fraction.isEmpty then [] else '.' :: l.fraction) ++
    match l.exponent with
    | none => []
    | some (negative, ds) => 'e' :: (if negative then '-' :: ds else ds)

mutual

private def write : Tree → List Char
  | null => "null".toList
  | bool b => (if b then "true" else "false").toList
  | number l => writeNumber l
  | string s => writeString s
  | array items => '[' :: writeItems items
  | object members => '{' :: writeMembers members

private def writeItems : List Tree → List Char
  | [] => [']']
  | [item] => write item ++ [']']
  | item :: items => write item ++ ',' :: writeItems items

private def writeMembers : List (Option String × Tree) → List Char
  | [] => ['}']
  | [(key, value)] => writeString key ++ ':' :: write value ++ ['}']
  | (key, value) :: members =>
    writeString key ++ ':' :: write value ++ ',' :: writeMembers members

end

/-- The tree as a text without white space. -/
def toText (tree : Tree) : String := String.ofList (write tree)

end Tree
end TypedApi.Json
