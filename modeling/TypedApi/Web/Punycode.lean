import TypedApi.Text.Digit

/-!
Punycode: a text as letters, digits and hyphens of ASCII. The characters of ASCII come first; then
the others are inserted in the order of their code points, each by the number of steps that an
enumeration of all code points and places takes from the one before.
-/
namespace TypedApi.Punycode

def digit (n : Nat) : Char :=
  if n < 26 then Char.ofNat ('a'.toNat + n) else Char.ofNat ('0'.toNat + (n - 26))

def digitValue? (c : Char) : Option Nat :=
  if 'a' ≤ c ∧ c ≤ 'z' then some (c.toNat - 'a'.toNat)
  else if 'A' ≤ c ∧ c ≤ 'Z' then some (c.toNat - 'A'.toNat)
  else if c.isDigit then some (c.toNat - '0'.toNat + 26)
  else none

/-- The least value of a digit, by its place from one on, that is not the last of its number. -/
def threshold (bias place : Nat) : Nat := max 1 (min 26 (36 * place - bias))

theorem threshold_pos (bias place : Nat) : 1 ≤ threshold bias place := by
  unfold threshold; omega

theorem threshold_le (bias place : Nat) : threshold bias place ≤ 26 := by
  unfold threshold; omega

/-- A number in digits from the lowest on. -/
def number (bias place n : Nat) : List Char :=
  let t := threshold bias place
  if n < t then [digit n]
  else digit (t + (n - t) % (36 - t)) :: number bias (place + 1) ((n - t) / (36 - t))
termination_by n
decreasing_by
  have hpos := threshold_pos bias place
  have hle := threshold_le bias place
  have hdiv : (n - threshold bias place) / (36 - threshold bias place) ≤ n - threshold bias place :=
    Nat.div_le_self _ _
  omega

private def shrink (n places : Nat) : Nat × Nat :=
  if n ≤ 455 then (n, places) else shrink (n / 35) (places + 1)
termination_by n

/-- The bias after a number, from the count of characters that are there then. -/
def adapt (delta count : Nat) (isFirst : Bool) : Nat :=
  let halved := if isFirst then delta / 700 else delta / 2
  let (rest, places) := shrink (halved + halved / count) 0
  36 * places + 36 * rest / (rest + 38)

/-- The state of writing or reading: the steps since the last insertion or the place in the
enumeration, the bias, and the count of characters that are there. -/
structure Progress where
  delta : Nat := 0
  bias : Nat := 72
  count : Nat
  isFirst : Bool := true

/-- Passes a character while the code point `n` is inserted. -/
private def pass (n : Nat) (p : Progress) : List Char → List Char × Progress
  | [] => ([], p)
  | c :: rest =>
    if c.toNat < n then pass n { p with delta := p.delta + 1 } rest
    else if c.toNat = n then
      let next : Progress := ⟨0, adapt p.delta (p.count + 1) p.isFirst, p.count + 1, false⟩
      let (out, p') := pass n next rest
      (number p.bias 1 p.delta ++ out, p')
    else pass n p rest

/-- Inserts the code points of a list, which rise from `from` on. -/
private def insertAll (s : List Char) («from» : Nat) (p : Progress) : List Nat → List Char
  | [] => []
  | n :: ns =>
    let (out, p) := pass n { p with delta := p.delta + (n - «from») * (p.count + 1) } s
    out ++ insertAll s (n + 1) { p with delta := p.delta + 1 } ns

def encode (s : List Char) : List Char :=
  let basic := s.filter (·.toNat < 0x80)
  let others := ((s.filter (0x80 ≤ ·.toNat)).map Char.toNat).eraseDups.mergeSort
  (if basic.isEmpty then [] else basic ++ ['-']) ++
    insertAll s 0x80 { count := basic.length } others

/-- Reads a number; `weight` is that of its next digit. -/
private def readNumber? (bias : Nat) (s : List Char) (place weight value : Nat) :
    Option (Nat × { rest : List Char // rest.length < s.length }) :=
  match s with
  | [] => none
  | c :: rest => do
    let d ← digitValue? c
    let t := threshold bias place
    if d < t then return (value + d * weight, ⟨rest, by simp⟩)
    else
      let (value, ⟨rest', h⟩) ←
        readNumber? bias rest (place + 1) (weight * (36 - t)) (value + d * weight)
      return (value, ⟨rest', by simp only [List.length_cons]; omega⟩)

/-- Inserts a character for each number, where `n` is the last code point and `p.delta` the place
to go on from. -/
private def readInto? (out : List Char) (n : Nat) (p : Progress) (s : List Char) :
    Option (List Char) :=
  match s with
  | [] => some out
  | c :: rest =>
    match readNumber? p.bias (c :: rest) 1 1 0 with
    | none => none
    | some (delta, ⟨rest', h⟩) =>
      let count := p.count + 1
      let steps := p.delta + delta
      let code := n + steps / count
      let place := steps % count
      if code.isValidChar then
        readInto? (out.insertIdx place (Char.ofNat code)) code
          ⟨place + 1, adapt delta count p.isFirst, count, false⟩ rest'
      else none
termination_by s.length
decreasing_by exact h

/-- The text that is encoded, if there is one. -/
def decode? (s : List Char) : Option (List Char) :=
  let extended := (s.reverse.takeWhile (· != '-')).reverse
  let basic := (s.take (s.length - extended.length)).dropLast
  if basic.all (·.toNat < 0x80) then
    readInto? basic 0x80 { count := basic.length } extended
  else none

end TypedApi.Punycode
