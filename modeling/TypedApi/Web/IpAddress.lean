import TypedApi.Text.Digit
import TypedApi.Text.Words

/-!
Internet addresses of both lengths: how they are read, and the one way in which each is written.
-/
namespace TypedApi

/-- An address of four bytes, as one number. -/
structure Ipv4 where
  value : Nat
deriving DecidableEq, Repr

namespace Ipv4

/-- A part of an address in base ten, sixteen or eight; a mark without digits stands for zero. -/
def part? : List Char → Option Nat
  | [] => none
  | '0' :: 'x' :: ds | '0' :: 'X' :: ds =>
    if ds.all fun c => (Text.hexValue? c).isSome then some (Text.natural 16 ds) else none
  | '0' :: d :: ds =>
    if (d :: ds).all fun c => '0' ≤ c && c ≤ '7' then some (Text.natural 8 (d :: ds)) else none
  | ds => if ds.all Char.isDigit then some (Text.natural 10 ds) else none

/-- The parts between points, without the empty one after a point at the end. -/
def parts (s : List Char) : List (List Char) :=
  let ps := Text.pieces (· == '.') s
  if ps.length > 1 && ps.getLast? == some [] then ps.dropLast else ps

/-- A host name whose last part is a number can only be an address. -/
def endsInNumber (s : List Char) : Bool :=
  (parts s).getLast?.any fun p => !p.isEmpty && (p.all Char.isDigit || (part? p).isSome)

/-- All parts but the last are bytes; the last one fills the bytes that are left. -/
def ofParts? : Nat → List Nat → Option Nat
  | _, [] => none
  | 0, _ => none
  | room + 1, [last] => if last < 256 ^ (room + 1) then some last else none
  | room + 1, p :: ps =>
    if p < 256 then (ofParts? room ps).map (p * 256 ^ room + ·) else none

def ofChars? (s : List Char) : Option Ipv4 := do
  return ⟨← ofParts? 4 (← (parts s).mapM part?)⟩

def text (a : Ipv4) : String :=
  ".".intercalate ([0x1000000, 0x10000, 0x100, 1].map fun unit => toString (a.value / unit % 0x100))

end Ipv4

/-- An address of eight pieces, each of two bytes. -/
structure Ipv6 where
  pieces : List Nat
deriving DecidableEq, Repr

namespace Ipv6

def piece? (s : List Char) : Option Nat :=
  if 1 ≤ s.length && s.length ≤ 4 then Text.hexNumber? s else none

/-- A decimal byte without zeros in front. -/
def byte? (s : List Char) : Option Nat :=
  if !s.isEmpty && s.all Char.isDigit && (s.length == 1 || s.head? != some '0') then
    let n := Text.natural 10 s
    if n < 256 then some n else none
  else none

/-- The two pieces that four decimal bytes make. -/
def dotted? (s : List Char) : Option (List Nat) := do
  match ← (Text.pieces (· == '.') s).mapM byte? with
  | [a, b, c, d] => return [256 * a + b, 256 * c + d]
  | _ => none

/-- Pieces between colons; the last one may be two pieces in decimal bytes. -/
def piecesOf? : List (List Char) → Option (List Nat)
  | [] => some []
  | [s] => if s.contains '.' then dotted? s else (piece? s).map ([·])
  | s :: rest => do return (← piece? s) :: (← piecesOf? rest)

def listOf? (s : List Char) : Option (List Nat) :=
  if s.isEmpty then some [] else piecesOf? (Text.pieces (· == ':') s)

/-- What stands before and after the first double colon. -/
def splitGap : List Char → List Char × Option (List Char)
  | ':' :: ':' :: rest => ([], some rest)
  | c :: rest =>
    let (before, after) := splitGap rest
    (c :: before, after)
  | [] => ([], none)

/-- A double colon stands for the zeros that are missing, of which there is at least one. -/
def ofChars? (s : List Char) : Option Ipv6 :=
  match splitGap s with
  | (s, none) => do
    let ps ← listOf? s
    if ps.length = 8 then some ⟨ps⟩ else none
  | (before, some after) => do
    if before.contains '.' then none
    let ps ← listOf? before
    let qs ← listOf? after
    if ps.length + qs.length < 8 then
      some ⟨ps ++ List.replicate (8 - ps.length - qs.length) 0 ++ qs⟩
    else none

/-- The number of zeros from a place on. -/
def zerosFrom (ps : List Nat) (i : Nat) : Nat := ((ps.drop i).takeWhile (· == 0)).length

/-- The place of the first of the longest runs of zeros. -/
def longestRun (ps : List Nat) : Nat :=
  (List.range ps.length).foldl (fun best i =>
    if zerosFrom ps best < zerosFrom ps i then i else best) 0

def lowerHex (n : Nat) : String := String.ofList (Nat.toDigits 16 n)

def joinPieces (ps : List Nat) : String := ":".intercalate (ps.map lowerHex)

/-- The longest run of two or more zeros is left out. -/
def text (a : Ipv6) : String :=
  let start := longestRun a.pieces
  let count := zerosFrom a.pieces start
  if count < 2 then joinPieces a.pieces
  else joinPieces (a.pieces.take start) ++ "::" ++ joinPieces (a.pieces.drop (start + count))

end Ipv6
end TypedApi
