import TypedApi.Text.Case
import TypedApi.Text.Words
import TypedApi.Web.Punycode

/-!
Names of hosts in ASCII. Letters are made small, characters that count for nothing are dropped, and
a label with other characters than those of ASCII is written in Punycode after the mark `xn--`.
-/
namespace TypedApi.Domain

/-- Code points that are dropped: hyphens that do not show, joiners and variation selectors. -/
def droppedRanges : List (Nat × Nat) := [
  (0xAD, 0xAD), (0x34F, 0x34F), (0x180B, 0x180D), (0x180F, 0x180F), (0x200B, 0x200B),
  (0x2060, 0x2060), (0x2064, 0x2064), (0xFE00, 0xFE0F), (0xFEFF, 0xFEFF), (0xE0100, 0xE01EF)]

/-- Code points that no name has: controls, spaces, private use and what is no character. -/
def barredRanges : List (Nat × Nat) := [
  (0x80, 0xA0), (0x1680, 0x1680), (0x2000, 0x200A), (0x200C, 0x200F), (0x2028, 0x202F),
  (0x205F, 0x205F), (0x2061, 0x2063), (0x2066, 0x206F), (0x3000, 0x3000), (0xE000, 0xF8FF),
  (0xFDD0, 0xFDEF), (0xFFF0, 0xFFFF), (0xE0000, 0xE007F), (0xF0000, 0x10FFFF)]

/-- Characters of ASCII that no name has, apart from controls. -/
def barredAscii : List Char := " %#/:<>?@[\\]^|".toList

def isBarred (c : Char) : Bool :=
  if c.toNat < 0x80 then c.toNat < 0x20 || c.toNat == 0x7F || barredAscii.contains c
  else Text.within barredRanges c

/-- The full stops of other scripts separate labels too. -/
def isStop (c : Char) : Bool := [0x3002, 0xFF0E, 0xFF61].contains c.toNat

/-- What a character becomes in a name. Letters of full width are those of ASCII. -/
def mapChar (c : Char) : List Char :=
  if Text.within droppedRanges c then []
  else if isStop c then ['.']
  else if 0xFF01 ≤ c.toNat && c.toNat ≤ 0xFF5E then [(Char.ofNat (c.toNat - 0xFEE0)).toLower]
  else Text.lowerChar c

def mark : List Char := "xn--".toList

def isAscii (s : List Char) : Bool := s.all (·.toNat < 0x80)

/-- An encoded label has a character outside ASCII, and is made of what names are made of. -/
def isEncoded (s : List Char) : Bool :=
  (Punycode.decode? s).any fun t =>
    !isAscii t && t.all fun c => !isBarred c && mapChar c == [c]

def label? (s : List Char) : Option (List Char) :=
  if mark.isPrefixOf s then (if isEncoded (s.drop mark.length) then some s else none)
  else if isAscii s then some s
  else some (mark ++ Punycode.encode s)

/-- The name in ASCII; none if there is a character or a label that no name has. -/
def ofChars? (s : List Char) : Option (List Char) := do
  let mapped := s.flatMap mapChar
  if mapped.any isBarred then none
  let labels ← (Text.pieces (· == '.') mapped).mapM label?
  return ['.'].intercalate labels

end TypedApi.Domain
