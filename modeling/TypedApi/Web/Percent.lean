import TypedApi.Text.Digit

/-!
Percent encoding: a byte is written as a percent sign and two hexadecimal digits.
-/
namespace TypedApi.Percent

def ofByte (b : UInt8) : List Char :=
  ['%', Text.upperHexDigit (b.toNat / 16), Text.upperHexDigit (b.toNat % 16)]

def bytesOf (c : Char) : List UInt8 := (String.singleton c).toUTF8.toList

/-- Visible or a space, and of ASCII. -/
def isPrintable (c : Char) : Bool := 0x20 ≤ c.toNat && c.toNat < 0x7F

/-- A printable character that need not be escaped stays; of others each byte is encoded. -/
def encodeChar (escaped : List Char) (c : Char) : List Char :=
  if isPrintable c && !escaped.contains c then [c] else (bytesOf c).flatMap ofByte

def encode (escaped s : List Char) : List Char := s.flatMap (encodeChar escaped)

/-- The bytes that a text stands for. A percent sign without two digits stands for itself. -/
def decode : List Char → List UInt8
  | [] => []
  | [c] => bytesOf c
  | [c, d] => bytesOf c ++ bytesOf d
  | c :: a :: b :: rest =>
    match c, Text.hexValue? a, Text.hexValue? b with
    | '%', some high, some low => UInt8.ofNat (16 * high + low) :: decode rest
    | _, _, _ => bytesOf c ++ decode (a :: b :: rest)

/-- The text that an encoded text stands for, if its bytes are one. -/
def decodeText? (s : List Char) : Option String := String.fromUTF8? ⟨(decode s).toArray⟩

end TypedApi.Percent
