import TypedApi.Web.Percent

/-!
The encoding of web forms: pairs of names and values.
-/
namespace TypedApi.Form

def isUnreserved (c : Char) : Bool := c.isAlphanum || "*-._".toList.contains c

/-- A byte as itself, as a plus if it is a space, or percent encoded. -/
def encodeByte (b : UInt8) : List Char :=
  let c := Char.ofNat b.toNat
  if c == ' ' then ['+'] else if isUnreserved c then [c] else Percent.ofByte b

def encode (s : String) : String := String.ofList (s.toUTF8.toList.flatMap encodeByte)

def encodePairs (pairs : List (String × String)) : String :=
  "&".intercalate (pairs.map fun p => encode p.1 ++ "=" ++ encode p.2)

end TypedApi.Form
