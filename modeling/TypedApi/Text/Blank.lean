/-!
White space in the sense of Unicode, trimming, and texts seen as lists of characters.
-/
namespace TypedApi.Text

/-- Applies a function on characters to a text. -/
def mapChars (f : List Char → List Char) (s : String) : String := String.ofList (f s.toList)

@[simp] theorem toList_mapChars (f : List Char → List Char) (s : String) :
    (mapChars f s).toList = f s.toList := by
  simp [mapChars]

/-- The property White_Space. -/
def isBlank (c : Char) : Bool :=
  let n := c.toNat
  (9 ≤ n && n ≤ 13) || n == 0x20 || n == 0x85 || n == 0xA0 || n == 0x1680 ||
    (0x2000 ≤ n && n ≤ 0x200A) || n == 0x2028 || n == 0x2029 || n == 0x202F || n == 0x205F ||
    n == 0x3000

def trimStart (s : List Char) : List Char := s.dropWhile isBlank

def trimEnd (s : List Char) : List Char := (s.reverse.dropWhile isBlank).reverse

def trim (s : List Char) : List Char := trimEnd (trimStart s)

/-- Nothing is left of the text once it is trimmed. -/
def allBlank (s : String) : Bool := (trim s.toList).isEmpty

/-- Drops a text that says nothing. -/
def notBlank (s : Option String) : Option String := s.filter fun t => !allBlank t

end TypedApi.Text
