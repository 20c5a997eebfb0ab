/-!
Naming conventions of a target language: how segments and keys become words, and which words are
reserved.
-/
namespace TypedApi

structure Convention where
  /-- A path segment as a part of a type name. -/
  segmentWord : String → String
  /-- A property key as a part of a type name. -/
  keyWord : String → String
  /-- A path segment as a function name. -/
  functionWord : String → String
  reserved : List String
  escape : String → String

namespace Convention

def isReserved (c : Convention) (name : String) : Bool := c.reserved.contains name

/-- The name itself, or its escaped form if it is reserved. -/
def safeName (c : Convention) (name : String) : String :=
  if c.isReserved name then c.escape name else name

def functionName (c : Convention) (segment : String) : String :=
  c.safeName (c.functionWord segment)

end Convention
end TypedApi
