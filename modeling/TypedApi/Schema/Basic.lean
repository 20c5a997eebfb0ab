/-!
Schemas: nested descriptions of the shape of a payload. Everything in them is optional and nothing
is checked.
-/
namespace TypedApi

/-- A sample value. Of an object only its being one is kept; a number is a double, by its bits. -/
inductive Example
  | null
  | bool (b : Bool)
  | number (bits : UInt64)
  | string (s : String)
  | array (items : List Example)
  | object
deriving Inhabited

structure Schema where
  declaredType : Option String := none
  format : Option String := none
  properties : List (String × Schema) := []
  required : List String := []
  items : Option Schema := none
  description : Option String := none
  sample : Option Example := none
deriving Inhabited

namespace Schema

inductive Kind
  | object | array | scalar | unknown
deriving DecidableEq, Repr

def Kind.name : Kind → String
  | object => "object"
  | array => "array"
  | scalar => "scalar"
  | unknown => "unknown"

def scalarTypes : List String := ["string", "text", "文本", "integer", "number", "boolean"]

/-- The kind is what the declared type says; without one, properties make an object and items an
array. -/
def Kind.ofParts (declaredType : Option String) (hasProperties hasItems : Bool) : Kind :=
  match declaredType with
  | some "object" => .object
  | some "array" => .array
  | some t => if t ∈ scalarTypes then .scalar else .unknown
  | none =>
    if hasProperties then .object
    else if hasItems then .array
    else .unknown

def kind (s : Schema) : Kind :=
  .ofParts s.declaredType (!s.properties.isEmpty) s.items.isSome

/-- An object with at least one property. -/
def isComposite (s : Schema) : Bool := s.kind == .object && !s.properties.isEmpty

def requires (s : Schema) (name : String) : Bool := s.required.contains name

end Schema
end TypedApi
