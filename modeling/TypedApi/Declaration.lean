import TypedApi.Text.Blank

/-!
Type declarations, free of any one target language.
-/
namespace TypedApi

inductive Scalar
  | string
  | number
  /-- An integer of 64 bits, which a plain number may not hold exactly. -/
  | wideInteger
  | boolean
  /-- An identifier that is sent either as a string or as a number. -/
  | stringOrNumber
deriving DecidableEq, Repr

inductive TypeRef
  | scalar (s : Scalar)
  /-- The declaration of that name. -/
  | named (name : String)
  | array (element : TypeRef)
  /-- An object whose keys are not known. -/
  | openMap
  | unknown
deriving DecidableEq, Repr, Inhabited

namespace TypeRef

/-- The type under all array layers. -/
def innermost : TypeRef → TypeRef
  | array t => t.innermost
  | t => t

def isUnknown : TypeRef → Bool
  | unknown => true
  | array t => t.isUnknown
  | _ => false

end TypeRef

structure Field where
  name : String
  type : TypeRef
  optional : Bool := false
  doc : Option String := none
deriving DecidableEq, Repr

/-- A field whose documentation counts only if it says something. -/
def Field.documented (f : Field) (doc : Option String) : Field :=
  { f with doc := Text.notBlank doc }

structure Declaration where
  name : String
  doc : Option String := none
  fields : List Field := []
deriving DecidableEq, Repr

def Declaration.documented (d : Declaration) (doc : Option String) : Declaration :=
  { d with doc := Text.notBlank doc }

end TypedApi
