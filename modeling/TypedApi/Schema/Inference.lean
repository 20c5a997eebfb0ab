import TypedApi.Declaration
import TypedApi.Endpoint
import TypedApi.Text.Case
import TypedApi.Text.Lines

/-!
The type of a property or parameter, from the first of four sources that gives one: the declared
type, the name (parameters only), the sample value, and at last `unknown`.
-/
namespace TypedApi

/-- The source a type was taken from. -/
inductive Tier
  | declared | name | sample | fallback
deriving DecidableEq, Repr

structure Inference where
  type : TypeRef
  tier : Tier
  /-- A value may not survive as a number of the target. -/
  lossy : Bool := false
deriving DecidableEq, Repr

def isInt64 (format : Option String) : Bool :=
  match format with
  | some f => f.toList.map Char.toLower == "int64".toList
  | none => false

/-- The scalar that a declared type names; integers of 64 bits are told by their format. -/
def Scalar.ofDeclared? (name : String) (format : Option String) : Option Scalar :=
  match name with
  | "string" | "text" | "文本" => some .string
  | "boolean" => some .boolean
  | "integer" | "number" => some (if isInt64 format then .wideInteger else .number)
  | _ => none

def declaredScalar (s : Scalar) : Inference :=
  ⟨.scalar s, .declared, s == .wideInteger⟩

/-- The type suggested by what a parameter is called. -/
def TypeRef.ofName? (name : String) : Option TypeRef :=
  let word := Text.lower name.toList
  let mentions (part : String) : Bool := Text.occursIn part.toList word
  if mentions "id" && !mentions "idea" && !mentions "hide" then some (.scalar .stringOrNumber)
  else if mentions "time" || mentions "date" then some (.scalar .string)
  else if mentions "count" || mentions "amount" || mentions "price" || mentions "quantity" then
    some (.scalar .number)
  else if mentions "is" || mentions "has" || mentions "enable" || mentions "disable" then
    some (.scalar .boolean)
  else none

mutual

/-- The type of a sample value; an array is typed by its first entry. -/
def TypeRef.ofSample? : Example → Option TypeRef
  | .null => none
  | .string s => if s = "" then none else some (.scalar .string)
  | .number _ => some (.scalar .number)
  | .bool _ => some (.scalar .boolean)
  | .array items => some (.array (elementType items))
  | .object => some .openMap

def elementType : List Example → TypeRef
  | [] => .unknown
  | e :: _ => (TypeRef.ofSample? e).getD .unknown

end

def sampled (sample : Option Example) : Inference :=
  match sample.bind TypeRef.ofSample? with
  | some t => ⟨t, .sample, false⟩
  | none => ⟨.unknown, .fallback, false⟩

/-- The type of a schema. `nested` names the declaration made for the object with properties that
the schema is, or whose array it is; the elements of an array may use every source. -/
def Schema.infer (nested : Option String) : Schema → Inference
  | ⟨declaredType, format, properties, _, items, _, sample⟩ =>
    match Kind.ofParts declaredType (!properties.isEmpty) items.isSome with
    | .object =>
      match nested with
      | some name => ⟨if properties.isEmpty then .openMap else .named name, .declared, false⟩
      | none => ⟨.openMap, .declared, false⟩
    | .array =>
      match items with
      | some element =>
        let i := element.infer nested
        ⟨.array i.type, .declared, i.lossy⟩
      | none => ⟨.array .unknown, .declared, false⟩
    | .scalar =>
      match declaredType.bind (Scalar.ofDeclared? · format) with
      | some t => declaredScalar t
      | none => sampled sample
    | .unknown => sampled sample

def declaredParameter (name : String) : Option Inference :=
  match name with
  | "object" => some ⟨.openMap, .declared, false⟩
  | "array" => some ⟨.array .unknown, .declared, false⟩
  | _ => (Scalar.ofDeclared? name none).map declaredScalar

def Parameter.infer (p : Parameter) : Inference :=
  match p.declaredType.bind declaredParameter with
  | some i => i
  | none =>
    match TypeRef.ofName? p.name with
    | some t => ⟨t, .name, false⟩
    | none => sampled p.sample

end TypedApi
