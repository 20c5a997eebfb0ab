import TypedApi.DeclarationTree
import TypedApi.Naming.Derivation
import TypedApi.Schema.Inference
import TypedApi.Walk

/-!
The declarations of a payload. Nothing about a payload can fail here except that a name is taken
and collisions are to be rejected; what cannot be declared leaves a declaration without fields and
a diagnostic.
-/
namespace TypedApi

/-- The number of array layers around an object with properties; none if there is no such object
under them. -/
def Schema.layersToObject? : Schema → Option Nat
  | ⟨declaredType, _, properties, _, items, _, _⟩ =>
    match Kind.ofParts declaredType (!properties.isEmpty) items.isSome with
    | .object => if properties.isEmpty then none else some 0
    | .array =>
      match items with
      | some element => element.layersToObject?.map (· + 1)
      | none => none
    | _ => none

namespace DeclarationTree

/-- What stands for a key without identifier characters at this place. -/
def positionWord (position : Nat) : String := "Field" ++ toString (position + 1)

def keyWord (owner key : String) (position : Nat) : Walk String := do
  let convention ← Walk.convention
  let word := convention.keyWord key
  if word ≠ "" then return word
  else
    let fallback := positionWord position
    let message := "key '" ++ key ++ "' has no identifier characters; using '" ++ fallback ++ "'"
    Walk.report ⟨.warning, .naming, message, some (owner ++ "." ++ key)⟩
    return fallback

/-- Allocates the name of the declaration that a property needs, if it needs one. -/
def nestedName (owner key : String) (position : Nat) (property : Schema) :
    Walk (Option String) :=
  match property.layersToObject? with
  | none => return none
  | some layers => do
    let word ← keyWord owner key position
    let name ← Walk.allocate (owner ++ word ++ if layers = 0 then "" else "Item")
    return some name

def noteInference (owner key : String) (i : Inference) : Walk Unit :=
  let place := some (owner ++ "." ++ key)
  if i.type.isUnknown then Walk.report ⟨.info, .resolve, "no type could be inferred", place⟩
  else if i.lossy then
    Walk.report
      ⟨.info, .resolve, "64-bit integer may lose precision in the target representation", place⟩
  else return ()

mutual

/-- The fields of an object called `owner`, and the declarations nested directly in it. -/
def declareProperties (owner : String) (required : List String) (position : Nat) :
    List (String × Schema) → Walk (List Field × List DeclarationTree)
  | [] => return ([], [])
  | (key, property) :: rest => do
    let nested ← nestedName owner key position property
    let inferred := property.infer nested
    noteInference owner key inferred
    let below ← (match nested with
      | some name => declareNested name property
      | none => pure [] : Walk (List DeclarationTree))
    let field : Field := ⟨key, inferred.type, !required.contains key, none⟩
    let (fields, trees) ← declareProperties owner required (position + 1) rest
    return (field.documented property.description :: fields, below ++ trees)

/-- The declaration of the object that lies under the array layers of a schema. -/
def declareNested (name : String) : Schema → Walk (List DeclarationTree)
  | ⟨declaredType, _, properties, required, items, description, _⟩ =>
    match Schema.Kind.ofParts declaredType (!properties.isEmpty) items.isSome with
    | .object => do
      let (fields, children) ← declareProperties name required 0 properties
      return [⟨({ name, fields } : Declaration).documented description, children⟩]
    | .array =>
      match items with
      | some element => declareNested name element
      | none => return []
    | _ => return []

end

/-- Declares a schema under a name of its own; only an object gives fields. -/
def ofSchema (schema : Schema) (candidate : String) : Walk DeclarationTree := do
  let name ← Walk.allocate candidate
  match schema.kind with
  | .object =>
    let (fields, children) ← declareProperties name schema.required 0 schema.properties
    return ⟨({ name, fields } : Declaration).documented schema.description, children⟩
  | kind =>
    let message := "root schema is " ++ kind.name ++ ", not an object; declaration is empty"
    Walk.report ⟨.warning, .schema, message, some name⟩
    return ⟨({ name } : Declaration).documented schema.description, []⟩

def parameterField (owner : String) (p : Parameter) : Walk Field := do
  let inferred := p.infer
  noteInference owner p.name inferred
  return (⟨p.name, inferred.type, !p.required, none⟩ : Field).documented p.description

def parameterFields (owner : String) : List Parameter → Walk (List Field)
  | [] => return []
  | p :: ps => do
    let field ← parameterField owner p
    return field :: (← parameterFields owner ps)

/-- Declares a list of parameters; nothing is nested in it. -/
def ofParameters (parameters : List Parameter) (candidate : String) : Walk DeclarationTree := do
  let name ← Walk.allocate candidate
  let fields ← parameterFields name parameters
  return ⟨{ name, fields }, []⟩

/-- Declares any payload, one without content by a declaration without fields. -/
def ofPayload (payload : Payload) (candidate : String) : Walk DeclarationTree :=
  match payload with
  | .body schema => ofSchema schema candidate
  | .query parameters | .form parameters => ofParameters parameters candidate
  | .malformed reason => do
    let name ← Walk.allocate candidate
    let message := "body schema could not be parsed (" ++ reason ++ "); declaration is empty"
    Walk.report ⟨.warning, .schema, message, some name⟩
    return ⟨{ name }, []⟩
  | .none => do
    let name ← Walk.allocate candidate
    return ⟨{ name }, []⟩

end DeclarationTree
end TypedApi
