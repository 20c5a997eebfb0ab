import TypedApi.DeclarationArena
import TypedApi.DeclarationTree.OfPayload

/-!
The declarations of a payload, pushed to an arena as they are found. An object is pushed as soon as
its name is issued, before the objects nested in it, and gets its fields after them.
-/
namespace TypedApi.DeclarationArena

open DeclarationTree (nestedName noteInference parameterFields)

mutual

/-- The fields of the object at `place`, which is called `owner`; what they need declared is pushed
on the way. -/
def fillProperties (place : Nat) (owner : String) (required : List String) (position : Nat) :
    List (String × Schema) → DeclarationArena → Walk (List Field × DeclarationArena)
  | [], arena => return ([], arena)
  | (key, property) :: rest, arena => do
    let nested ← nestedName owner key position property
    let inferred := property.infer nested
    noteInference owner key inferred
    let arena ← (match nested with
      | some name => fillNested place name property arena
      | none => pure arena : Walk DeclarationArena)
    let field : Field := ⟨key, inferred.type, !required.contains key, none⟩
    let (fields, arena) ← fillProperties place owner required (position + 1) rest arena
    return (field.documented property.description :: fields, arena)

/-- Pushes the object under the array layers of a schema, and fills it. -/
def fillNested (parent : Nat) (name : String) :
    Schema → DeclarationArena → Walk DeclarationArena
  | ⟨declaredType, _, properties, required, items, description, _⟩, arena =>
    match Schema.Kind.ofParts declaredType (!properties.isEmpty) items.isSome with
    | .object => do
      let (arena, place) := arena.push parent (({ name } : Declaration).documented description)
      let (fields, arena) ← fillProperties place name required 0 properties arena
      return arena.setFields place fields
    | .array =>
      match items with
      | some element => fillNested parent name element arena
      | none => return arena
    | _ => return arena

end

def ofSchema (schema : Schema) (candidate : String) : Walk DeclarationArena := do
  let name ← Walk.allocate candidate
  let arena := withRoot (({ name } : Declaration).documented schema.description)
  match schema.kind with
  | .object =>
    let (fields, arena) ← fillProperties rootPlace name schema.required 0 schema.properties arena
    return arena.setFields rootPlace fields
  | kind =>
    let message := "root schema is " ++ kind.name ++ ", not an object; declaration is empty"
    Walk.report ⟨.warning, .schema, message, some name⟩
    return arena

def ofParameters (parameters : List Parameter) (candidate : String) : Walk DeclarationArena := do
  let name ← Walk.allocate candidate
  let fields ← parameterFields name parameters
  return withRoot { name, fields }

/-- Declares any payload, one without content by a declaration without fields. -/
def ofPayload (payload : Payload) (candidate : String) : Walk DeclarationArena :=
  match payload with
  | .body schema => ofSchema schema candidate
  | .query parameters | .form parameters => ofParameters parameters candidate
  | .malformed reason => do
    let name ← Walk.allocate candidate
    let message := "body schema could not be parsed (" ++ reason ++ "); declaration is empty"
    Walk.report ⟨.warning, .schema, message, some name⟩
    return withRoot { name }
  | .none => do
    let name ← Walk.allocate candidate
    return withRoot { name }

end TypedApi.DeclarationArena
