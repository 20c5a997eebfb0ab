import TypedApi.Json.Value

/-!
Records in JSON: an object whose known members appear at most once, or the array of the values of
the fields in their order. Unknown members may hold anything that is grammatical.
-/
namespace TypedApi.Json

namespace Tree

/-- The fields that are given. Of an array, later fields may be left out. -/
def fields? (names : List String) : Tree → Option (List (String × Tree))
  | object members => do
    let members ← members.mapM fun m => m.1.map fun key => (key, m.2)
    let known := members.filter fun m => names.contains m.1
    if (known.map (·.1)).Nodup then some known else none
  | array items => if items.length ≤ names.length then some (names.zip items) else none
  | _ => none

def text? : Tree → Option String
  | string s => s
  | _ => none

/-- An integer of 64 bits. -/
def int64? : Tree → Option Int
  | number l =>
    match l.number? with
    | some (.int n) => if Text.fitsInt64 n then some n else none
    | _ => none
  | _ => none

/-- `null`, or what `read` accepts. -/
def nullable? {α : Type} (read : Tree → Option α) : Tree → Option (Option α)
  | null => some none
  | tree => (read tree).map some

end Tree

/-- The field `name`, or `missing` if it is not given. -/
def field? {α : Type} (fields : List (String × Tree)) (name : String) (missing : α)
    (read : Tree → Option α) : Option α :=
  match fields.lookup name with
  | some tree => read tree
  | none => some missing

end TypedApi.Json
