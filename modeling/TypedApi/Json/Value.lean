import TypedApi.Json.Tree

/-!
JSON values: what a tree means once its numbers and strings are read and repeated members are
joined.
-/
namespace TypedApi.Json

/-- Members keep the order in which their keys first appear, and no key appears twice in a value
that comes from a tree. -/
inductive Value
  | null
  | bool (b : Bool)
  | number (n : Number)
  | string (s : String)
  | array (items : List Value)
  | object (members : List (String × Value))
deriving Inhabited

/-- Sets the member `key`, at its place if there is one and else at the end. -/
def putMember {α : Type} (members : List (String × α)) (key : String) (value : α) :
    List (String × α) :=
  match members with
  | [] => [(key, value)]
  | (k, v) :: rest =>
    if k = key then (k, value) :: rest else (k, v) :: putMember rest key value

/-- A repeated key keeps its first place and takes its last value. -/
def joinMembers {α : Type} (members : List (String × α)) : List (String × α) :=
  members.foldl (fun done m => putMember done m.1 m.2) []

/-- Texts nest at most this many arrays and objects. -/
def maxDepth : Nat := 127

mutual

/-- The value of a tree in which at most `depth` arrays and objects are nested. -/
def Tree.value? (depth : Nat) : Tree → Option Value
  | .null => some .null
  | .bool b => some (.bool b)
  | .number l => l.number?.map .number
  | .string s => s.map .string
  | .array items =>
    match depth with
    | 0 => none
    | d + 1 => (itemValues? d items).map .array
  | .object members =>
    match depth with
    | 0 => none
    | d + 1 => (memberValues? d members).map fun ms => .object (joinMembers ms)

def itemValues? (depth : Nat) : List Tree → Option (List Value)
  | [] => some []
  | item :: items => do
    let v ← item.value? depth
    return v :: (← itemValues? depth items)

def memberValues? (depth : Nat) :
    List (Option String × Tree) → Option (List (String × Value))
  | [] => some []
  | (key, value) :: members => do
    let k ← key
    let v ← value.value? depth
    return (k, v) :: (← memberValues? depth members)

end

namespace Value

def ofText? (text : String) : Option Value := do
  let tree ← Tree.ofText? text
  tree.value? maxDepth

/-- The member `key` of an object. -/
def get? (key : String) : Value → Option Value
  | object members => members.lookup key
  | _ => none

def string? : Value → Option String
  | string s => some s
  | _ => none

end Value
end TypedApi.Json
