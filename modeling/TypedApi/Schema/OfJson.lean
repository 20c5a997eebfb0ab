import TypedApi.Json.Value
import TypedApi.Schema.Basic
import TypedApi.Text.Words

/-!
Reading a schema out of a JSON value. Members of the wrong kind count as absent, so every value
gives some schema.
-/
namespace TypedApi

open Json (Value)
open Text (mapChars notBlank)

mutual

def Example.ofJson : Value → Example
  | .null => .null
  | .bool b => .bool b
  | .number (.int n) => .number (Float.ofInt n).toBits
  | .number (.double bits) => .number bits
  | .string s => .string s
  | .array items => .array (samplesOfJson items)
  | .object _ => .object

def samplesOfJson : List Value → List Example
  | [] => []
  | v :: vs => Example.ofJson v :: samplesOfJson vs

end

/-- A word of the documentation, trimmed and in lower case; none if that is empty. -/
def normalized (s : String) : Option String :=
  some (mapChars (fun cs => Text.lower (Text.trim cs)) s) |>.filter (· ≠ "")

namespace Schema

/-- Of a list of types the first that is not `null` counts. -/
def typeOfJson : Option Value → Option String
  | some (.string s) => normalized s
  | some (.array types) =>
    let words := (types.filterMap Value.string?).map (mapChars fun cs => Text.lower (Text.trim cs))
    (words.find? (· ≠ "null")).filter (· ≠ "")
  | _ => none

def isObject : Value → Bool
  | .object _ => true
  | _ => false

def requiredOfJson : Option Value → List String
  | some (.array names) => names.filterMap Value.string?
  | _ => []

mutual

def ofJson : Value → Schema
  | .object members =>
    { declaredType := typeOfJson (members.lookup "type")
      format := (members.lookup "format").bind Value.string?
      properties := propertiesOfMembers members
      required := requiredOfJson (members.lookup "required")
      items := itemsOfMembers members
      description := notBlank ((members.lookup "description").bind Value.string?)
      sample := (members.lookup "example").map Example.ofJson }
  | _ => {}

/-- The schemas under the member `properties`. -/
def propertiesOfMembers : List (String × Value) → List (String × Schema)
  | [] => []
  | (key, v) :: rest => if key = "properties" then propertiesOfJson v else propertiesOfMembers rest

def propertiesOfJson : Value → List (String × Schema)
  | .object members => ofMembers members
  | _ => []

def ofMembers : List (String × Value) → List (String × Schema)
  | [] => []
  | (key, v) :: rest => (key, ofJson v) :: ofMembers rest

/-- The schema under the member `items`: an object, or the first entry of a list. -/
def itemsOfMembers : List (String × Value) → Option Schema
  | [] => none
  | (key, v) :: rest =>
    if key = "items" then (if isObject v then some (ofJson v) else firstOfJson v)
    else itemsOfMembers rest

def firstOfJson : Value → Option Schema
  | .array entries => headOfJson entries
  | _ => none

def headOfJson : List Value → Option Schema
  | [] => none
  | v :: _ => some (ofJson v)

end

end Schema
end TypedApi
