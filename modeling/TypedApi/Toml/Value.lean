import TypedApi.Toml.DateTime

/-!
TOML values.
-/
namespace TypedApi.Toml

inductive Value
  | string (s : String)
  /-- An integer of any size. There is no number if the notation is that of an integer and the
  digits are not all digits of its base; this does harm only where a number is asked for. -/
  | integer (n : Option Int)
  /-- A float, as it is written. -/
  | float (s : String)
  | boolean (b : Bool)
  | dateTime (t : DateTime)
  | array (items : List Value)
  | table (entries : List (String × Value))
deriving Inhabited

end TypedApi.Toml
