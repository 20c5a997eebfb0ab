import TypedApi.Endpoint
import TypedApi.Text.Case

/-!
The two choices a user has about names: how roles are spelled, and what happens to a name that is
taken.
-/
namespace TypedApi

inductive RoleSuffix
  | short | long
deriving DecidableEq, Repr

namespace RoleSuffix

def suffix : RoleSuffix → Role → String
  | short, .request => "Req"
  | short, .response => "Res"
  | long, .request => "Request"
  | long, .response => "Response"

def name : RoleSuffix → String
  | short => "short"
  | long => "long"

/-- Reads a spelling given by a user, in any case of letters. -/
def ofText? (s : String) : Option RoleSuffix :=
  match Text.mapChars Text.lower s with
  | "short" | "req" => some short
  | "long" | "request" => some long
  | _ => none

def unknownMessage (s : String) : String :=
  "unknown role suffix '" ++ s ++ "', expected 'short' or 'long'"

end RoleSuffix

inductive CollisionPolicy
  /-- Append the smallest free number, from 2 on. -/
  | suffix
  /-- Give up the run. -/
  | reject
deriving DecidableEq, Repr

namespace CollisionPolicy

def name : CollisionPolicy → String
  | suffix => "suffix"
  | reject => "reject"

/-- Reads a spelling given by a user, in any case of letters. -/
def ofText? (s : String) : Option CollisionPolicy :=
  match Text.mapChars Text.lower s with
  | "suffix" => some suffix
  | "reject" => some reject
  | _ => none

def unknownMessage (s : String) : String :=
  "unknown collision policy '" ++ s ++ "', expected 'suffix' or 'reject'"

end CollisionPolicy

structure NamingSettings where
  roleSuffix : RoleSuffix := .short
  collisions : CollisionPolicy := .suffix
deriving DecidableEq, Repr

end TypedApi
