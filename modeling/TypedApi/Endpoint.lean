import TypedApi.Schema.Basic
import TypedApi.Text.Blank

/-!
Endpoints of an interface: method, path, and what travels in the two directions.
-/
namespace TypedApi

structure Parameter where
  name : String
  required : Bool := false
  /-- In lower case, if the documentation gives a type. -/
  declaredType : Option String := none
  sample : Option Example := none
  description : Option String := none

/-- What an endpoint receives or sends. -/
inductive Payload
  | none
  | body (schema : Schema)
  | query (parameters : List Parameter)
  | form (parameters : List Parameter)
  /-- A body is announced, but its schema cannot be read. -/
  | malformed (reason : String)

namespace Payload

def isPresent : Payload → Bool
  | none => false
  | _ => true

def isQuery : Payload → Bool
  | query _ => true
  | _ => false

def parameters? : Payload → Option (List Parameter)
  | query ps | form ps => some ps
  | _ => Option.none

end Payload

inductive Method
  | get | post | put | delete | patch | head | options
deriving DecidableEq, Repr

namespace Method

def name : Method → String
  | get => "GET"
  | post => "POST"
  | put => "PUT"
  | delete => "DELETE"
  | patch => "PATCH"
  | head => "HEAD"
  | options => "OPTIONS"

def lowerName : Method → String
  | get => "get"
  | post => "post"
  | put => "put"
  | delete => "delete"
  | patch => "patch"
  | head => "head"
  | options => "options"

def all : List Method := [get, post, put, delete, patch, head, options]

/-- The method of that name, whatever the case of its letters; `get` if there is none. -/
def ofText (s : String) : Method :=
  let word := Text.mapChars (fun cs => (Text.trim cs).map Char.toUpper) s
  (all.find? (·.name == word)).getD get

/-- The methods whose client call takes the body as an argument of its own. -/
def takesBody : Method → Bool
  | post | put | patch => true
  | _ => false

end Method

/-- The two directions of an endpoint. -/
inductive Role
  | request | response
deriving DecidableEq, Repr

structure Endpoint where
  title : String
  path : String
  method : Method
  request : Payload
  response : Payload

end TypedApi
