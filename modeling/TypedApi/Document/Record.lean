import TypedApi.Json.Record
import TypedApi.Text.Blank

/-!
Interface documents as a source answers with them: an envelope with an error code, and in it the
description of one interface. Bodies stay values, because they may be given as texts or as objects.
-/
namespace TypedApi

open Json (Value Tree field?)

/-- A query or form parameter as documented. -/
structure DocumentedParameter where
  name : String := ""
  required : Option Value := none
  description : Option String := none
  type : Option String := none
  sample : Option Value := none

namespace DocumentedParameter

/-- Written as `"1"`, `"true"`, `true` or `1`. -/
def isRequired (p : DocumentedParameter) : Bool :=
  match p.required with
  | some (.string s) =>
    let word := Text.mapChars Text.trim s
    word == "1" || word == "true"
  | some (.bool b) => b
  | some (.number n) => n == .int 1
  | _ => false

end DocumentedParameter

structure InterfaceDocument where
  title : Option String := none
  path : Option String := none
  method : Option String := none
  query : List DocumentedParameter := []
  requestBodyType : Option String := none
  requestBody : Option Value := none
  form : List DocumentedParameter := []
  responseBodyType : Option String := none
  responseBody : Option Value := none

/-- The envelope around a document. -/
structure Reply where
  code : Int
  message : String := ""
  document : Option InterfaceDocument := none

/-- What a source says when it gives no document. -/
structure Refusal where
  code : Int
  message : String
deriving DecidableEq, Repr

/-- The document of a reply whose code is zero. -/
def Reply.document? (r : Reply) : Except Refusal InterfaceDocument :=
  if r.code ≠ 0 then .error ⟨r.code, r.message⟩
  else match r.document with
    | some d => .ok d
    | none => .error ⟨r.code, "interface response carried no data"⟩

def optionalText? (fields : List (String × Tree)) (name : String) : Option (Option String) :=
  field? fields name none (Tree.nullable? Tree.text?)

def optionalValue? (depth : Nat) (fields : List (String × Tree)) (name : String) :
    Option (Option Value) :=
  field? fields name none (Tree.nullable? (Tree.value? depth))

/-- Each reader takes the number of arrays and objects that may still be nested. -/
def DocumentedParameter.ofTree? (depth : Nat) (tree : Tree) : Option DocumentedParameter :=
  match depth with
  | 0 => none
  | depth + 1 => do
    let fields ← tree.fields? ["name", "required", "desc", "type", "example"]
    return {
      name := ← field? fields "name" "" Tree.text?
      required := ← optionalValue? depth fields "required"
      description := ← optionalText? fields "desc"
      type := ← optionalText? fields "type"
      sample := ← optionalValue? depth fields "example" }

def parameterList? (depth : Nat) : Tree → Option (List DocumentedParameter)
  | .null => some []
  | .array items =>
    match depth with
    | 0 => none
    | depth + 1 => items.mapM (DocumentedParameter.ofTree? depth)
  | _ => none

def InterfaceDocument.ofTree? (depth : Nat) (tree : Tree) : Option InterfaceDocument :=
  match depth with
  | 0 => none
  | depth + 1 => do
    let fields ← tree.fields? ["title", "path", "method", "req_query", "req_body_type",
      "req_body_other", "req_body_form", "res_body_type", "res_body"]
    return {
      title := ← optionalText? fields "title"
      path := ← optionalText? fields "path"
      method := ← optionalText? fields "method"
      query := ← field? fields "req_query" [] (parameterList? depth)
      requestBodyType := ← optionalText? fields "req_body_type"
      requestBody := ← optionalValue? depth fields "req_body_other"
      form := ← field? fields "req_body_form" [] (parameterList? depth)
      responseBodyType := ← optionalText? fields "res_body_type"
      responseBody := ← optionalValue? depth fields "res_body" }

def Reply.ofTree? (depth : Nat) (tree : Tree) : Option Reply :=
  match depth with
  | 0 => none
  | depth + 1 => do
    let fields ← tree.fields? ["errcode", "errmsg", "data"]
    let code ← fields.lookup "errcode"
    return {
      code := ← code.int64?
      message := ← field? fields "errmsg" "" Tree.text?
      document := ← field? fields "data" none (Tree.nullable? (InterfaceDocument.ofTree? depth)) }

def Reply.ofText? (text : String) : Option Reply := do
  let tree ← Tree.ofText? text
  Reply.ofTree? Json.maxDepth tree

end TypedApi
