import TypedApi.Document.Record
import TypedApi.Endpoint
import TypedApi.Json.Wording
import TypedApi.Schema.OfJson

/-!
The endpoint that an interface document describes. Nothing in a document can make this fail: what
is not understood counts as absent or as a malformed body.
-/
namespace TypedApi

open Json (Value)
open Text (mapChars notBlank)

variable [JsonWording]

def foundInstead : Value → String
  | .null => "null"
  | .bool _ => "a boolean"
  | .number _ => "a number"
  | .string _ => "a string"
  | .array _ => "an array"
  | .object _ => "an object"

/-- The payload of a body given as a JSON text or as an object; none if it is blank. -/
def Payload.ofBody? : Value → Option Payload
  | .null => Option.none
  | .string s =>
    if Text.allBlank s then Option.none
    else match Value.ofText? s with
      | some v => some (.body (Schema.ofJson v))
      | Option.none => some (.malformed (JsonWording.notJson s))
  | .object members => some (.body (Schema.ofJson (.object members)))
  | v => some (.malformed ("expected a JSON schema object, found " ++ foundInstead v))

/-- A parameter without a name is left out. -/
def DocumentedParameter.parameter? (p : DocumentedParameter) : Option Parameter :=
  let name := mapChars Text.trim p.name
  if name = "" then none
  else some {
    name
    required := p.isRequired
    declaredType := p.type.bind normalized
    sample := p.sample.map Example.ofJson
    description := notBlank p.description }

namespace InterfaceDocument

def parameters (ps : List DocumentedParameter) : List Parameter :=
  ps.filterMap DocumentedParameter.parameter?

/-- A JSON body comes before form parameters, and those before query parameters. -/
def requestPayload (d : InterfaceDocument) : Payload :=
  let type := d.requestBodyType.bind normalized
  let body := if type = some "json" then d.requestBody.bind Payload.ofBody? else none
  match body with
  | some payload => payload
  | none =>
    if type = some "form" && !d.form.isEmpty then .form (parameters d.form)
    else if !d.query.isEmpty then .query (parameters d.query)
    else .none

def responsePayload (d : InterfaceDocument) : Payload :=
  if d.responseBodyType.bind normalized = some "json" then
    (d.responseBody.bind Payload.ofBody?).getD .none
  else .none

def endpoint (d : InterfaceDocument) : Endpoint where
  title := d.title.getD ""
  path := d.path.getD ""
  method := Method.ofText (d.method.getD "GET")
  request := d.requestPayload
  response := d.responsePayload

end InterfaceDocument

/-- Why a text gives no endpoint. -/
inductive DocumentError
  /-- The text is no envelope; the cause is what is wrong with it. -/
  | undecodable (cause : String)
  | refused (r : Refusal)
deriving DecidableEq, Repr

def DocumentError.message : DocumentError → String
  | undecodable _ => "failed to decode interface document"
  | refused r => r.message

def InterfaceDocument.ofText? (text : String) : Except DocumentError InterfaceDocument :=
  match Reply.ofText? text with
  | none => .error (.undecodable (JsonWording.notReply text))
  | some reply =>
    match reply.document? with
    | .ok d => .ok d
    | .error r => .error (.refused r)

end TypedApi
