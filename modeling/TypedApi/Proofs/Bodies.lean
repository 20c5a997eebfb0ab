import Mathlib
import TypedApi.Document.Endpoint
import TypedApi.Proofs.Trimming

/-!
Bodies of a document, which are given as values or as the texts of values. Only a text is read once
more, and what it holds is taken for a schema whatever it is; so text and value agree on objects
and on nothing else.
-/
namespace TypedApi

open Json (Value Tree)

namespace Payload

/-- A text that holds a value says something. -/
theorem ofText?_not_blank {text : String} {v : Value} (h : Value.ofText? text = some v) :
    Text.allBlank text = false := by
  cases hb : Text.allBlank text with
  | false => rfl
  | true =>
    have htree := Tree.ofText?_of_blank ((Text.allBlank_iff text).mp hb)
    simp [Value.ofText?, htree] at h

/-- Of a text the value in it is a schema. -/
theorem ofBody?_text [JsonWording] {text : String} {v : Value} (h : Value.ofText? text = some v) :
    ofBody? (.string text) = some (.body (Schema.ofJson v)) := by
  simp [ofBody?, ofText?_not_blank h, h]

/-- A value that is no text is a schema if it is an object, and then in the same way. -/
theorem ofBody?_value [JsonWording] {v : Value} (hs : v.string? = Option.none) :
    ofBody? v = some (.body (Schema.ofJson v)) ∧ Schema.isObject v = true ∨
      (∀ s, ofBody? v ≠ some (.body s)) ∧ Schema.isObject v = false := by
  cases v with
  | object members => exact .inl ⟨rfl, rfl⟩
  | string s => simp [Value.string?] at hs
  | null | bool _ | number _ | array _ => exact .inr ⟨by simp [ofBody?], rfl⟩

end Payload

namespace InterfaceDocument

def withRequestBody (d : InterfaceDocument) (v : Value) : InterfaceDocument :=
  { d with requestBody := some v }

def withResponseBody (d : InterfaceDocument) (v : Value) : InterfaceDocument :=
  { d with responseBody := some v }

/-- The payload of a request that has no JSON body. -/
def bodilessPayload (d : InterfaceDocument) : Payload :=
  if d.requestBodyType.bind normalized = some "form" && !d.form.isEmpty then
    .form (parameters d.form)
  else if !d.query.isEmpty then .query (parameters d.query)
  else .none

theorem bodilessPayload_ne_body (d : InterfaceDocument) (s : Schema) :
    d.bodilessPayload ≠ .body s := by
  unfold bodilessPayload
  split
  · simp
  · split
    · simp
    · simp

section Documents

variable [JsonWording]

theorem requestPayload_withRequestBody (d : InterfaceDocument) (v : Value) :
    (d.withRequestBody v).requestPayload =
      if d.requestBodyType.bind normalized = some "json" then
        (Payload.ofBody? v).getD d.bodilessPayload
      else d.bodilessPayload := by
  unfold requestPayload withRequestBody bodilessPayload
  by_cases hjson : d.requestBodyType.bind normalized = some "json"
  · simp only [hjson, if_true, Option.bind_some]
    cases Payload.ofBody? v with
    | none => rfl
    | some payload => rfl
  · simp only [hjson, if_false]

theorem responsePayload_withResponseBody (d : InterfaceDocument) (v : Value) :
    (d.withResponseBody v).responsePayload =
      if d.responseBodyType.bind normalized = some "json" then (Payload.ofBody? v).getD .none
      else .none := rfl

theorem endpoint_eq_iff (d e : InterfaceDocument) : d.endpoint = e.endpoint ↔
    d.title.getD "" = e.title.getD "" ∧ d.path.getD "" = e.path.getD "" ∧
      Method.ofText (d.method.getD "GET") = Method.ofText (e.method.getD "GET") ∧
      d.requestPayload = e.requestPayload ∧ d.responsePayload = e.responsePayload := by
  simp [endpoint]

/-- Where a body counts, it may be given as a value or as a text of that value if and only if it is
an object. Any other value counts as no body or as a malformed one, and its text as a body of which
nothing is known. -/
theorem endpoint_of_body_text {text : String} {v : Value} (ht : Value.ofText? text = some v)
    (hs : v.string? = none) (d : InterfaceDocument) :
    ((d.withRequestBody (.string text)).endpoint = (d.withRequestBody v).endpoint ↔
      (d.requestBodyType.bind normalized = some "json" → Schema.isObject v = true)) ∧
    ((d.withResponseBody (.string text)).endpoint = (d.withResponseBody v).endpoint ↔
      (d.responseBodyType.bind normalized = some "json" → Schema.isObject v = true)) := by
  have hrequest : (d.withRequestBody (.string text)).endpoint = (d.withRequestBody v).endpoint ↔
      (d.withRequestBody (.string text)).requestPayload =
        (d.withRequestBody v).requestPayload := by
    rw [endpoint_eq_iff]
    exact ⟨fun h => h.2.2.2.1, fun h => ⟨rfl, rfl, rfl, h, rfl⟩⟩
  have hresponse : (d.withResponseBody (.string text)).endpoint =
      (d.withResponseBody v).endpoint ↔
      (d.withResponseBody (.string text)).responsePayload =
        (d.withResponseBody v).responsePayload := by
    rw [endpoint_eq_iff]
    exact ⟨fun h => h.2.2.2.2, fun h => ⟨rfl, rfl, rfl, rfl, h⟩⟩
  rw [hrequest, hresponse, requestPayload_withRequestBody, requestPayload_withRequestBody,
    responsePayload_withResponseBody, responsePayload_withResponseBody, Payload.ofBody?_text ht,
    Option.getD_some]
  rcases Payload.ofBody?_value hs with ⟨hv, ho⟩ | ⟨hv, ho⟩
  · simp [hv, ho]
  · -- What a value that is no object gives is never a body, so it is not what its text gives.
    have hne : ∀ rest : Payload, (∀ s, rest ≠ .body s) → ∀ s,
        .body s ≠ (Payload.ofBody? v).getD rest := by
      intro rest hrest s
      cases hp : Payload.ofBody? v with
      | none => exact (hrest s).symm
      | some payload =>
        rintro rfl
        exact hv s hp
    have hne₁ := hne d.bodilessPayload d.bodilessPayload_ne_body (Schema.ofJson v)
    have hne₂ := hne .none (by simp) (Schema.ofJson v)
    simp only [ho, Bool.false_eq_true, imp_false]
    constructor
    · by_cases hjson : d.requestBodyType.bind normalized = some "json"
      · simp [hjson, hne₁]
      · simp [hjson]
    · by_cases hjson : d.responseBodyType.bind normalized = some "json"
      · simp [hjson, hne₂]
      · simp [hjson]

end Documents

section Parcels

attribute [local instance] JsonWording.terse

/-- A text with a key that is repeated and white space around the object. -/
theorem parcel_body_text :
    let text := " \x7b\"type\": 1, \"properties\": \x7b\"id\": null\x7d, \"type\": \"object\"\x7d\n"
    let v : Value :=
      .object [("type", .string "object"), ("properties", .object [("id", .null)])]
    let d : InterfaceDocument := { requestBodyType := some " JSON " }
    Value.ofText? text = some v ∧ v.string? = none ∧ Schema.isObject v = true ∧
      (d.withRequestBody (.string text)).endpoint = (d.withRequestBody v).endpoint := by
  intro text v d
  have ht : Value.ofText? text = some v := by cbv
  exact ⟨ht, rfl, rfl, (endpoint_of_body_text ht rfl d).1.mpr fun _ => rfl⟩

/-- A list is malformed, but its text is a body of which nothing is known. -/
theorem list_body_text :
    let d : InterfaceDocument := { requestBodyType := some "json" }
    Value.ofText? "[]" = some (.array []) ∧ (Value.array []).string? = none ∧
      (d.withRequestBody (.string "[]")).endpoint ≠
        (d.withRequestBody (.array [])).endpoint := by
  intro d
  refine ⟨rfl, rfl, fun h => ?_⟩
  have htext : (d.withRequestBody (.string "[]")).endpoint.request = .body {} := rfl
  have hvalue : (d.withRequestBody (.array [])).endpoint.request =
      .malformed "expected a JSON schema object, found an array" := rfl
  rw [h, hvalue] at htext
  cases htext

end Parcels

end InterfaceDocument
end TypedApi
