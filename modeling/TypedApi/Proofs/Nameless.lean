import TypedApi.Proofs.Bodies
import TypedApi.Proofs.DistinctKeys

/-!
Parameters without a name. They are never lowered, but they count when it is decided whether form
parameters, query parameters or nothing is sent. So they can be left out of a document unless it is
a list of them alone that decides: such a list makes a request without parameters, and one that
hides what comes after it.
-/
namespace TypedApi

namespace DocumentedParameter

/-- There is something else than white space in its name. -/
def isNamed (p : DocumentedParameter) : Bool := !Text.allBlank p.name

theorem parameter?_eq_none_iff {p : DocumentedParameter} :
    p.parameter? = none ↔ p.isNamed = false := by
  have hblank := Text.mapChars_trim_eq_empty p.name
  unfold parameter? isNamed
  by_cases hempty : Text.mapChars Text.trim p.name = ""
  · simp [hempty, hblank.mp hempty]
  · simp [hempty, mt hblank.mpr hempty]

end DocumentedParameter

namespace InterfaceDocument

open DocumentedParameter (isNamed parameter?_eq_none_iff)

/-- The document without its nameless parameters. -/
def named (d : InterfaceDocument) : InterfaceDocument :=
  { d with query := d.query.filter isNamed, form := d.form.filter isNamed }

section Lists

variable {ps form query : List DocumentedParameter}

theorem parameters_filter (ps : List DocumentedParameter) :
    parameters (ps.filter isNamed) = parameters ps := by
  induction ps with
  | nil => rfl
  | cons p rest ih =>
    rw [parameters, parameters] at ih ⊢
    cases hp : p.isNamed with
    | true => rw [List.filter_cons_of_pos hp, List.filterMap_cons, List.filterMap_cons, ih]
    | false =>
      rw [List.filter_cons_of_neg (by simp [hp]), List.filterMap_cons,
        parameter?_eq_none_iff.mpr hp, ih]

theorem parameters_eq_nil_iff : parameters ps = [] ↔ ∀ p ∈ ps, p.isNamed = false := by
  simp [parameters, List.filterMap_eq_nil_iff, parameter?_eq_none_iff]

/-- The first list that is not empty. -/
def firstGiven (form query : List DocumentedParameter) : Option (List DocumentedParameter) :=
  [form, query].find? (!·.isEmpty)

/-- What is sent for form and query parameters. -/
def listed (form query : List DocumentedParameter) : Payload :=
  if !form.isEmpty then .form (parameters form)
  else if !query.isEmpty then .query (parameters query)
  else .none

theorem parameters?_listed (form query : List DocumentedParameter) :
    (listed form query).parameters? = (firstGiven form query).map parameters := by
  unfold listed firstGiven
  cases form with
  | cons p rest => rfl
  | nil =>
    cases query with
    | cons p rest => rfl
    | nil => rfl

/-- Nameless parameters can be left out where another stands beside them in the list that decides,
and where no list does. -/
theorem listed_filter (h : ∀ ps, firstGiven form query = some ps → ∃ p ∈ ps, p.isNamed = true) :
    listed (form.filter isNamed) (query.filter isNamed) = listed form query := by
  have hkept : ∀ ps : List DocumentedParameter, (∃ p ∈ ps, p.isNamed = true) →
      (ps.filter isNamed).isEmpty = false := by
    rintro ps ⟨p, hp, hnamed⟩
    exact List.isEmpty_eq_false_iff.mpr (List.ne_nil_of_mem (List.mem_filter.mpr ⟨hp, hnamed⟩))
  cases form with
  | cons p rest =>
    simp [listed, hkept _ (h _ rfl), parameters_filter]
  | nil =>
    cases query with
    | cons p rest => simp [listed, hkept _ (h _ rfl), parameters_filter]
    | nil => rfl

end Lists

section Documents

variable [JsonWording]

/-- The payload of a JSON body, if there is one. -/
def jsonBody? (d : InterfaceDocument) : Option Payload :=
  if d.requestBodyType.bind normalized = some "json" then d.requestBody.bind Payload.ofBody?
  else none

/-- The form parameters, where the body is a form. -/
def formGiven (d : InterfaceDocument) : List DocumentedParameter :=
  if d.requestBodyType.bind normalized = some "form" then d.form else []

/-- The list that a request is made from. -/
def decidingList? (d : InterfaceDocument) : Option (List DocumentedParameter) :=
  if d.jsonBody?.isSome then none else firstGiven d.formGiven d.query

theorem requestPayload_eq (d : InterfaceDocument) :
    d.requestPayload = d.jsonBody?.getD (listed d.formGiven d.query) := by
  have hlisted : d.bodilessPayload = listed d.formGiven d.query := by
    unfold bodilessPayload listed formGiven
    by_cases hform : d.requestBodyType.bind normalized = some "form"
    · simp only [hform, decide_true, Bool.true_and, if_true]
    · simp [hform]
  rw [← hlisted]
  cases hbody : d.jsonBody? with
  | none =>
    rw [jsonBody?] at hbody
    simp only [requestPayload, bodilessPayload, hbody, Option.getD_none]
  | some payload =>
    rw [jsonBody?] at hbody
    simp only [requestPayload, hbody, Option.getD_some]

theorem parameters?_requestPayload (d : InterfaceDocument) :
    d.requestPayload.parameters? = d.decidingList?.map parameters := by
  rw [requestPayload_eq, decidingList?]
  cases hbody : d.jsonBody? with
  | none => exact parameters?_listed d.formGiven d.query
  | some payload =>
    rw [jsonBody?] at hbody
    split at hbody
    · obtain ⟨v, -, hv⟩ := Option.bind_eq_some_iff.mp hbody
      exact Payload.ofBody?_parameters? hv
    · cases hbody

omit [JsonWording] in
theorem formGiven_named (d : InterfaceDocument) :
    d.named.formGiven = d.formGiven.filter isNamed := by
  unfold formGiven named
  split
  · rfl
  · rfl

theorem requestPayload_named (d : InterfaceDocument) :
    d.named.requestPayload =
      d.jsonBody?.getD (listed (d.formGiven.filter isNamed) (d.query.filter isNamed)) := by
  rw [requestPayload_eq, formGiven_named]
  rfl

/-- Without nameless parameters a list that decides is never lowered to nothing. -/
theorem parameters?_requestPayload_named (d : InterfaceDocument) :
    d.named.requestPayload.parameters? ≠ some [] := by
  rw [parameters?_requestPayload]
  intro hnil
  obtain ⟨ps, hps, hempty⟩ := Option.map_eq_some_iff.mp hnil
  rw [decidingList?] at hps
  split at hps
  · cases hps
  rw [firstGiven, formGiven_named] at hps
  have hne := List.find?_some hps
  have hmem := List.mem_of_find?_eq_some hps
  have hnamed : ∀ p ∈ ps, p.isNamed = true := by
    simp only [List.mem_cons, List.not_mem_nil, or_false] at hmem
    rcases hmem with rfl | rfl
    · exact fun p hp => (List.mem_filter.mp hp).2
    · exact fun p hp => (List.mem_filter.mp hp).2
  obtain ⟨p, hp⟩ := List.exists_mem_of_ne_nil ps (by simpa using hne)
  have hnameless := parameters_eq_nil_iff.mp hempty p hp
  rw [hnamed p hp] at hnameless
  cases hnameless

/-- Leaving out the nameless parameters changes at most what is sent. It changes nothing if and only
if no list decides what is sent or the one that does has a parameter with a name; otherwise the
request has an empty list of parameters, which it never has once they are left out. -/
theorem endpoint_named (d : InterfaceDocument) :
    d.named.endpoint = { d.endpoint with request := d.named.requestPayload } ∧
      (d.named.endpoint = d.endpoint ↔
        ∀ ps, d.decidingList? = some ps → ∃ p ∈ ps, p.isNamed = true) ∧
      (d.named.endpoint = d.endpoint ↔ d.endpoint.request.parameters? ≠ some []) ∧
      d.named.endpoint.request.parameters? ≠ some [] := by
  have hrequest : d.named.endpoint = d.endpoint ↔ d.named.requestPayload = d.requestPayload := by
    rw [endpoint_eq_iff]
    exact ⟨fun h => h.2.2.2.1, fun h => ⟨rfl, rfl, rfl, h, rfl⟩⟩
  have hnil : d.requestPayload.parameters? ≠ some [] ↔
      ∀ ps, d.decidingList? = some ps → ∃ p ∈ ps, p.isNamed = true := by
    rw [parameters?_requestPayload]
    simp [Option.map_eq_some_iff, parameters_eq_nil_iff]
  have hsame : d.named.requestPayload = d.requestPayload ↔
      d.requestPayload.parameters? ≠ some [] := by
    constructor
    · intro heq
      rw [← heq]
      exact d.parameters?_requestPayload_named
    · intro hne
      have hdeciding := hnil.mp hne
      rw [requestPayload_named, requestPayload_eq]
      rw [decidingList?] at hdeciding
      cases hbody : d.jsonBody? with
      | some payload => rfl
      | none =>
        simp only [hbody, Option.isSome_none, Bool.false_eq_true, if_false] at hdeciding
        exact listed_filter hdeciding
  exact ⟨rfl, hrequest.trans (hsame.trans hnil), hrequest.trans hsame,
    d.parameters?_requestPayload_named⟩

end Documents

section Hidden

attribute [local instance] JsonWording.terse

/-- A nameless form parameter hides the query. -/
theorem nameless_hides_query :
    let d : InterfaceDocument :=
      { requestBodyType := some "form", form := [{ name := " " }], query := [{ name := "id" }] }
    d.endpoint.request = .form [] ∧ d.named.endpoint.request = .query [{ name := "id" }] ∧
      d.named.endpoint ≠ d.endpoint := by
  intro d
  have hform : d.endpoint.request = .form [] := rfl
  have hquery : d.named.endpoint.request = .query [{ name := "id" }] := rfl
  refine ⟨hform, hquery, fun hsame => ?_⟩
  rw [hsame, hform] at hquery
  cases hquery

end Hidden

end InterfaceDocument
end TypedApi
