import Mathlib.Data.List.Nodup
import TypedApi.Document.Endpoint

/-!
Distinct keys, from the text of a document to the schemas of its endpoint. A text may repeat a
member of an object; reading joins what is repeated, and every step after it keeps the keys that
it finds.
-/
namespace TypedApi

open Json (Value Tree field?)

namespace Json

/-- No object in the value has a key twice, at whatever depth. -/
inductive Value.HasDistinctKeys : Value → Prop
  | null : HasDistinctKeys null
  | bool (b : Bool) : HasDistinctKeys (bool b)
  | number (n : Number) : HasDistinctKeys (number n)
  | string (s : String) : HasDistinctKeys (string s)
  | array {items : List Value} (h : ∀ v ∈ items, v.HasDistinctKeys) : HasDistinctKeys (array items)
  | object {members : List (String × Value)} (hkeys : (members.map Prod.fst).Nodup)
      (h : ∀ m ∈ members, m.2.HasDistinctKeys) : HasDistinctKeys (object members)

section
variable {α : Type}

theorem putMember_keys (members : List (String × α)) (key : String) (value : α) :
    (putMember members key value).map Prod.fst =
      if key ∈ members.map Prod.fst then members.map Prod.fst
      else members.map Prod.fst ++ [key] := by
  induction members with
  | nil => rfl
  | cons m rest ih =>
    obtain ⟨k, v⟩ := m
    rw [putMember]
    by_cases hk : k = key
    · simp [hk]
    · simp only [if_neg hk, List.map_cons, ih, List.mem_cons, Ne.symm hk, false_or]
      split
      · rfl
      · rfl

theorem nodup_putMember {members : List (String × α)} (h : (members.map Prod.fst).Nodup)
    (key : String) (value : α) : ((putMember members key value).map Prod.fst).Nodup := by
  rw [putMember_keys]
  split
  · exact h
  · next hkey =>
    rw [← List.concat_eq_append]
    exact h.concat hkey

theorem forall_mem_putMember {P : α → Prop} {members : List (String × α)} {value : α}
    (h : ∀ m ∈ members, P m.2) (hv : P value) (key : String) :
    ∀ m ∈ putMember members key value, P m.2 := by
  induction members with
  | nil => exact List.forall_mem_singleton.mpr hv
  | cons m rest ih =>
    obtain ⟨k, v⟩ := m
    obtain ⟨hm, hrest⟩ := List.forall_mem_cons.mp h
    rw [putMember]
    split
    · exact List.forall_mem_cons.mpr ⟨hv, hrest⟩
    · exact List.forall_mem_cons.mpr ⟨hm, ih hrest⟩

/-- Joined members have distinct keys, whatever was repeated. -/
theorem joinMembers_spec {P : α → Prop} {members : List (String × α)}
    (h : ∀ m ∈ members, P m.2) :
    ((joinMembers members).map Prod.fst).Nodup ∧ ∀ m ∈ joinMembers members, P m.2 := by
  have hrun : ∀ done : List (String × α), (done.map Prod.fst).Nodup → (∀ m ∈ done, P m.2) →
      let joined := members.foldl (fun done m => putMember done m.1 m.2) done
      (joined.map Prod.fst).Nodup ∧ ∀ m ∈ joined, P m.2 := by
    induction members with
    | nil => exact fun done hkeys hvalues => ⟨hkeys, hvalues⟩
    | cons m rest ih =>
      obtain ⟨hm, hrest⟩ := List.forall_mem_cons.mp h
      intro done hkeys hvalues
      exact ih hrest _ (nodup_putMember hkeys m.1 m.2) (forall_mem_putMember hvalues hm m.1)
  exact hrun [] List.nodup_nil (by simp)

end

mutual

theorem Tree.value?_hasDistinctKeys {depth : Nat} {t : Tree} {v : Value}
    (h : t.value? depth = some v) : v.HasDistinctKeys := by
  match t with
  | .null =>
    rw [Tree.value?, Option.some.injEq] at h
    exact h ▸ .null
  | .bool b =>
    rw [Tree.value?, Option.some.injEq] at h
    exact h ▸ .bool b
  | .number l =>
    rw [Tree.value?] at h
    obtain ⟨n, -, rfl⟩ := Option.map_eq_some_iff.mp h
    exact .number n
  | .string s =>
    rw [Tree.value?] at h
    obtain ⟨s, -, rfl⟩ := Option.map_eq_some_iff.mp h
    exact .string s
  | .array items =>
    cases depth with
    | zero => simp [Tree.value?] at h
    | succ d =>
      rw [Tree.value?] at h
      obtain ⟨vs, hvs, rfl⟩ := Option.map_eq_some_iff.mp h
      exact .array (itemValues?_hasDistinctKeys hvs)
  | .object members =>
    cases depth with
    | zero => simp [Tree.value?] at h
    | succ d =>
      rw [Tree.value?] at h
      obtain ⟨ms, hms, rfl⟩ := Option.map_eq_some_iff.mp h
      obtain ⟨hkeys, hvalues⟩ := joinMembers_spec (memberValues?_hasDistinctKeys hms)
      exact .object hkeys hvalues

theorem itemValues?_hasDistinctKeys {depth : Nat} {items : List Tree} {vs : List Value}
    (h : itemValues? depth items = some vs) : ∀ v ∈ vs, v.HasDistinctKeys := by
  match items with
  | [] =>
    rw [itemValues?, Option.some.injEq] at h
    simp [← h]
  | item :: items =>
    rw [itemValues?] at h
    obtain ⟨v, hv, h⟩ := Option.bind_eq_some_iff.mp h
    obtain ⟨rest, hrest, h⟩ := Option.bind_eq_some_iff.mp h
    cases h
    exact List.forall_mem_cons.mpr
      ⟨Tree.value?_hasDistinctKeys hv, itemValues?_hasDistinctKeys hrest⟩

theorem memberValues?_hasDistinctKeys {depth : Nat} {members : List (Option String × Tree)}
    {ms : List (String × Value)} (h : memberValues? depth members = some ms) :
    ∀ m ∈ ms, m.2.HasDistinctKeys := by
  match members with
  | [] =>
    rw [memberValues?, Option.some.injEq] at h
    simp [← h]
  | (key, value) :: members =>
    rw [memberValues?] at h
    obtain ⟨k, -, h⟩ := Option.bind_eq_some_iff.mp h
    obtain ⟨v, hv, h⟩ := Option.bind_eq_some_iff.mp h
    obtain ⟨rest, hrest, h⟩ := Option.bind_eq_some_iff.mp h
    cases h
    exact List.forall_mem_cons.mpr
      ⟨Tree.value?_hasDistinctKeys hv, memberValues?_hasDistinctKeys hrest⟩

end

theorem Value.ofText?_hasDistinctKeys {text : String} {v : Value} (h : ofText? text = some v) :
    v.HasDistinctKeys := by
  obtain ⟨tree, -, hv⟩ := Option.bind_eq_some_iff.mp h
  exact Tree.value?_hasDistinctKeys hv

/-- A field that is given with a value has been read from a tree. -/
theorem field?_nullable? {α : Type} {fields : List (String × Tree)} {name : String}
    {read : Tree → Option α} {v : α}
    (h : field? fields name none (Tree.nullable? read) = some (some v)) :
    ∃ tree, read tree = some v := by
  rw [field?] at h
  cases hl : fields.lookup name with
  | none => simp [hl] at h
  | some tree =>
    rw [hl] at h
    cases tree with
    | null => simp [Tree.nullable?] at h
    | bool _ | number _ | string _ | array _ | object _ =>
      obtain ⟨w, hw, he⟩ := Option.map_eq_some_iff.mp h
      exact ⟨_, Option.some.inj he ▸ hw⟩

end Json

namespace Schema

/-- No object in the schema has a property twice, at whatever depth. -/
inductive HasDistinctKeys : Schema → Prop
  | intro {s : Schema} (hkeys : (s.properties.map Prod.fst).Nodup)
      (hproperties : ∀ p ∈ s.properties, p.2.HasDistinctKeys)
      (hitems : ∀ e, s.items = some e → e.HasDistinctKeys) : HasDistinctKeys s

/-- What `HasDistinctKeys` says of the properties of an object. -/
def DistinctProperties (properties : List (String × Schema)) : Prop :=
  (properties.map Prod.fst).Nodup ∧ ∀ p ∈ properties, p.2.HasDistinctKeys

theorem HasDistinctKeys.properties {s : Schema} (h : s.HasDistinctKeys) :
    DistinctProperties s.properties := by
  cases h with
  | intro hkeys hproperties _ => exact ⟨hkeys, hproperties⟩

theorem HasDistinctKeys.items {s e : Schema} (h : s.HasDistinctKeys) (he : s.items = some e) :
    e.HasDistinctKeys := by
  cases h with
  | intro _ _ hitems => exact hitems e he

theorem distinctProperties_nil : DistinctProperties [] := ⟨List.nodup_nil, by simp⟩

theorem hasDistinctKeys_empty : ({} : Schema).HasDistinctKeys :=
  .intro List.nodup_nil (by simp) (by simp)

/-- Lowering renames no property. -/
theorem ofMembers_keys (members : List (String × Value)) :
    (ofMembers members).map Prod.fst = members.map Prod.fst := by
  induction members with
  | nil => rfl
  | cons m rest ih => rw [ofMembers, List.map_cons, List.map_cons, ih]

mutual

theorem ofJson_hasDistinctKeys (v : Value) (h : v.HasDistinctKeys) :
    (ofJson v).HasDistinctKeys := by
  match v with
  | .object members =>
    cases h with
    | object _ hvalues =>
      obtain ⟨hkeys, hproperties⟩ := propertiesOfMembers_distinct members hvalues
      rw [ofJson]
      exact .intro hkeys hproperties (itemsOfMembers_hasDistinctKeys members hvalues)
  | .null | .bool _ | .number _ | .string _ | .array _ =>
    simpa [ofJson] using hasDistinctKeys_empty

theorem propertiesOfMembers_distinct (members : List (String × Value))
    (h : ∀ m ∈ members, m.2.HasDistinctKeys) :
    DistinctProperties (propertiesOfMembers members) := by
  match members with
  | [] =>
    rw [propertiesOfMembers]
    exact distinctProperties_nil
  | (key, v) :: rest =>
    obtain ⟨hv, hrest⟩ := List.forall_mem_cons.mp h
    rw [propertiesOfMembers]
    split
    · exact propertiesOfJson_distinct v hv
    · exact propertiesOfMembers_distinct rest hrest

theorem propertiesOfJson_distinct (v : Value) (h : v.HasDistinctKeys) :
    DistinctProperties (propertiesOfJson v) := by
  match v with
  | .object members =>
    cases h with
    | object hkeys hvalues =>
      rw [propertiesOfJson]
      exact ⟨(ofMembers_keys members).symm ▸ hkeys, ofMembers_hasDistinctKeys members hvalues⟩
  | .null | .bool _ | .number _ | .string _ | .array _ =>
    simpa [propertiesOfJson] using distinctProperties_nil

theorem ofMembers_hasDistinctKeys (members : List (String × Value))
    (h : ∀ m ∈ members, m.2.HasDistinctKeys) : ∀ p ∈ ofMembers members, p.2.HasDistinctKeys := by
  match members with
  | [] => simp [ofMembers]
  | (key, v) :: rest =>
    obtain ⟨hv, hrest⟩ := List.forall_mem_cons.mp h
    rw [ofMembers]
    exact List.forall_mem_cons.mpr
      ⟨ofJson_hasDistinctKeys v hv, ofMembers_hasDistinctKeys rest hrest⟩

theorem itemsOfMembers_hasDistinctKeys (members : List (String × Value))
    (h : ∀ m ∈ members, m.2.HasDistinctKeys) :
    ∀ e, itemsOfMembers members = some e → e.HasDistinctKeys := by
  match members with
  | [] => simp [itemsOfMembers]
  | (key, v) :: rest =>
    obtain ⟨hv, hrest⟩ := List.forall_mem_cons.mp h
    rw [itemsOfMembers]
    split
    · split
      · intro e he
        exact Option.some.inj he ▸ ofJson_hasDistinctKeys v hv
      · exact firstOfJson_hasDistinctKeys v hv
    · exact itemsOfMembers_hasDistinctKeys rest hrest

theorem firstOfJson_hasDistinctKeys (v : Value) (h : v.HasDistinctKeys) :
    ∀ e, firstOfJson v = some e → e.HasDistinctKeys := by
  match v with
  | .array entries =>
    cases h with
    | array hentries =>
      rw [firstOfJson]
      exact headOfJson_hasDistinctKeys entries hentries
  | .null | .bool _ | .number _ | .string _ | .object _ => simp [firstOfJson]

theorem headOfJson_hasDistinctKeys (entries : List Value)
    (h : ∀ v ∈ entries, v.HasDistinctKeys) :
    ∀ e, headOfJson entries = some e → e.HasDistinctKeys := by
  match entries with
  | [] => simp [headOfJson]
  | v :: _ =>
    intro e he
    rw [headOfJson, Option.some.injEq] at he
    exact he ▸ ofJson_hasDistinctKeys v (h v (List.mem_cons_self ..))

end

end Schema

/-! Documents -/

/-- The bodies of the document have distinct keys. -/
structure InterfaceDocument.HasDistinctKeys (d : InterfaceDocument) : Prop where
  requestBody : ∀ v, d.requestBody = some v → v.HasDistinctKeys
  responseBody : ∀ v, d.responseBody = some v → v.HasDistinctKeys

/-- The schema of a body has distinct keys. -/
def Payload.HasDistinctKeys (payload : Payload) : Prop :=
  ∀ s, payload = .body s → s.HasDistinctKeys

theorem optionalValue?_hasDistinctKeys {depth : Nat} {fields : List (String × Tree)}
    {name : String} {given : Option Value} (h : optionalValue? depth fields name = some given) :
    ∀ v, given = some v → v.HasDistinctKeys := by
  rintro v rfl
  obtain ⟨tree, ht⟩ := Json.field?_nullable? h
  exact Json.Tree.value?_hasDistinctKeys ht

theorem InterfaceDocument.ofTree?_hasDistinctKeys {depth : Nat} {tree : Tree}
    {d : InterfaceDocument} (h : ofTree? depth tree = some d) : d.HasDistinctKeys := by
  cases depth with
  | zero => simp [ofTree?] at h
  | succ depth =>
    rw [ofTree?] at h
    obtain ⟨fields, -, h⟩ := Option.bind_eq_some_iff.mp h
    obtain ⟨title, -, h⟩ := Option.bind_eq_some_iff.mp h
    obtain ⟨path, -, h⟩ := Option.bind_eq_some_iff.mp h
    obtain ⟨method, -, h⟩ := Option.bind_eq_some_iff.mp h
    obtain ⟨query, -, h⟩ := Option.bind_eq_some_iff.mp h
    obtain ⟨requestBodyType, -, h⟩ := Option.bind_eq_some_iff.mp h
    obtain ⟨requestBody, hreq, h⟩ := Option.bind_eq_some_iff.mp h
    obtain ⟨form, -, h⟩ := Option.bind_eq_some_iff.mp h
    obtain ⟨responseBodyType, -, h⟩ := Option.bind_eq_some_iff.mp h
    obtain ⟨responseBody, hres, h⟩ := Option.bind_eq_some_iff.mp h
    cases h
    exact ⟨optionalValue?_hasDistinctKeys hreq, optionalValue?_hasDistinctKeys hres⟩

theorem Reply.ofTree?_hasDistinctKeys {depth : Nat} {tree : Tree} {reply : Reply}
    (h : ofTree? depth tree = some reply) :
    ∀ d, reply.document = some d → d.HasDistinctKeys := by
  cases depth with
  | zero => simp [ofTree?] at h
  | succ depth =>
    rw [ofTree?] at h
    obtain ⟨fields, -, h⟩ := Option.bind_eq_some_iff.mp h
    obtain ⟨code, -, h⟩ := Option.bind_eq_some_iff.mp h
    obtain ⟨code, -, h⟩ := Option.bind_eq_some_iff.mp h
    obtain ⟨message, -, h⟩ := Option.bind_eq_some_iff.mp h
    obtain ⟨document, hdocument, h⟩ := Option.bind_eq_some_iff.mp h
    cases h
    rintro d rfl
    obtain ⟨tree, ht⟩ := Json.field?_nullable? hdocument
    exact InterfaceDocument.ofTree?_hasDistinctKeys ht

theorem Reply.document_of_ok {reply : Reply} {d : InterfaceDocument}
    (h : reply.document? = .ok d) : reply.document = some d := by
  rw [document?] at h
  split at h
  · simp at h
  · cases hd : reply.document with
    | none => simp [hd] at h
    | some given =>
      rw [hd, Except.ok.injEq] at h
      rw [h]

theorem InterfaceDocument.ofText?_hasDistinctKeys [JsonWording] {text : String}
    {d : InterfaceDocument} (h : ofText? text = .ok d) : d.HasDistinctKeys := by
  rw [ofText?] at h
  cases hr : Reply.ofText? text with
  | none => simp [hr] at h
  | some reply =>
    obtain ⟨tree, -, ht⟩ := Option.bind_eq_some_iff.mp hr
    apply Reply.ofTree?_hasDistinctKeys ht
    apply Reply.document_of_ok
    cases hd : reply.document? with
    | error r => simp [hr, hd] at h
    | ok given => simpa [hr, hd] using h

/-! Endpoints -/

section Endpoints

variable [JsonWording]

/-- A body is read from the value itself or from the text that the value is, or it cannot be
read. -/
theorem Payload.ofBody?_cases {v : Value} {payload : Payload} (h : ofBody? v = some payload) :
    (∃ w, payload = .body (Schema.ofJson w) ∧ (w = v ∨ ∃ text, Value.ofText? text = some w)) ∨
      ∃ reason, payload = .malformed reason := by
  cases v with
  | null => simp [ofBody?] at h
  | string text =>
    rw [ofBody?] at h
    split at h
    · simp at h
    · cases hw : Value.ofText? text with
      | none =>
        simp only [hw, Option.some.injEq] at h
        exact .inr ⟨_, h.symm⟩
      | some w =>
        simp only [hw, Option.some.injEq] at h
        exact .inl ⟨w, h.symm, .inr ⟨text, hw⟩⟩
  | object members => exact .inl ⟨_, (Option.some.inj h).symm, .inl rfl⟩
  | bool _ | number _ | array _ => exact .inr ⟨_, (Option.some.inj h).symm⟩

theorem Payload.ofBody?_hasDistinctKeys {v : Value} {payload : Payload} (hv : v.HasDistinctKeys)
    (h : ofBody? v = some payload) : payload.HasDistinctKeys := by
  intro s hs
  rcases ofBody?_cases h with ⟨w, rfl, hw⟩ | ⟨reason, rfl⟩
  · have hkeys : w.HasDistinctKeys := by
      rcases hw with rfl | ⟨text, ht⟩
      · exact hv
      · exact Value.ofText?_hasDistinctKeys ht
    exact Payload.body.inj hs ▸ Schema.ofJson_hasDistinctKeys w hkeys
  · cases hs

/-- A body is no list of parameters. -/
theorem Payload.ofBody?_parameters? {v : Value} {payload : Payload}
    (h : ofBody? v = some payload) : payload.parameters? = Option.none := by
  rcases ofBody?_cases h with ⟨w, rfl, -⟩ | ⟨reason, rfl⟩
  · rfl
  · rfl

namespace InterfaceDocument

variable {d : InterfaceDocument}

theorem HasDistinctKeys.requestPayload (h : d.HasDistinctKeys) :
    d.requestPayload.HasDistinctKeys := by
  intro s hs
  rw [InterfaceDocument.requestPayload] at hs
  split at hs
  · next payload hbody =>
    split at hbody
    · obtain ⟨v, hv, hp⟩ := Option.bind_eq_some_iff.mp hbody
      exact Payload.ofBody?_hasDistinctKeys (h.requestBody v hv) hp s hs
    · simp at hbody
  · split at hs
    · simp at hs
    · split at hs
      · simp at hs
      · simp at hs

/-- The response is the body, if there is one that is read. -/
theorem responsePayload_cases (d : InterfaceDocument) :
    d.responsePayload = .none ∨
      ∃ v, d.responseBody = some v ∧ Payload.ofBody? v = some d.responsePayload := by
  rw [responsePayload]
  split
  · cases hp : d.responseBody.bind Payload.ofBody? with
    | none => exact .inl rfl
    | some payload => exact .inr (Option.bind_eq_some_iff.mp hp)
  · exact .inl rfl

theorem HasDistinctKeys.responsePayload (h : d.HasDistinctKeys) :
    d.responsePayload.HasDistinctKeys := by
  rcases d.responsePayload_cases with hn | ⟨v, hv, hp⟩
  · rw [hn]
    intro s hs
    cases hs
  · exact Payload.ofBody?_hasDistinctKeys (h.responseBody v hv) hp

theorem responsePayload_parameters? (d : InterfaceDocument) :
    d.responsePayload.parameters? = none := by
  rcases d.responsePayload_cases with hn | ⟨v, hv, hp⟩
  · rw [hn]
    rfl
  · exact Payload.ofBody?_parameters? hp

end InterfaceDocument

end Endpoints

end TypedApi
