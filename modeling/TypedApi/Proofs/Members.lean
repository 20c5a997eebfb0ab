import TypedApi.Proofs.Artifacts
import TypedApi.Proofs.DistinctKeys
import TypedApi.Proofs.Literal

/-!
Members of the interfaces of an endpoint. The fields of a declaration are the properties of an
object or the parameters of a list, in their order and under their names, and no two names are
written alike. So a member is repeated only where a list of parameters repeats a name.
-/
namespace TypedApi

theorem Schema.HasDistinctKeys.wrapped {s t : Schema} {k : Nat} (hs : s.HasDistinctKeys)
    (h : s.Wraps k t) : t.HasDistinctKeys := by
  induction h with
  | here => exact hs
  | layer _ hi _ ih => exact ih (hs.items hi)

def Declaration.HasDistinctFields (d : Declaration) : Prop := (d.fields.map (·.name)).Nodup

namespace DeclarationTree

variable {c : Convention} {log : List Allocation} {ds : List Diagnostic} {tree : DeclarationTree}

theorem distinctFields_of_children (htree : tree.declaration.HasDistinctFields)
    (hchildren : ∀ child ∈ tree.children, ∀ d ∈ child.declarations, d.HasDistinctFields) :
    ∀ d ∈ tree.declarations, d.HasDistinctFields := by
  rw [declarations_eq]
  refine List.forall_mem_cons.mpr ⟨htree, ?_⟩
  intro d hd
  obtain ⟨child, hchild, hd⟩ := List.mem_flatMap.mp hd
  exact hchildren child hchild d hd

theorem distinctFields_of_empty (hchildren : tree.children = [])
    (hfields : tree.declaration.fields = []) : ∀ d ∈ tree.declarations, d.HasDistinctFields := by
  apply distinctFields_of_children
  · rw [Declaration.HasDistinctFields, hfields]
    exact List.nodup_nil
  · simp [hchildren]

theorem MirrorsProperties.fieldNames {owner : String} {required : List String} {i : Nat}
    {properties : List (String × Schema)} {fields : List Field} {trees : List DeclarationTree}
    (h : MirrorsProperties c owner required i properties fields trees log) :
    fields.map (·.name) = properties.map Prod.fst := by
  induction h with
  | nil => rfl
  | plain _ _ _ ih => rw [List.map_cons, List.map_cons, ih]
  | nested _ _ _ _ _ _ ih => rw [List.map_cons, List.map_cons, ih]

/-- Distinct keys below the properties make distinct fields in all that is nested under them. -/
theorem MirrorsProperties.distinctFields {owner : String} {required : List String} {i : Nat}
    {properties : List (String × Schema)} {fields : List Field} {trees : List DeclarationTree}
    (h : MirrorsProperties c owner required i properties fields trees log)
    (hp : ∀ p ∈ properties, p.2.HasDistinctKeys) :
    ∀ tree ∈ trees, ∀ d ∈ tree.declarations, d.HasDistinctFields := by
  induction h with
  | nil => simp
  | plain _ _ _ ih => exact ih (List.forall_mem_cons.mp hp).2
  | @nested owner key required i k p t child rest fields trees below log hw _ _ hchild _ ihc ih =>
    obtain ⟨hhead, hrest⟩ := List.forall_mem_cons.mp hp
    obtain ⟨hkeys, hbelow⟩ := (hhead.wrapped hw).properties
    have hfields : child.declaration.HasDistinctFields := by
      rw [Declaration.HasDistinctFields, hchild.fieldNames]
      exact hkeys
    exact List.forall_mem_cons.mpr
      ⟨distinctFields_of_children hfields (ihc hbelow), ih hrest⟩

theorem parameterFields_names {owner : String} {parameters : List Parameter}
    {fields : List Field} (h : (parameterFields owner parameters).Yields c log ds fields) :
    fields.map (·.name) = parameters.map (·.name) := by
  induction parameters generalizing log ds fields with
  | nil =>
    obtain ⟨-, -, rfl⟩ := h
    rfl
  | cons p ps ih =>
    obtain ⟨_, _, _, _, field, -, -, hp, hafter⟩ := Walk.yields_bind.mp h
    obtain ⟨_, _, _, _, more, -, -, hps, -, -, rfl⟩ := Walk.yields_bind.mp hafter
    obtain ⟨_, _, _, _, u, -, -, -, -, -, rfl⟩ := Walk.yields_bind.mp hp
    rw [List.map_cons, List.map_cons, ih hps]
    rfl

theorem ofSchema_distinctFields {s : Schema} {candidate : String} (hs : s.HasDistinctKeys)
    (h : (ofSchema s candidate).Yields c log ds tree) :
    ∀ d ∈ tree.declarations, d.HasDistinctFields := by
  rcases ofSchema_yields h with ⟨-, hm⟩ | ⟨-, -, hc, hf⟩
  · obtain ⟨below, -, hp⟩ := hm.properties
    obtain ⟨hkeys, hbelow⟩ := hs.properties
    have hfields : tree.declaration.HasDistinctFields := by
      rw [Declaration.HasDistinctFields, hp.fieldNames]
      exact hkeys
    exact distinctFields_of_children hfields (hp.distinctFields hbelow)
  · exact distinctFields_of_empty hc hf

theorem ofParameters_declarations {parameters : List Parameter} {candidate : String}
    (h : (ofParameters parameters candidate).Yields c log ds tree) :
    tree.declarations = [tree.declaration] ∧
      tree.declaration.fields.map (·.name) = parameters.map (·.name) := by
  obtain ⟨_, _, _, _, name, -, -, -, hafter⟩ := Walk.yields_bind.mp h
  obtain ⟨_, _, _, _, fields, -, -, hf, -, -, rfl⟩ := Walk.yields_bind.mp hafter
  exact ⟨declarations_eq _, parameterFields_names hf⟩

/-- What a payload that is no list of parameters declares has distinct fields. -/
theorem ofPayload_distinctFields {payload : Payload} {candidate : String}
    (hp : payload.HasDistinctKeys) (hn : payload.parameters? = none)
    (h : (ofPayload payload candidate).Yields c log ds tree) :
    ∀ d ∈ tree.declarations, d.HasDistinctFields := by
  cases payload with
  | body s => exact ofSchema_distinctFields (hp s rfl) h
  | query ps => cases hn
  | form ps => cases hn
  | malformed reason =>
    obtain ⟨_, _, _, _, name, -, -, -, hafter⟩ := Walk.yields_bind.mp h
    obtain ⟨_, _, _, _, u, -, -, -, -, -, rfl⟩ := Walk.yields_bind.mp hafter
    exact distinctFields_of_empty rfl rfl
  | none =>
    obtain ⟨_, _, _, _, name, -, -, -, -, -, rfl⟩ := Walk.yields_bind.mp h
    exact distinctFields_of_empty rfl rfl

theorem ofPayload_parameters {payload : Payload} {parameters : List Parameter}
    {candidate : String} (hp : payload.parameters? = some parameters)
    (h : (ofPayload payload candidate).Yields c log ds tree) :
    tree.declarations = [tree.declaration] ∧
      tree.declaration.fields.map (·.name) = parameters.map (·.name) := by
  cases payload with
  | query ps =>
    cases hp
    exact ofParameters_declarations h
  | form ps =>
    cases hp
    exact ofParameters_declarations h
  | none => cases hp
  | body s => cases hp
  | malformed reason => cases hp

end DeclarationTree

namespace TypeScript

/-- What stands for the members of the interface. -/
def Interface.keys (i : Interface) : List String := i.members.map fun m => propertyKey m.name

/-- The interfaces of the file, in the order in which they are written. -/
def TypesFile.interfaces (file : TypesFile) : List Interface :=
  file.sections.flatMap fun tree => tree.emissionOrder.map Interface.ofDeclaration

theorem mem_interfaces {file : TypesFile} {i : Interface} :
    i ∈ file.interfaces ↔
      ∃ tree ∈ file.sections, ∃ d ∈ tree.declarations, Interface.ofDeclaration d = i := by
  simp [TypesFile.interfaces, DeclarationTree.mem_emissionOrder]

theorem keys_ofDeclaration (d : Declaration) :
    (Interface.ofDeclaration d).keys = (d.fields.map (·.name)).map propertyKey := by
  simp [Interface.keys, Interface.ofDeclaration]

/-- No two names are written alike. -/
theorem nodup_keys_iff {d : Declaration} :
    (Interface.ofDeclaration d).keys.Nodup ↔ d.HasDistinctFields := by
  rw [keys_ofDeclaration, Declaration.HasDistinctFields]
  exact List.nodup_map_iff fun a b h => propertyKey_injective h

/-! Interfaces of an endpoint -/

section
variable {options : Options} {endpoint : Endpoint} {trees : EndpointTrees} {state : WalkState}

/-- An interface with a repeated key is that of a list of parameters, key for key. -/
theorem repeated_keys (h : options.declare endpoint = (.ok trees, state))
    (hreq : endpoint.request.HasDistinctKeys) (hres : endpoint.response.HasDistinctKeys)
    (hn : endpoint.response.parameters? = none) :
    ∀ i ∈ (trees.typesFile endpoint).interfaces, ¬ i.keys.Nodup →
      ∃ parameters, endpoint.request.parameters? = some parameters ∧
        trees.request.map DeclarationTree.rootName = some i.name ∧
        i.keys = parameters.map fun p => propertyKey p.name := by
  intro i hi hrepeated
  obtain ⟨tree, ht, d, hd, rfl⟩ := mem_interfaces.mp hi
  rw [nodup_keys_iff] at hrepeated
  obtain ⟨payload, candidate, r, log, ds, hc, -, hw⟩ := declare_section h ht
  rcases hc with ⟨htree, rfl, rfl⟩ | ⟨-, rfl, rfl⟩
  · cases hps : endpoint.request.parameters? with
    | none => exact absurd (DeclarationTree.ofPayload_distinctFields hreq hps hw d hd) hrepeated
    | some parameters =>
      obtain ⟨hone, hnames⟩ := DeclarationTree.ofPayload_parameters hps hw
      rw [hone, List.mem_singleton] at hd
      subst hd
      refine ⟨parameters, rfl, ?_, ?_⟩
      · rw [Option.mem_def.mp htree]
        rfl
      · rw [keys_ofDeclaration, hnames, List.map_map]
        rfl
  · exact absurd (DeclarationTree.ofPayload_distinctFields hres hn hw d hd) hrepeated

/-- A list of parameters is written as an interface, key for key. -/
theorem parameter_keys (h : options.declare endpoint = (.ok trees, state))
    {parameters : List Parameter} (hp : endpoint.request.parameters? = some parameters) :
    ∃ i ∈ (trees.typesFile endpoint).interfaces,
      i.keys = parameters.map fun p => propertyKey p.name := by
  obtain ⟨l₁, l₂, d₁, d₂, -, hreq, -⟩ := declare_ok h
  obtain ⟨hsome, hw⟩ := declareRequest_yields hreq
  have hpresent : endpoint.request.isPresent = true := by
    cases he : endpoint.request with
    | none => simp [he, Payload.parameters?] at hp
    | body s => rfl
    | query ps => rfl
    | form ps => rfl
    | malformed reason => rfl
  obtain ⟨tree, ht⟩ := Option.isSome_iff_exists.mp (hsome.trans hpresent)
  obtain ⟨hone, hnames⟩ := DeclarationTree.ofPayload_parameters hp (hw tree ht)
  refine ⟨Interface.ofDeclaration tree.declaration, ?_, ?_⟩
  · have hs : tree ∈ (trees.typesFile endpoint).sections :=
      List.mem_append_left _ (Option.mem_toList.mpr ht)
    exact mem_interfaces.mpr ⟨tree, hs, tree.declaration, by simp [hone], rfl⟩
  · rw [keys_ofDeclaration, hnames, List.map_map]
    rfl

end

namespace Artifacts

/-- Documents have distinct keys in their bodies, because reading joins what a text repeats. So
the members of an interface are distinct, unless the document lists one parameter name twice: then
the interface of the request repeats that member, and it alone repeats any. -/
theorem generate_members [JsonWording] (options : Options) :
    (∀ text d, InterfaceDocument.ofText? text = .ok d → d.HasDistinctKeys) ∧
    ∀ (d : InterfaceDocument) (artifacts : Artifacts), d.HasDistinctKeys →
      generate options d.endpoint = .ok artifacts →
      ∃ trees state, options.declare d.endpoint = (.ok trees, state) ∧
        artifacts.types = (trees.typesFile d.endpoint).text ∧
        (∀ i ∈ (trees.typesFile d.endpoint).interfaces, ¬ i.keys.Nodup →
          ∃ parameters, d.requestPayload.parameters? = some parameters ∧
            artifacts.requestType = some i.name ∧
            i.keys = parameters.map fun p => propertyKey p.name) ∧
        ((∀ i ∈ (trees.typesFile d.endpoint).interfaces, i.keys.Nodup) ↔
          ∀ parameters, d.requestPayload.parameters? = some parameters →
            (parameters.map (·.name)).Nodup) := by
  refine ⟨fun text d h => InterfaceDocument.ofText?_hasDistinctKeys h, ?_⟩
  intro d artifacts hd h
  obtain ⟨trees, state, hdeclare, rfl⟩ := generate_ok h
  have hrepeated := repeated_keys hdeclare hd.requestPayload hd.responsePayload
    d.responsePayload_parameters?
  refine ⟨trees, state, hdeclare, rfl, ?_, ?_⟩
  · intro i hi hnot
    obtain ⟨parameters, hp, hname, hik⟩ := hrepeated i hi hnot
    exact ⟨parameters, hp, (requestArgument_type? _ _).trans hname, hik⟩
  · have hkeys : ∀ parameters : List Parameter,
        (parameters.map fun p => propertyKey p.name).Nodup ↔ (parameters.map (·.name)).Nodup := by
      intro parameters
      have hmap : parameters.map (fun p => propertyKey p.name) =
          (parameters.map (·.name)).map propertyKey := by
        rw [List.map_map]
        rfl
      rw [hmap]
      exact List.nodup_map_iff fun a b h => propertyKey_injective h
    constructor
    · intro hall parameters hp
      obtain ⟨i, hi, hik⟩ := parameter_keys hdeclare hp
      rw [← hkeys, ← hik]
      exact hall i hi
    · intro hdistinct i hi
      by_contra hnot
      obtain ⟨parameters, hp, -, hik⟩ := hrepeated i hi hnot
      rw [hik, hkeys] at hnot
      exact hnot (hdistinct parameters hp)

/-- The keys of the interfaces for a text, if it is a document that an endpoint is made from. -/
def writtenKeys [JsonWording] (options : Options) (text : String) :
    Option (List (List String)) := do
  let d ← (InterfaceDocument.ofText? text).toOption
  let trees ← (options.declare d.endpoint).1.toOption
  return (trees.typesFile d.endpoint).interfaces.map Interface.keys

theorem writtenKeys_eq_some [JsonWording] {options : Options} {text : String}
    {keys : List (List String)} (h : writtenKeys options text = some keys) :
    ∃ d artifacts trees state, InterfaceDocument.ofText? text = .ok d ∧
      generate options d.endpoint = .ok artifacts ∧
      options.declare d.endpoint = (.ok trees, state) ∧
      (trees.typesFile d.endpoint).interfaces.map Interface.keys = keys := by
  obtain ⟨d, hd, h⟩ := Option.bind_eq_some_iff.mp h
  obtain ⟨trees, ht, h⟩ := Option.bind_eq_some_iff.mp h
  have hdocument : InterfaceDocument.ofText? text = .ok d := by
    cases hr : InterfaceDocument.ofText? text with
    | error e => simp [hr, Except.toOption] at hd
    | ok given => simpa [hr, Except.toOption] using hd
  have htrees : (options.declare d.endpoint).1 = .ok trees := by
    cases hr : (options.declare d.endpoint).1 with
    | error e => simp [hr, Except.toOption] at ht
    | ok given => simpa [hr, Except.toOption] using ht
  obtain ⟨artifacts, hgenerate⟩ : ∃ artifacts, generate options d.endpoint = .ok artifacts := by
    rw [generate_eq, htrees]
    exact ⟨_, rfl⟩
  exact ⟨d, artifacts, trees, _, hdocument, hgenerate, Prod.ext htrees rfl, Option.some.inj h⟩

section Orders

attribute [local instance] JsonWording.terse

/-- Two parameters that only quotes tell apart, and a body in which a property is repeated. -/
def orderText : String :=
  "\x7b\"errcode\":0,\"data\":\x7b\"path\":\"/order\",\"req_query\":" ++
    "[\x7b\"name\":\"i-d\"\x7d,\x7b\"name\":\"'i-d'\"\x7d],\"res_body_type\":\"json\"," ++
    "\"res_body\":\x7b\"properties\":\x7b\"a\":1,\"b\":2,\"a\":3\x7d\x7d\x7d\x7d"

theorem orderText_members : ∃ d artifacts trees state,
    InterfaceDocument.ofText? orderText = .ok d ∧ d.HasDistinctKeys ∧
    generate {} d.endpoint = .ok artifacts ∧
    ({} : Options).declare d.endpoint = (.ok trees, state) ∧
    (trees.typesFile d.endpoint).interfaces.map Interface.keys =
      [["'i-d'", "'\\'i-d\\''"], ["a", "b"]] ∧
    ∀ parameters, d.requestPayload.parameters? = some parameters →
      (parameters.map (·.name)).Nodup := by
  have hwritten : writtenKeys {} orderText =
      some [["'i-d'", "'\\'i-d\\''"], ["a", "b"]] := by decide +kernel
  obtain ⟨d, artifacts, trees, state, hd, h, hdeclare, hkeys⟩ := writtenKeys_eq_some hwritten
  obtain ⟨hdocument, hmembers⟩ := generate_members {}
  have hdistinct := hdocument _ d hd
  obtain ⟨trees', state', hdeclare', -, -, hiff⟩ := hmembers d artifacts hdistinct h
  cases hdeclare.symm.trans hdeclare'
  refine ⟨d, artifacts, trees, state, hd, hdistinct, h, hdeclare, hkeys, hiff.mp ?_⟩
  intro i hi
  have hall : ∀ ks ∈ (trees.typesFile d.endpoint).interfaces.map Interface.keys, ks.Nodup := by
    rw [hkeys]
    decide
  exact hall _ (List.mem_map_of_mem hi)

/-- Two parameters that only blanks tell apart. -/
def repeatingText : String :=
  "\x7b\"errcode\":0,\"data\":\x7b\"path\":\"/order\",\"req_query\":" ++
    "[\x7b\"name\":\"id\"\x7d,\x7b\"name\":\" id\"\x7d]\x7d\x7d"

/-- A list of parameters can repeat a member. -/
theorem repeatingText_members : ∃ d artifacts trees state,
    InterfaceDocument.ofText? repeatingText = .ok d ∧ generate {} d.endpoint = .ok artifacts ∧
    ({} : Options).declare d.endpoint = (.ok trees, state) ∧
    (trees.typesFile d.endpoint).interfaces.map Interface.keys = [["id", "id"], []] ∧
    ¬ ∀ i ∈ (trees.typesFile d.endpoint).interfaces, i.keys.Nodup := by
  have hwritten : writtenKeys {} repeatingText = some [["id", "id"], []] := by decide +kernel
  obtain ⟨d, artifacts, trees, state, hd, h, hdeclare, hkeys⟩ := writtenKeys_eq_some hwritten
  refine ⟨d, artifacts, trees, state, hd, h, hdeclare, hkeys, ?_⟩
  intro hall
  have hnodup : ∀ keys ∈ (trees.typesFile d.endpoint).interfaces.map Interface.keys,
      keys.Nodup := List.forall_mem_map.mpr hall
  rw [hkeys] at hnodup
  exact absurd (hnodup ["id", "id"] (List.mem_cons_self ..)) (by decide)

end Orders

end Artifacts
end TypeScript
end TypedApi
