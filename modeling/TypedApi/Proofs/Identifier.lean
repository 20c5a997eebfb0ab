import TypedApi.Proofs.Artifacts
import TypedApi.Proofs.Words

/-!
All names of an endpoint can stand in its files: they are identifiers and not reserved. A name only
grows at its end, so it remains an identifier. Type names hold an upper-case letter, which no
reserved word does, and function names are escaped.
-/
namespace TypedApi

namespace DeclarationTree

variable {c : Convention} {P : String → Prop} {log : List Allocation}

/-- What the name of a declaration passes on to candidates built from it, and what a candidate
passes on to its name, holds of all names below the declaration. -/
theorem MirrorsProperties.forall_names
    (hgrow : ∀ owner key i k, P owner → P (owner ++ c.propertyWord key i ++ itemMark k))
    {owner : String} {required : List String} {i : Nat} {properties : List (String × Schema)}
    {fields : List Field} {trees : List DeclarationTree}
    (h : MirrorsProperties c owner required i properties fields trees log)
    (hlog : ∀ a ∈ log, P a.candidate → P a.name) (ho : P owner) : ∀ a ∈ log, P a.name := by
  induction h with
  | nil => simp
  | plain _ _ _ ih => exact ih hlog ho
  | @nested owner key required i k p t child rest fields trees below log _ _ _ _ _ ihc ih =>
    obtain ⟨hhead, hlog⟩ := List.forall_mem_cons.mp hlog
    obtain ⟨hbelow, hlog⟩ := List.forall_mem_append.mp hlog
    have hchild : P child.rootName := hhead (hgrow owner key i k ho)
    exact List.forall_mem_cons.mpr
      ⟨hchild, List.forall_mem_append.mpr ⟨ihc hbelow hchild, ih hlog ho⟩⟩

theorem ofPayload_names
    (hgrow : ∀ owner key i k, P owner → P (owner ++ c.propertyWord key i ++ itemMark k))
    {payload : Payload} {candidate : String} {ds : List Diagnostic} {tree : DeclarationTree}
    (h : (ofPayload payload candidate).Yields c log ds tree)
    (hlog : ∀ a ∈ log, P a.candidate → P a.name) (hc : P candidate) :
    ∀ name ∈ tree.names, P name := by
  rw [(ofPayload_linked h).2]
  refine List.forall_mem_map.mpr ?_
  rcases ofPayload_yields h with ⟨s, hm⟩ | ⟨rfl, -, -⟩
  · obtain ⟨below, rfl, hp⟩ := hm.properties
    obtain ⟨hroot, hbelow⟩ := List.forall_mem_cons.mp hlog
    exact List.forall_mem_cons.mpr ⟨hroot hc, hp.forall_names hgrow hbelow (hroot hc)⟩
  · obtain ⟨hroot, -⟩ := List.forall_mem_cons.mp hlog
    exact List.forall_mem_singleton.mpr (hroot hc)

end DeclarationTree

namespace TypeScript

/-- The name can stand in a module as it is. -/
structure IsUsable (name : String) : Prop where
  identifier : Text.isIdentifier name.toList = true
  free : convention.isReserved name = false

/-- Type names are told from reserved words by an upper-case letter. -/
structure IsTypeName (name : String) : Prop where
  identifier : Text.isIdentifier name.toList = true
  upper : name.toList.any Char.isUpper = true

/-- A part of a name that may follow any other. -/
def IsTail (part : String) : Prop := ∀ c ∈ part.toList, Text.isIdentChar c = true

theorem reservedWords_lower : ∀ word ∈ reservedWords, word.toList.any Char.isUpper = false := by
  decide +kernel

theorem reservedWords_head : ∀ word ∈ reservedWords, word.toList.head? ≠ some '_' := by
  decide +kernel

theorem isReserved_iff (name : String) :
    convention.isReserved name = true ↔ name ∈ reservedWords := by
  simp [Convention.isReserved, convention]

theorem IsTypeName.usable {name : String} (h : IsTypeName name) : IsUsable name where
  identifier := h.identifier
  free := by
    cases hr : convention.isReserved name with
    | false => rfl
    | true =>
      have hl := reservedWords_lower name ((isReserved_iff name).mp hr)
      rw [h.upper] at hl
      cases hl

theorem IsTypeName.append {name part : String} (h : IsTypeName name) (hp : IsTail part) :
    IsTypeName (name ++ part) where
  identifier := by
    rw [String.toList_append]
    exact Text.isIdentifier_append h.identifier hp
  upper := by rw [String.toList_append, List.any_append, h.upper, Bool.true_or]

theorem IsTail.append {s t : String} (hs : IsTail s) (ht : IsTail t) : IsTail (s ++ t) := by
  rw [IsTail, String.toList_append]
  exact List.forall_mem_append.mpr ⟨hs, ht⟩

theorem isTail_of_all {part : String} (h : part.toList.all Text.isIdentChar = true) :
    IsTail part := List.all_eq_true.mp h

theorem isTail_number (n : Nat) : IsTail (toString n) := by
  intro c hc
  rw [Nat.toString_eq_repr, Nat.toList_repr] at hc
  have hd : c.isDigit = true := Nat.isDigit_of_mem_toDigits (by decide) (by decide) hc
  simp [Text.isIdentChar, Char.isAlphanum, hd]

theorem isTail_propertyWord (key : String) (i : Nat) :
    IsTail (convention.propertyWord key i) := by
  rw [Convention.propertyWord]
  split
  · exact (isTail_of_all (by decide)).append (isTail_number (i + 1))
  · intro c hc
    rw [convention, Text.toList_mapChars] at hc
    exact Text.capitalizeWords_isIdentChar key.toList c hc

theorem isTail_itemMark (k : Nat) : IsTail (itemMark k) := by
  rw [itemMark]
  split
  · exact isTail_of_all (by decide)
  · exact isTail_of_all (by decide)

/-- What a name keeps whatever is put to its end, the names built from it have as well. -/
theorem ofPayload_tailNames {P : String → Prop}
    (hgrow : ∀ name part, P name → IsTail part → P (name ++ part)) {r : Registry}
    {payload : Payload} {candidate : String} {log : List Allocation} {ds : List Diagnostic}
    {tree : DeclarationTree} (hr : r.Replays log)
    (h : (DeclarationTree.ofPayload payload candidate).Yields convention log ds tree)
    (hc : P candidate) : ∀ name ∈ tree.names, P name := by
  apply DeclarationTree.ofPayload_names _ h _ hc
  · intro owner key i k ho
    exact hgrow _ _ (hgrow _ _ ho (isTail_propertyWord key i)) (isTail_itemMark k)
  · intro a ha hp
    rcases hr.name_eq ha with he | ⟨n, -, he⟩
    · exact he ▸ hp
    · rw [he]
      exact hgrow _ _ hp (isTail_number n)

theorem declare_tailNames {P : String → Prop}
    (hgrow : ∀ name part, P name → IsTail part → P (name ++ part)) {options : Options}
    {endpoint : Endpoint} {trees : EndpointTrees} {state : WalkState}
    (h : options.declare endpoint = (.ok trees, state))
    (hreq : P (options.names endpoint).request) (hres : P (options.names endpoint).response) :
    ∀ tree ∈ trees.sections, ∀ name ∈ tree.names, P name := by
  intro tree ht
  obtain ⟨payload, candidate, r, log, ds, hc, hr, hw⟩ := declare_section h ht
  apply ofPayload_tailNames hgrow hr hw
  rcases hc with ⟨-, -, rfl⟩ | ⟨-, -, rfl⟩
  · exact hreq
  · exact hres

/-! Derived names -/

theorem isTail_roleMark (r : Registry) (method : Method) (role : Role) :
    IsTail (r.roleMark method role) := by
  rw [Registry.roleMark]
  refine IsTail.append ?_ ?_
  · cases method <;> exact isTail_of_all (by decide)
  · cases r.settings.roleSuffix <;> cases role <;> exact isTail_of_all (by decide)

theorem roleMark_upper (r : Registry) (method : Method) (role : Role) :
    (r.roleMark method role).toList.any Char.isUpper = true := by
  rw [Registry.roleMark, String.toList_append, List.any_append]
  cases method <;> rfl

theorem isTail_words (segments : List (List Char)) :
    IsTail (String.join (segments.map fun s => convention.segmentWord (.ofList s))) := by
  induction segments with
  | nil => simp [IsTail]
  | cons s rest ih =>
    rw [List.map_cons, String.join_cons]
    refine IsTail.append ?_ ih
    intro c hc
    rw [convention, Text.toList_mapChars] at hc
    exact Text.pascalCase_isIdentChar _ c hc

variable {r : Registry}

theorem guardDigit_isTypeName {name : String} (ht : IsTail name)
    (hu : name.toList.any Char.isUpper = true) :
    IsTypeName (Text.mapChars Text.guardDigit name) := by
  obtain ⟨c, hc, hcu⟩ := List.any_eq_true.mp hu
  constructor
  · rw [Text.toList_mapChars]
    exact Text.guardDigit_isIdentifier (List.ne_nil_of_mem hc) ht
  · rw [Text.toList_mapChars]
    exact List.any_eq_true.mpr ⟨c, Text.mem_guardDigit hc, hcu⟩

theorem typeName_isTypeName (hr : r.convention = convention) {path name : String}
    {method : Method} {role : Role} (h : r.typeName path method role = .ok name) :
    IsTypeName name := by
  rw [Registry.typeName, hr] at h
  split at h
  · simp at h
  · obtain rfl := Except.ok.inj h
    apply guardDigit_isTypeName
    · exact IsTail.append (isTail_words (Path.segments path)) (isTail_roleMark r method role)
    · rw [String.toList_append, List.any_append, roleMark_upper, Bool.or_true]

theorem placeholderType_isTypeName (method : Method) (role : Role) :
    IsTypeName (r.placeholderType method role) := by
  have hu : IsTypeName "Unknown" := ⟨by decide, by decide⟩
  exact hu.append (isTail_roleMark r method role)

theorem typeNameOrPlaceholder_isTypeName (hr : r.convention = convention) (path : String)
    (method : Method) (role : Role) :
    IsTypeName (r.typeNameOrPlaceholder path method role).1 := by
  rw [Registry.typeNameOrPlaceholder]
  cases h : r.typeName path method role with
  | ok name => exact typeName_isTypeName hr h
  | error e => exact placeholderType_isTypeName method role

theorem safeName_usable {name : String} (h : Text.isIdentifier name.toList = true) :
    IsUsable (convention.safeName name) := by
  rw [Convention.safeName]
  cases hr : convention.isReserved name with
  | false => exact ⟨by simpa using h, hr⟩
  | true =>
    obtain ⟨c, rest, he, -, hall⟩ := (Text.isIdentifier_iff _).mp h
    have hl : (convention.escape name).toList = '_' :: name.toList := by
      rw [convention, String.toList_append]
      rfl
    rw [if_pos rfl]
    constructor
    · rw [hl, Text.isIdentifier_iff]
      exact ⟨'_', _, rfl, by decide, List.forall_mem_cons.mpr ⟨by decide, hall⟩⟩
    · rw [← Bool.not_eq_true, isReserved_iff]
      intro hm
      exact reservedWords_head _ hm (by rw [hl, List.head?_cons])

theorem isTail_functionBase (segment : List Char) :
    IsTail (Registry.functionBase convention segment) := by
  intro c hc
  simp only [Registry.functionBase] at hc
  split at hc
  · next h =>
    rw [Bool.and_eq_true, Text.isIdentifier_iff] at h
    obtain ⟨-, d, rest, -, -, hall⟩ := h
    exact hall c (by simpa using hc)
  · rw [convention, Text.toList_mapChars] at hc
    exact Text.isIdentChar_of_isAlphanum (Text.camelCase_isAlphanum _ c hc)

theorem functionName_usable (hr : r.convention = convention) {path name : String}
    (h : r.functionName path = .ok name) : IsUsable name := by
  rw [Registry.functionName, hr] at h
  cases hs : (Path.segments path).getLast? with
  | none => simp [hs] at h
  | some segment =>
    simp only [hs, Option.map_some, Option.getD_some] at h
    split at h
    · simp at h
    · next hne =>
      obtain rfl := Except.ok.inj h
      apply safeName_usable
      rw [Text.toList_mapChars]
      refine Text.guardDigit_isIdentifier ?_ (isTail_functionBase segment)
      simpa using hne

theorem functionNameOrPlaceholder_usable (hr : r.convention = convention) (path : String) :
    IsUsable (r.functionNameOrPlaceholder path).1 := by
  rw [Registry.functionNameOrPlaceholder]
  cases h : r.functionName path with
  | ok name => exact functionName_usable hr h
  | error e =>
    have hp : IsUsable placeholderFunction := ⟨by decide, by decide⟩
    exact hp

theorem derive_usable (hr : r.convention = convention) (endpoint : Endpoint) :
    let names := (EndpointNames.derive r endpoint).1
    IsTypeName names.request ∧ IsTypeName names.response ∧ IsUsable names.function := by
  rw [EndpointNames.derive]
  exact ⟨typeNameOrPlaceholder_isTypeName hr endpoint.path endpoint.method .request,
    typeNameOrPlaceholder_isTypeName hr endpoint.path endpoint.method .response,
    functionNameOrPlaceholder_usable hr endpoint.path⟩

theorem declare_typeNames {options : Options} {endpoint : Endpoint} {trees : EndpointTrees}
    {state : WalkState} (h : options.declare endpoint = (.ok trees, state)) :
    ∀ tree ∈ trees.sections, ∀ name ∈ tree.names, IsTypeName name := by
  obtain ⟨hreq, hres, -⟩ := derive_usable (r := options.registry) rfl endpoint
  exact declare_tailNames (fun _ _ => IsTypeName.append) h hreq hres

namespace Artifacts

/-- Whatever its path and payloads are, an endpoint gets no name that cannot be used. -/
theorem generate_usable {options : Options} {endpoint : Endpoint} {artifacts : Artifacts}
    (h : generate options endpoint = .ok artifacts) :
    (∃ trees state, options.declare endpoint = (.ok trees, state) ∧
      artifacts = assemble options endpoint (options.names endpoint).function trees
        state.diagnostics ∧
      ∀ tree ∈ trees.sections, ∀ name ∈ tree.names, IsUsable name) ∧
    (∀ name ∈ artifacts.requestType, IsUsable name) ∧ IsUsable artifacts.responseType ∧
    IsUsable artifacts.functionName := by
  obtain ⟨trees, state, hd, rfl⟩ := generate_ok h
  have hnames : ∀ tree ∈ trees.sections, ∀ name ∈ tree.names, IsUsable name :=
    fun tree ht name hn => (declare_typeNames hd tree ht name hn).usable
  refine ⟨⟨trees, state, hd, rfl, hnames⟩, ?_, ?_, ?_⟩
  · intro name hn
    simp only [assemble, requestArgument_type?, Option.mem_def, Option.map_eq_some_iff] at hn
    obtain ⟨tree, ht, rfl⟩ := hn
    have hs : tree ∈ trees.sections := List.mem_append_left _ (Option.mem_toList.mpr ht)
    exact hnames tree hs _ tree.rootName_mem_names
  · have hs : trees.response ∈ trees.sections := List.mem_append_right _ (List.mem_singleton_self _)
    exact hnames trees.response hs _ trees.response.rootName_mem_names
  · obtain ⟨-, -, hf⟩ := derive_usable (r := options.registry) rfl endpoint
    exact hf

/-- A path that starts with a digit and ends in a reserved word, and keys that are taken from all
over Unicode. -/
def parcels : Endpoint where
  title := ""
  path := "/3d/用户/:delete"
  method := .delete
  request := .body DeclarationTree.basket
  response := .query []

theorem parcels_usable :
    ∃ artifacts, generate {} parcels = .ok artifacts ∧
      artifacts.requestType = some "_3dDeleteDELETEReq" ∧
      artifacts.responseType = "_3dDeleteDELETERes" ∧ artifacts.functionName = "_delete" ∧
      IsUsable "_3dDeleteDELETEReq" ∧ IsUsable "_3dDeleteDELETERes" ∧ IsUsable "_delete" := by
  obtain ⟨artifacts, h, hreq, hres, hf⟩ : ∃ artifacts, generate {} parcels = .ok artifacts ∧
      artifacts.requestType = some "_3dDeleteDELETEReq" ∧
      artifacts.responseType = "_3dDeleteDELETERes" ∧ artifacts.functionName = "_delete" :=
    ⟨_, rfl, by decide +kernel, by decide +kernel, by decide +kernel⟩
  obtain ⟨-, hq, hs, hu⟩ := generate_usable h
  exact ⟨artifacts, h, hreq, hres, hf, hq _ hreq, hres ▸ hs, hf ▸ hu⟩

end Artifacts
end TypeScript
end TypedApi
