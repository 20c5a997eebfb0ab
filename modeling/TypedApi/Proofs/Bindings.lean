import TypedApi.Proofs.Identifier

/-!
What the client file binds at its top: the default import, the imported types and the function. A
type carries all segments of the path and a mark, the function only its last segment, so the two
never meet; only the function can meet the default import or a word that is not reserved but
still cannot be bound.
-/
namespace TypedApi.TypeScript

/-- What an import binds in its file. -/
def Import.bindings (i : Import) : List String := i.default.toList ++ i.names

/-- What the file binds outside of its function. -/
def ClientFile.bindings (file : ClientFile) : List String :=
  file.sourceFile.imports.flatMap Import.bindings ++ [file.function.name]

/-- The words that no binding of a module may have: those that are reserved everywhere, those
reserved in modules and in strict code, and the two names that strict code does not bind. -/
def unboundWords : List String := [
  "await", "break", "case", "catch", "class", "const", "continue", "debugger", "default", "delete",
  "do", "else", "enum", "export", "extends", "false", "finally", "for", "function", "if", "import",
  "in", "instanceof", "new", "null", "return", "super", "switch", "this", "throw", "true", "try",
  "typeof", "var", "void", "while", "with", "yield",
  "implements", "interface", "let", "package", "private", "protected", "public", "static",
  "eval", "arguments"]

theorem mem_unboundWords {name : String} :
    name ∈ unboundWords ↔ name ∈ reservedWords ∨ name = "eval" ∨ name = "arguments" := by
  have hout : ∀ word ∈ unboundWords,
      word ∈ reservedWords ∨ word = "eval" ∨ word = "arguments" := by decide +kernel
  have hin : ∀ word ∈ reservedWords, word ∈ unboundWords := by decide +kernel
  constructor
  · exact hout name
  · rintro (h | rfl | rfl)
    · exact hin name h
    · decide +kernel
    · decide +kernel

theorem IsUsable.mem_unboundWords {name : String} (h : IsUsable name) :
    name ∈ unboundWords ↔ name = "eval" ∨ name = "arguments" := by
  have hfree : name ∉ reservedWords := by
    rw [← isReserved_iff, h.free]
    decide
  rw [TypeScript.mem_unboundWords, or_iff_right hfree]

/-- An upper-case letter is in no word that a type could meet. -/
theorem IsTypeName.ne_of_lower {name word : String} (h : IsTypeName name)
    (hw : word.toList.any Char.isUpper = false) : name ≠ word := by
  rintro rfl
  rw [h.upper] at hw
  cases hw

theorem IsTypeName.not_mem_unboundWords {name : String} (h : IsTypeName name) :
    name ∉ unboundWords := by
  rw [h.usable.mem_unboundWords]
  exact not_or.mpr ⟨h.ne_of_lower (by decide), h.ne_of_lower (by decide)⟩

/-! Functions are lighter than types -/

variable {r : Registry}

theorem weight_segment_le_words {segment : List Char} {segments : List (List Char)}
    (h : segment ∈ segments) :
    Text.weight segment ≤ Text.weight
      (String.join (segments.map fun s => convention.segmentWord (.ofList s))).toList := by
  induction segments with
  | nil => simp at h
  | cons s rest ih =>
    have hword : Text.weight (convention.segmentWord (.ofList s)).toList = Text.weight s := by
      rw [convention, Text.toList_mapChars, String.toList_ofList, Text.weight_pascalCase]
    rw [List.map_cons, String.join_cons, String.toList_append, Text.weight_append, hword]
    rcases List.mem_cons.mp h with rfl | h
    · omega
    · have hrest := ih h
      omega

theorem weight_roleMark (r : Registry) (method : Method) (role : Role) :
    6 ≤ Text.weight (r.roleMark method role).toList := by
  rw [Registry.roleMark]
  cases method <;> cases r.settings.roleSuffix <;> cases role <;> decide

theorem weight_typeName (hr : r.convention = convention) {path : String} {method : Method}
    {role : Role} {segment : List Char} (h : segment ∈ Path.segments path) :
    Text.weight segment + 6 ≤
      Text.weight (r.typeNameOrPlaceholder path method role).1.toList := by
  have hwords := weight_segment_le_words h
  have hmark := weight_roleMark r method role
  rw [Registry.typeNameOrPlaceholder, Registry.typeName, hr]
  split
  · next he =>
    -- The words are empty, so no segment has a word character.
    have hnone : Text.weight segment ≤ 0 := by rwa [he] at hwords
    simp only [Registry.orPlaceholder, Registry.placeholderType, String.toList_append,
      Text.weight_append]
    omega
  · simp only [Registry.orPlaceholder, Text.toList_mapChars, Text.weight_guardDigit,
      String.toList_append, Text.weight_append]
    omega

theorem weight_safeName (name : String) :
    Text.weight (convention.safeName name).toList = Text.weight name.toList := by
  have hbar : Text.weight "_".toList = 0 := by decide
  rw [Convention.safeName]
  split
  · rw [convention, String.toList_append, Text.weight_append, hbar, Nat.zero_add]
  · rfl

theorem weight_functionBase (segment : List Char) :
    Text.weight (Registry.functionBase convention segment).toList ≤ Text.weight segment + 2 := by
  simp only [Registry.functionBase]
  split
  · rw [String.toList_ofList]
    exact Text.weight_lowercaseFirst_le segment
  · rw [convention, Text.toList_mapChars, String.toList_ofList]
    have hcamel := Text.weight_camelCase_le segment
    omega

/-- A function that is not the placeholder has little more than the characters of a segment. -/
theorem weight_functionName (hr : r.convention = convention) (path : String) :
    (r.functionNameOrPlaceholder path).1 = placeholderFunction ∨
      ∃ segment ∈ Path.segments path,
        Text.weight (r.functionNameOrPlaceholder path).1.toList ≤ Text.weight segment + 2 := by
  rw [Registry.functionNameOrPlaceholder, Registry.functionName, hr]
  cases hs : (Path.segments path).getLast? with
  | none => exact .inl rfl
  | some segment =>
    simp only [Option.map_some, Option.getD_some]
    split
    · exact .inl rfl
    · refine .inr ⟨segment, List.mem_of_getLast? hs, ?_⟩
      rw [Registry.orPlaceholder, weight_safeName, Text.toList_mapChars, Text.weight_guardDigit]
      exact weight_functionBase segment

/-- A word that neither the guard nor the escape nor the placeholder can make. -/
structure IsOwnWord (word : String) : Prop where
  free : convention.isReserved word = false
  given : word ≠ placeholderFunction
  start : ∃ c rest, word.toList = c :: rest ∧ c.isDigit = false ∧ c ≠ '_'

theorem IsOwnWord.safeName_eq {word name : String} (h : IsOwnWord word) :
    convention.safeName name = word ↔ name = word := by
  obtain ⟨c, rest, hword, -, hbar⟩ := h.start
  rw [Convention.safeName]
  split
  · next hreserved =>
    constructor
    · intro he
      have hl : ('_' :: name.toList) = c :: rest := by
        rw [← hword, ← he, convention, String.toList_append]
        rfl
      exact absurd (List.cons.inj hl).1.symm hbar
    · rintro rfl
      rw [h.free] at hreserved
      cases hreserved
  · rfl

theorem IsOwnWord.guardDigit_eq {word name : String} (h : IsOwnWord word) :
    Text.mapChars Text.guardDigit name = word ↔ name = word := by
  obtain ⟨c, rest, hword, hdigit, hbar⟩ := h.start
  rw [← String.toList_inj, ← String.toList_inj, Text.toList_mapChars, hword]
  cases name.toList with
  | nil => rfl
  | cons d others =>
    rw [Text.guardDigit]
    split
    · next hd =>
      constructor
      · intro he
        exact absurd (List.cons.inj he).1.symm hbar
      · intro he
        rw [(List.cons.inj he).1, hdigit] at hd
        cases hd
    · rfl

theorem isOwnWord_of_mem : ∀ word ∈ ["axios", "eval", "arguments"], IsOwnWord word := by
  intro word hword
  simp only [List.mem_cons, List.not_mem_nil, or_false] at hword
  rcases hword with rfl | rfl | rfl
  all_goals exact ⟨by decide, by decide, _, _, rfl, by decide, by decide⟩

/-- Which paths give such a word to their function: those whose last segment is spelled so. -/
theorem functionName_eq_iff (hr : r.convention = convention) {path word : String}
    (hw : IsOwnWord word) :
    (r.functionNameOrPlaceholder path).1 = word ↔
      (Path.segments path).getLast?.map (Registry.functionBase convention) = some word := by
  have hplaceholder : placeholderFunction ≠ word := hw.given.symm
  rw [Registry.functionNameOrPlaceholder, Registry.functionName, hr]
  cases hs : (Path.segments path).getLast? with
  | none => simp [Registry.orPlaceholder, hplaceholder]
  | some segment =>
    simp only [Option.map_some, Option.getD_some, Option.some.injEq]
    split
    · next hempty =>
      have hne : word ≠ "" := by
        obtain ⟨c, rest, hword, -, -⟩ := hw.start
        rintro rfl
        simp at hword
      simp [Registry.orPlaceholder, hplaceholder, hempty, hne.symm]
    · rw [Registry.orPlaceholder, hw.safeName_eq, hw.guardDigit_eq]

/-- At least so many upper-case letters; the placeholder of functions has fewer. -/
theorem uppers_typeName (path : String) (method : Method) (role : Role) :
    2 ≤ (r.typeNameOrPlaceholder path method role).1.toList.countP Char.isUpper := by
  have hmark : 2 ≤ (r.roleMark method role).toList.countP Char.isUpper := by
    rw [Registry.roleMark]
    cases method <;> cases r.settings.roleSuffix <;> cases role <;> decide
  rw [Registry.typeNameOrPlaceholder, Registry.typeName]
  split
  · simp only [Registry.orPlaceholder, Registry.placeholderType, String.toList_append,
      List.countP_append]
    omega
  · simp only [Registry.orPlaceholder, Text.toList_mapChars]
    refine Nat.le_trans ?_ (Text.sublist_guardDigit _).countP_le
    rw [String.toList_append, List.countP_append]
    omega

/-! Bindings of an endpoint -/

variable {options : Options} {endpoint : Endpoint} {trees : EndpointTrees} {state : WalkState}

theorem declare_countP {p : Char → Bool} {n : Nat}
    (h : options.declare endpoint = (.ok trees, state))
    (hreq : n ≤ (options.names endpoint).request.toList.countP p)
    (hres : n ≤ (options.names endpoint).response.toList.countP p) :
    ∀ tree ∈ trees.sections, ∀ name ∈ tree.names, n ≤ name.toList.countP p := by
  apply declare_tailNames (P := fun name => n ≤ name.toList.countP p) _ h hreq hres
  intro name part hn _
  rw [String.toList_append, List.countP_append]
  omega

/-- The function is called differently from every declaration, those that nothing imports
included. -/
theorem declare_ne_function (h : options.declare endpoint = (.ok trees, state)) :
    ∀ tree ∈ trees.sections, ∀ name ∈ tree.names, name ≠ (options.names endpoint).function := by
  intro tree ht name hn he
  have hr : options.registry.convention = convention := rfl
  rcases weight_functionName hr endpoint.path with hf | ⟨segment, hs, hf⟩
  · have huppers := declare_countP h (uppers_typeName endpoint.path endpoint.method .request)
      (uppers_typeName endpoint.path endpoint.method .response) tree ht name hn
    have hplaceholder : placeholderFunction.toList.countP Char.isUpper = 1 := by decide
    have hname : name = placeholderFunction := he.trans hf
    rw [hname, hplaceholder] at huppers
    omega
  · have hweight := declare_countP h (weight_typeName hr hs) (weight_typeName hr hs) tree ht name hn
    have hle : name.toList.countP Text.isWordChar ≤ Text.weight segment + 2 := he ▸ hf
    omega

theorem declare_roots_ne (h : options.declare endpoint = (.ok trees, state)) :
    ∀ tree ∈ trees.request, tree.rootName ≠ trees.response.rootName := by
  intro tree ht he
  obtain ⟨l₁, l₂, d₁, d₂, hlog, hreq, hres⟩ := declare_ok h
  have hissued : ((l₁ ++ l₂).map (·.name)).Nodup := by
    have hn := hlog.nodup (List.nodup_nil : options.registry.issued.Nodup)
    exact hn
  have hw := (declareRequest_yields hreq).2 tree ht
  have hreqName : tree.rootName ∈ l₁.map (·.name) := by
    rw [← (DeclarationTree.ofPayload_linked hw).2]
    exact tree.rootName_mem_names
  have hresName : trees.response.rootName ∈ l₂.map (·.name) := by
    rw [← (DeclarationTree.ofPayload_linked hres).2]
    exact trees.response.rootName_mem_names
  rw [List.map_append] at hissued
  exact (List.nodup_append.mp hissued).2.2 _ hreqName _ hresName he

theorem clientFile_bindings (h : options.declare endpoint = (.ok trees, state)) :
    (options.clientFile endpoint trees).bindings =
      "axios" :: (trees.sections.map DeclarationTree.rootName ++
        [(options.names endpoint).function]) := by
  have htypes : (options.clientFile endpoint trees).importedTypes =
      trees.sections.map DeclarationTree.rootName := by
    rw [ClientFile.importedTypes, Options.clientFile, requestArgument_type?,
      EndpointTrees.sections]
    cases ht : trees.request with
    | none => rfl
    | some tree => simp [declare_roots_ne h tree ht]
  rw [ClientFile.bindings, ClientFile.sourceFile, typeImport_eq, htypes]
  simp [Import.bindings, ClientFile.function, Options.clientFile]

theorem declare_rootTypes (h : options.declare endpoint = (.ok trees, state)) :
    ∀ name ∈ trees.sections.map DeclarationTree.rootName, IsTypeName name := by
  intro name hn
  obtain ⟨tree, ht, rfl⟩ := List.mem_map.mp hn
  exact declare_typeNames h tree ht _ tree.rootName_mem_names

theorem declare_rootTypes_nodup (h : options.declare endpoint = (.ok trees, state)) :
    (trees.sections.map DeclarationTree.rootName).Nodup := by
  rw [EndpointTrees.sections]
  cases ht : trees.request with
  | none => simp
  | some tree => simp [declare_roots_ne h tree ht]

/-- Bindings are distinct unless the function is called like the default import. -/
theorem bindings_nodup (h : options.declare endpoint = (.ok trees, state)) :
    (options.clientFile endpoint trees).bindings.Nodup ↔
      (options.names endpoint).function ≠ "axios" := by
  have haxios : "axios" ∉ trees.sections.map DeclarationTree.rootName := by
    intro hm
    exact (declare_rootTypes h _ hm).ne_of_lower (by decide) rfl
  have hfunction : (options.names endpoint).function ∉
      trees.sections.map DeclarationTree.rootName := by
    intro hm
    obtain ⟨tree, ht, he⟩ := List.mem_map.mp hm
    exact declare_ne_function h tree ht _ tree.rootName_mem_names he
  have htypes := declare_rootTypes_nodup h
  rw [clientFile_bindings h, List.nodup_cons, List.mem_append, not_or, List.mem_singleton]
  constructor
  · rintro ⟨⟨-, hne⟩, -⟩
    exact Ne.symm hne
  · intro hne
    refine ⟨⟨haxios, Ne.symm hne⟩, List.nodup_append.mpr ⟨htypes, by simp, ?_⟩⟩
    intro name hn other ho he
    rw [List.mem_singleton.mp ho] at he
    exact hfunction (he ▸ hn)

theorem bindings_unbound (h : options.declare endpoint = (.ok trees, state)) :
    (∀ name ∈ (options.clientFile endpoint trees).bindings, name ∉ unboundWords) ↔
      (options.names endpoint).function ≠ "eval" ∧
        (options.names endpoint).function ≠ "arguments" := by
  obtain ⟨-, -, (hf : IsUsable (options.names endpoint).function)⟩ :=
    derive_usable (r := options.registry) rfl endpoint
  have haxios : "axios" ∉ unboundWords := by decide +kernel
  have htypes : ∀ name ∈ trees.sections.map DeclarationTree.rootName, name ∉ unboundWords :=
    fun name hn => (declare_rootTypes h name hn).not_mem_unboundWords
  have hfunction : (options.names endpoint).function ∉ unboundWords ↔
      (options.names endpoint).function ≠ "eval" ∧
        (options.names endpoint).function ≠ "arguments" := by
    rw [hf.mem_unboundWords, not_or]
  rw [clientFile_bindings h, ← hfunction]
  constructor
  · intro hall
    exact hall _ (by simp)
  · intro hfree
    exact List.forall_mem_cons.mpr
      ⟨haxios, List.forall_mem_append.mpr ⟨htypes, List.forall_mem_singleton.mpr hfree⟩⟩

namespace Artifacts

/-- The client file binds the default import, the types of the endpoint and its function. No two
of them clash but the function and the default import, and of the words that cannot be bound only
two are ever bound, both by the function; it is called so if the last segment of the path is. -/
theorem generate_bindings {artifacts : Artifacts}
    (h : generate options endpoint = .ok artifacts) :
    ∃ trees state, options.declare endpoint = (.ok trees, state) ∧
      artifacts.client = (options.clientFile endpoint trees).text ∧
      (options.clientFile endpoint trees).bindings = "axios" ::
        (artifacts.requestType.toList ++ [artifacts.responseType, artifacts.functionName]) ∧
      ((options.clientFile endpoint trees).bindings.Nodup ↔ artifacts.functionName ≠ "axios") ∧
      ((∀ name ∈ (options.clientFile endpoint trees).bindings, name ∉ unboundWords) ↔
        artifacts.functionName ≠ "eval" ∧ artifacts.functionName ≠ "arguments") ∧
      ∀ word ∈ ["axios", "eval", "arguments"], artifacts.functionName = word ↔
        (Path.segments endpoint.path).getLast?.map (Registry.functionBase convention) =
          some word := by
  obtain ⟨trees, state, hd, rfl⟩ := generate_ok h
  refine ⟨trees, state, hd, rfl, ?_, bindings_nodup hd, bindings_unbound hd, ?_⟩
  · rw [clientFile_bindings hd, EndpointTrees.sections]
    simp only [assemble, requestArgument_type?]
    cases trees.request with
    | none => rfl
    | some tree => rfl
  · intro word hword
    exact functionName_eq_iff (r := options.registry) rfl (isOwnWord_of_mem word hword)

theorem parcels_bindings : ∃ artifacts trees state, generate {} parcels = .ok artifacts ∧
    ({} : Options).declare parcels = (.ok trees, state) ∧
    (({} : Options).clientFile parcels trees).bindings =
      ["axios", "_3dDeleteDELETEReq", "_3dDeleteDELETERes", "_delete"] ∧
    (({} : Options).clientFile parcels trees).bindings.Nodup ∧
    ∀ name ∈ (({} : Options).clientFile parcels trees).bindings, name ∉ unboundWords := by
  obtain ⟨artifacts, h, hreq, hres, hf⟩ : ∃ artifacts, generate {} parcels = .ok artifacts ∧
      artifacts.requestType = some "_3dDeleteDELETEReq" ∧
      artifacts.responseType = "_3dDeleteDELETERes" ∧ artifacts.functionName = "_delete" :=
    ⟨_, rfl, by decide +kernel, by decide +kernel, by decide +kernel⟩
  obtain ⟨trees, state, hd, -, hb, hnodup, hfree, -⟩ := generate_bindings h
  rw [hreq, hres, hf] at hb
  rw [hf] at hnodup hfree
  exact ⟨artifacts, trees, state, h, hd, hb, hnodup.mpr (by decide), hfree.mpr (by decide)⟩

/-- An endpoint without any content. -/
def bareEndpoint (path : String) : Endpoint where
  title := ""
  path := path
  method := .get
  request := .none
  response := .none

/-- What a function can still clash with: the default import of its file, and strict code. -/
theorem clashing_bindings :
    (∃ artifacts trees state, generate {} (bareEndpoint "/axios") = .ok artifacts ∧
      ({} : Options).declare (bareEndpoint "/axios") = (.ok trees, state) ∧
      artifacts.client = (({} : Options).clientFile (bareEndpoint "/axios") trees).text ∧
      (({} : Options).clientFile (bareEndpoint "/axios") trees).bindings =
        ["axios", "AxiosGETRes", "axios"] ∧
      ¬ (({} : Options).clientFile (bareEndpoint "/axios") trees).bindings.Nodup) ∧
    ∃ artifacts trees state, generate {} (bareEndpoint "/eval") = .ok artifacts ∧
      ({} : Options).declare (bareEndpoint "/eval") = (.ok trees, state) ∧
      artifacts.client = (({} : Options).clientFile (bareEndpoint "/eval") trees).text ∧
      (({} : Options).clientFile (bareEndpoint "/eval") trees).bindings =
        ["axios", "EvalGETRes", "eval"] ∧ "eval" ∈ unboundWords :=
  ⟨⟨_, _, _, rfl, rfl, rfl, by decide +kernel, by decide +kernel⟩,
    _, _, _, rfl, rfl, rfl, by decide +kernel, by decide +kernel⟩

end Artifacts
end TypedApi.TypeScript
