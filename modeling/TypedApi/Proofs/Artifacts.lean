import TypedApi.Proofs.References
import TypedApi.TypeScript.Artifacts

/-!
The run for an endpoint, taken apart: first its request is declared, if there is one, then its
response, on the same registry.
-/
namespace TypedApi.TypeScript

variable {c : Convention} {log : List Allocation} {ds : List Diagnostic}

theorem declareRequest_yields {payload : Payload} {candidate : String}
    {request : Option DeclarationTree}
    (h : (declareRequest payload candidate).Yields c log ds request) :
    request.isSome = payload.isPresent ∧
      ∀ tree ∈ request, (DeclarationTree.ofPayload payload candidate).Yields c log ds tree := by
  rw [declareRequest] at h
  cases hp : payload.isPresent with
  | true =>
    simp only [hp, if_true] at h
    obtain ⟨tree, hw, rfl⟩ := Walk.yields_map.mp h
    refine ⟨rfl, fun t ht => ?_⟩
    cases ht
    exact hw
  | false =>
    simp only [hp, Bool.false_eq_true, if_false] at h
    obtain ⟨-, -, rfl⟩ := h
    exact ⟨rfl, by simp⟩

theorem declareEndpoint_yields {endpoint : Endpoint} {names : EndpointNames}
    {trees : EndpointTrees} (h : (declareEndpoint endpoint names).Yields c log ds trees) :
    ∃ l₁ l₂ d₁ d₂, log = l₁ ++ l₂ ∧ ds = d₁ ++ d₂ ∧
      (declareRequest endpoint.request names.request).Yields c l₁ d₁ trees.request ∧
      (DeclarationTree.ofPayload endpoint.response names.response).Yields c l₂ d₂
        trees.response := by
  obtain ⟨l₁, _, d₁, _, request, rfl, rfl, hreq, h⟩ := Walk.yields_bind.mp h
  obtain ⟨l₂, _, d₂, _, response, rfl, rfl, hres, rfl, rfl, rfl⟩ := Walk.yields_bind.mp h
  exact ⟨l₁, l₂, d₁, d₂, by simp, by simp, hreq, hres⟩

/-- The request type is the root of the request's tree, however the request travels. -/
theorem requestArgument_type? (payload : Payload) (request : Option DeclarationTree) :
    (requestArgument payload request).type? = request.map DeclarationTree.rootName := by
  cases request with
  | none => rfl
  | some tree =>
    rw [requestArgument]
    cases payload.isQuery <;> rfl

/-- All that a run for an endpoint does when it ends well. -/
theorem declare_ok {options : Options} {endpoint : Endpoint} {trees : EndpointTrees}
    {state : WalkState} (h : options.declare endpoint = (.ok trees, state)) :
    ∃ l₁ l₂ d₁ d₂, options.registry.Replays (l₁ ++ l₂) ∧
      (declareRequest endpoint.request (options.names endpoint).request).Yields convention l₁ d₁
        trees.request ∧
      (DeclarationTree.ofPayload endpoint.response (options.names endpoint).response).Yields
        convention l₂ d₂ trees.response := by
  obtain ⟨ds, hy, -⟩ := Walk.yields_of_run h
  have hlog := (declareEndpoint endpoint (options.names endpoint)).allocations_replay
    options.registry
  obtain ⟨l₁, l₂, d₁, d₂, hl, -, hreq, hres⟩ := declareEndpoint_yields hy
  rw [hl] at hlog
  exact ⟨l₁, l₂, d₁, d₂, hlog, hreq, hres⟩

theorem EndpointTrees.request_mem_sections {trees : EndpointTrees} {tree : DeclarationTree}
    (h : tree ∈ trees.request) : tree ∈ trees.sections :=
  List.mem_append_left _ (Option.mem_toList.mpr h)

theorem EndpointTrees.response_mem_sections (trees : EndpointTrees) :
    trees.response ∈ trees.sections := List.mem_append_right _ (List.mem_singleton_self _)

/-- Every tree of an endpoint is that of its request or of its response. -/
theorem declare_section {options : Options} {endpoint : Endpoint} {trees : EndpointTrees}
    {state : WalkState} (h : options.declare endpoint = (.ok trees, state))
    {tree : DeclarationTree} (ht : tree ∈ trees.sections) :
    ∃ payload candidate r log ds,
      ((tree ∈ trees.request ∧ payload = endpoint.request ∧
          candidate = (options.names endpoint).request) ∨
        (tree = trees.response ∧ payload = endpoint.response ∧
          candidate = (options.names endpoint).response)) ∧
      Registry.Replays r log ∧
      (DeclarationTree.ofPayload payload candidate).Yields convention log ds tree := by
  obtain ⟨l₁, l₂, d₁, d₂, hlog, hreq, hres⟩ := declare_ok h
  obtain ⟨hlog₁, hlog₂⟩ := Registry.replays_append.mp hlog
  rcases List.mem_append.mp ht with ht | ht
  · have ht : tree ∈ trees.request := Option.mem_toList.mp ht
    have hw := (declareRequest_yields hreq).2 tree ht
    exact ⟨_, _, _, l₁, d₁, .inl ⟨ht, rfl, rfl⟩, hlog₁, hw⟩
  · rw [List.mem_singleton.mp ht]
    exact ⟨_, _, _, l₂, d₂, .inr ⟨rfl, rfl, rfl⟩, hlog₂, hres⟩

theorem declare_linked {options : Options} {endpoint : Endpoint} {trees : EndpointTrees}
    {state : WalkState} (h : options.declare endpoint = (.ok trees, state)) :
    ∀ tree ∈ trees.sections, tree.Linked := by
  intro tree ht
  obtain ⟨_, _, _, _, _, -, -, hw⟩ := declare_section h ht
  exact (DeclarationTree.ofPayload_linked hw).1

/-- The file of types before it is written. -/
def EndpointTrees.typesFile (trees : EndpointTrees) (endpoint : Endpoint) : TypesFile :=
  ⟨endpoint.title, endpoint.path, endpoint.method, trees.sections⟩

/-- The file of the request function before it is written. -/
def Options.clientFile (options : Options) (endpoint : Endpoint) (trees : EndpointTrees) :
    ClientFile where
  title := endpoint.title
  path := endpoint.path
  method := endpoint.method
  functionName := (options.names endpoint).function
  url := options.requestPath.getD endpoint.path
  request := requestArgument endpoint.request trees.request
  responseType := trees.response.rootName

/-- The types that a client file imports. -/
def ClientFile.importedTypes (file : ClientFile) : List String :=
  match file.request.type? with
  | some t => if t = file.responseType then [t] else [t, file.responseType]
  | none => [file.responseType]

theorem typeImport_eq (file : ClientFile) :
    file.typeImport = { source := "./types", names := file.importedTypes, typeOnly := true } := by
  rw [ClientFile.typeImport, ClientFile.importedTypes]
  cases file.request.type? with
  | none => rfl
  | some t =>
    by_cases ht : t = file.responseType
    · simp [Import.withName, ht]
    · simp [Import.withName, ht, Ne.symm ht]

namespace Artifacts

theorem generate_eq (options : Options) (endpoint : Endpoint) :
    generate options endpoint = (options.declare endpoint).1.map fun trees =>
      assemble options endpoint (options.names endpoint).function trees
        (options.declare endpoint).2.diagnostics := by
  rw [generate]
  split
  · next h => rw [h, Except.map]
  · next h => rw [h, Except.map]

theorem generate_ok {options : Options} {endpoint : Endpoint} {artifacts : Artifacts}
    (h : generate options endpoint = .ok artifacts) :
    ∃ trees state, options.declare endpoint = (.ok trees, state) ∧
      artifacts = assemble options endpoint (options.names endpoint).function trees
        state.diagnostics := by
  rw [generate_eq] at h
  cases hd : (options.declare endpoint).1 with
  | error e => simp [hd, Except.map] at h
  | ok trees =>
    rw [hd, Except.map, Except.ok.injEq] at h
    exact ⟨trees, _, Prod.ext hd rfl, h.symm⟩

theorem generate_files {options : Options} {endpoint : Endpoint} {artifacts : Artifacts}
    (h : generate options endpoint = .ok artifacts) :
    ∃ trees state, options.declare endpoint = (.ok trees, state) ∧
      artifacts.types = (trees.typesFile endpoint).text ∧
      artifacts.client = (options.clientFile endpoint trees).text := by
  obtain ⟨trees, state, hd, rfl⟩ := generate_ok h
  exact ⟨trees, state, hd, rfl, rfl⟩

end Artifacts
end TypedApi.TypeScript
