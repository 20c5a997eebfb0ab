import TypedApi.Proofs.Artifacts
import TypedApi.Proofs.Roots

/-!
The names below one root. Every candidate that a walk asks for continues the name of its root, and
so does every name it gets. The roots of a request and its response differ before either ends, so
the two trees of an endpoint cannot take a name from each other, and neither root is numbered.
-/
namespace TypedApi

/-! What a walk asks for -/

namespace Walk

variable {α β : Type} {P : String → Prop} {Q : α → Prop} {R : β → Prop}

/-- As long as the names it is given have `P`, the walk asks for candidates with `P`, and its value
has `Q`. -/
def Keeps (P : String → Prop) (Q : α → Prop) : Walk α → Prop
  | done a => Q a
  | allocating candidate next => P candidate ∧ ∀ name, P name → (next name).Keeps P Q
  | reporting _ next => next.Keeps P Q
  | consulting next => ∀ c, (next c).Keeps P Q

theorem Keeps.bind {w : Walk α} {f : α → Walk β} (h : w.Keeps P Q)
    (hf : ∀ a, Q a → (f a).Keeps P R) : (w >>= f).Keeps P R := by
  change (w.andThen f).Keeps P R
  induction w with
  | done a => exact hf a h
  | allocating candidate next ih => exact ⟨h.1, fun name hn => ih name (h.2 name hn)⟩
  | reporting d next ih => exact ih h
  | consulting next ih => exact fun c => ih c (h c)

theorem keeps_pure {a : α} (h : Q a) : (pure a : Walk α).Keeps P Q := h

theorem keeps_report (d : Diagnostic) : (report d).Keeps P fun _ => True := trivial

theorem keeps_allocate {candidate : String} (h : P candidate) : (allocate candidate).Keeps P P :=
  ⟨h, fun _ hname => hname⟩

/-- The candidates for which a run asks, in order. One that is refused is the last. -/
def candidates : Walk α → Registry → List String
  | done _, _ => []
  | allocating candidate next, r =>
    candidate :: match r.allocate candidate with
      | .ok (name, r) => (next name).candidates r
      | .error _ => []
  | reporting _ next, r => next.candidates r
  | consulting next, r => (next r.convention).candidates r

theorem Keeps.of_run (hnumbered : ∀ candidate n, P candidate → P (Registry.numbered candidate n))
    {w : Walk α} (h : w.Keeps P Q) (r : Registry) :
    (∀ candidate ∈ w.candidates r, P candidate) ∧ ∀ a ∈ w.allocations r, P a.name := by
  induction w generalizing r with
  | done a => simp [candidates, allocations]
  | allocating candidate next ih =>
    obtain ⟨hcandidate, hnext⟩ := h
    cases ha : r.allocate candidate with
    | error e => simp [candidates, allocations, ha, hcandidate]
    | ok given =>
      obtain ⟨name, r'⟩ := given
      have hname : P name := by
        obtain ⟨-, -, rfl | ⟨n, -, rfl⟩⟩ := Registry.allocate_ok ha
        · exact hcandidate
        · exact hnumbered candidate n hcandidate
      obtain ⟨hcandidates, hallocations⟩ := ih name (hnext name hname) r'
      simp only [candidates, allocations, ha]
      exact ⟨List.forall_mem_cons.mpr ⟨hcandidate, hcandidates⟩,
        List.forall_mem_cons.mpr ⟨hname, hallocations⟩⟩
  | reporting d next ih => exact ih h r
  | consulting next ih => exact ih r.convention (h r.convention) r

/-- A run that fails ends at a candidate that is taken, and has numbered none before. -/
theorem candidates_of_error {w : Walk α} {s : WalkState} {e : NamingError}
    (h : (w.run s).1 = .error e) :
    ∃ name, e = .collision name ∧
      w.candidates s.registry = (w.allocations s.registry).map (·.name) ++ [name] ∧
      name ∈ (s.registry.after (w.allocations s.registry)).issued := by
  induction w generalizing s with
  | done a => cases h
  | allocating candidate next ih =>
    by_cases hc : candidate ∈ s.registry.issued
    · cases hp : s.registry.settings.collisions with
      | suffix =>
        -- No walk fails where names are numbered.
        obtain ⟨a, ha⟩ := run_suffix (allocating candidate next) s hp
        rw [ha] at h
        cases h
      | reject =>
        have ha := Registry.allocate_rejected hc hp
        simp only [run, ha, Except.error.injEq] at h
        exact ⟨candidate, h.symm, by simp [candidates, allocations, ha],
          by simp [allocations, ha, hc]⟩
    · have ha := Registry.allocate_of_free hc
      simp only [run, ha] at h
      obtain ⟨name, rfl, hcandidates, hissued⟩ := ih candidate h
      refine ⟨name, rfl, ?_, ?_⟩
      · simp only [candidates, allocations, ha, hcandidates, List.map_cons, List.cons_append]
      · simpa only [allocations, ha, Registry.after_cons] using hissued
  | reporting d next ih =>
    obtain ⟨name, rfl, hrest⟩ := ih h
    exact ⟨name, rfl, hrest⟩
  | consulting next ih => exact ih s.registry.convention h

/-- A run that asks for nothing that was issued before it can only be refused a candidate that it
has asked for before. -/
theorem repeated_of_error {w : Walk α} {s : WalkState} {e : NamingError}
    (h : (w.run s).1 = .error e)
    (hfree : ∀ candidate ∈ w.candidates s.registry, candidate ∉ s.registry.issued) :
    ∃ name before between, e = .collision name ∧
      w.candidates s.registry = before ++ name :: between ++ [name] := by
  obtain ⟨name, rfl, hcandidates, hissued⟩ := candidates_of_error h
  have hnew : name ∉ s.registry.issued := hfree name (by simp [hcandidates])
  rw [Registry.after_issued, List.mem_append, or_iff_right hnew] at hissued
  obtain ⟨before, between, hsplit⟩ := List.append_of_mem hissued
  exact ⟨name, before, between, rfl, by rw [hcandidates, hsplit]⟩

end Walk

/-! Candidates of a payload -/

namespace DeclarationTree

open Walk (Keeps keeps_pure keeps_report keeps_allocate)

variable {P : String → Prop}

theorem keyWord_keeps (owner key : String) (position : Nat) :
    (keyWord owner key position).Keeps P fun _ => True := by
  intro c
  by_cases hc : c.keyWord key = ""
  · simp [hc, Walk.andThen, Keeps, bind, pure, Walk.report]
  · simp [hc, Walk.andThen, Keeps, pure]

theorem noteInference_keeps (owner key : String) (i : Inference) :
    (noteInference owner key i).Keeps P fun _ => True := by
  unfold noteInference
  dsimp only
  split
  · exact keeps_report _
  · split
    · exact keeps_report _
    · exact keeps_pure trivial

variable (hgrow : ∀ name part, P name → P (name ++ part))
include hgrow

theorem nestedName_keeps {owner : String} (ho : P owner) (key : String) (position : Nat)
    (property : Schema) :
    (nestedName owner key position property).Keeps P fun nested => ∀ name ∈ nested, P name := by
  unfold nestedName
  cases property.layersToObject? with
  | none => exact keeps_pure (by simp)
  | some layers =>
    refine (keyWord_keeps owner key position).bind fun word _ => ?_
    exact (keeps_allocate (hgrow _ _ (hgrow _ _ ho))).bind fun name hn =>
      keeps_pure (by simpa using hn)

theorem declareProperties_keeps_of {properties : List (String × Schema)}
    (h : ∀ p ∈ properties, ∀ name, P name → (declareNested name p.2).Keeps P fun _ => True)
    {owner : String} (ho : P owner) (required : List String) (position : Nat) :
    (declareProperties owner required position properties).Keeps P fun _ => True := by
  induction properties generalizing position with
  | nil =>
    rw [declareProperties]
    exact keeps_pure trivial
  | cons p rest ih =>
    obtain ⟨key, property⟩ := p
    obtain ⟨hproperty, hrest⟩ := List.forall_mem_cons.mp h
    rw [declareProperties]
    refine (nestedName_keeps hgrow ho key position property).bind fun nested hnested => ?_
    refine (noteInference_keeps owner key _).bind fun _ _ => ?_
    refine Keeps.bind (Q := fun _ => True) ?_ fun below _ => ?_
    · cases nested with
      | none => exact keeps_pure trivial
      | some name => exact hproperty name (hnested name rfl)
    · exact (ih hrest (position + 1)).bind fun _ _ => keeps_pure trivial

theorem declareNested_keeps (s : Schema) {name : String} (hn : P name) :
    (declareNested name s).Keeps P fun _ => True := by
  induction s using Schema.induction generalizing name with
  | node s hproperties hitems =>
    rw [declareNested_eq]
    cases s.kind with
    | object =>
      exact (declareProperties_keeps_of hgrow (fun p hp _ => hproperties p hp) hn s.required 0).bind
        fun _ _ => keeps_pure trivial
    | array =>
      cases hi : s.items with
      | none => exact keeps_pure trivial
      | some e => exact hitems e hi hn
    | scalar | unknown => exact keeps_pure trivial

omit hgrow in
theorem parameterFields_keeps (owner : String) (parameters : List Parameter) :
    (parameterFields owner parameters).Keeps P fun _ => True := by
  induction parameters with
  | nil => exact keeps_pure trivial
  | cons p ps ih =>
    have hfield : (parameterField owner p).Keeps P fun _ => True :=
      (noteInference_keeps owner p.name p.infer).bind fun _ _ => keeps_pure trivial
    exact hfield.bind fun _ _ => ih.bind fun _ _ => keeps_pure trivial

theorem ofSchema_keeps (s : Schema) {candidate : String} (hc : P candidate) :
    (ofSchema s candidate).Keeps P fun _ => True := by
  refine (keeps_allocate hc).bind fun name hn => ?_
  have hdeclared : (declareProperties name s.required 0 s.properties).Keeps P fun _ => True :=
    declareProperties_keeps_of hgrow (fun p _ _ => declareNested_keeps hgrow p.2) hn s.required 0
  cases s.kind with
  | object => exact hdeclared.bind fun _ _ => keeps_pure trivial
  | array | scalar | unknown => exact (keeps_report _).bind fun _ _ => keeps_pure trivial

/-- A property that passes from a name to all its continuations passes from the root to everything
below it. -/
theorem ofPayload_keeps (payload : Payload) {candidate : String} (hc : P candidate) :
    (ofPayload payload candidate).Keeps P fun _ => True := by
  have hparameters : ∀ parameters, (ofParameters parameters candidate).Keeps P fun _ => True :=
    fun parameters => (keeps_allocate hc).bind fun name _ =>
      (parameterFields_keeps name parameters).bind fun _ _ => keeps_pure trivial
  cases payload with
  | none => exact (keeps_allocate hc).bind fun _ _ => keeps_pure trivial
  | body schema => exact ofSchema_keeps hgrow schema hc
  | query parameters => exact hparameters parameters
  | form parameters => exact hparameters parameters
  | malformed reason =>
    exact (keeps_allocate hc).bind fun _ _ => (keeps_report _).bind fun _ _ => keeps_pure trivial

end DeclarationTree

/-! Roots -/

/-- The name begins with that of the root. -/
def IsUnder (root name : String) : Prop := ∃ rest, name = root ++ rest

theorem IsUnder.refl (root : String) : IsUnder root root := ⟨"", by simp⟩

theorem IsUnder.append {root name : String} (h : IsUnder root name) (part : String) :
    IsUnder root (name ++ part) := by
  obtain ⟨rest, rfl⟩ := h
  exact ⟨rest ++ part, String.append_assoc ..⟩

/-- The suffixes of the two roles differ in a letter that both of them have. -/
theorem RoleSuffix.suffix_apart (s : RoleSuffix) {base name : String}
    (hrequest : IsUnder (base ++ s.suffix .request) name) :
    ¬IsUnder (base ++ s.suffix .response) name := by
  rintro ⟨rest', he⟩
  obtain ⟨rest, rfl⟩ := hrequest
  rw [String.append_assoc, String.append_assoc, String.append_right_inj,
    ← String.toList_inj, String.toList_append, String.toList_append] at he
  cases s with
  | short => simp [suffix] at he
  | long => simp [suffix] at he

namespace Text

theorem guardDigit_append {s : List Char} (hs : s ≠ []) (t : List Char) :
    guardDigit (s ++ t) = guardDigit s ++ t := by
  obtain ⟨c, rest, rfl⟩ := List.exists_cons_of_ne_nil hs
  rw [List.cons_append, guardDigit, guardDigit]
  split
  · rfl
  · rfl

end Text

namespace Registry

/-- A root is what the path and the method come to, with the suffix of its role behind it. -/
theorem typeNameOrPlaceholder_eq (r : Registry) (path : String) (method : Method) :
    ∃ base, ∀ role, (r.typeNameOrPlaceholder path method role).1 =
      base ++ r.settings.roleSuffix.suffix role := by
  let words := String.join ((Path.segments path).map fun s => r.convention.segmentWord (.ofList s))
  by_cases hwords : words = ""
  · refine ⟨"Unknown" ++ method.name, fun role => ?_⟩
    have hname : r.typeName path method role = .error (.degeneratePath path) := if_pos hwords
    rw [typeNameOrPlaceholder, hname]
    exact (String.append_assoc ..).symm
  · refine ⟨Text.mapChars Text.guardDigit words ++ method.name, fun role => ?_⟩
    have hname : r.typeName path method role =
        .ok (Text.mapChars Text.guardDigit (words ++ r.roleMark method role)) := if_neg hwords
    have hne : words.toList ≠ [] := by simpa using hwords
    rw [typeNameOrPlaceholder, hname, orPlaceholder, roleMark]
    apply String.toList_injective
    simp [Text.guardDigit_append hne]

theorem roots_apart (r : Registry) (path : String) (method : Method) {name : String}
    (h : IsUnder (r.typeNameOrPlaceholder path method .request).1 name) :
    ¬IsUnder (r.typeNameOrPlaceholder path method .response).1 name := by
  obtain ⟨base, hbase⟩ := r.typeNameOrPlaceholder_eq path method
  rw [hbase] at h ⊢
  exact r.settings.roleSuffix.suffix_apart h

end Registry

namespace DeclarationTree

/-- A root is asked for first, so it gets its own name if that is free. -/
theorem rootName_of_free {c : Convention} {payload : Payload} {candidate : String}
    {log : List Allocation} {ds : List Diagnostic} {tree : DeclarationTree} {r : Registry}
    (h : (ofPayload payload candidate).Yields c log ds tree) (hr : r.Replays log)
    (hfree : candidate ∉ r.issued) : tree.rootName = candidate := by
  obtain ⟨below, rfl⟩ : ∃ below, log = ⟨candidate, tree.rootName⟩ :: below := by
    rcases ofPayload_yields h with ⟨schema, hm⟩ | ⟨hlog, -⟩
    · obtain ⟨below, hlog, -⟩ := hm.properties
      exact ⟨below, hlog⟩
    · exact ⟨[], hlog⟩
  obtain ⟨hfirst, -⟩ := hr
  rw [Registry.allocate_of_free hfree] at hfirst
  exact (Prod.mk.inj (Except.ok.inj hfirst)).1.symm

end DeclarationTree

/-! Both trees of an endpoint -/

namespace TypeScript

namespace Options

variable (options : Options) (endpoint : Endpoint)

/-- The name of a root as it is derived from path, method and role. -/
def rootName (role : Role) : String :=
  (options.registry.typeNameOrPlaceholder endpoint.path endpoint.method role).1

def requestWalk : Walk (Option DeclarationTree) :=
  declareRequest endpoint.request (options.rootName endpoint .request)

def responseWalk : Walk DeclarationTree :=
  DeclarationTree.ofPayload endpoint.response (options.rootName endpoint .response)

/-- The registry that the tree of a role finds. The request comes first. -/
def registryFor : Role → Registry
  | .request => options.registry
  | .response =>
    options.registry.after ((options.requestWalk endpoint).allocations options.registry)

/-- The candidates of the tree of a role, in the order in which it asks for them. -/
def candidatesOf (role : Role) : List String :=
  match role with
  | .request => (options.requestWalk endpoint).candidates (options.registryFor endpoint .request)
  | .response => (options.responseWalk endpoint).candidates (options.registryFor endpoint .response)

/-- The names that are issued for the tree of a role. -/
def namesOf (role : Role) : List String :=
  match role with
  | .request =>
    ((options.requestWalk endpoint).allocations (options.registryFor endpoint .request)).map
      (·.name)
  | .response =>
    ((options.responseWalk endpoint).allocations (options.registryFor endpoint .response)).map
      (·.name)

/-- The state in which the trees of an endpoint are begun. -/
def start : WalkState := ⟨options.registry, (EndpointNames.derive options.registry endpoint).2⟩

/-- The request is declared, and then the response. -/
theorem declare_eq :
    options.declare endpoint =
      match (options.requestWalk endpoint).run (options.start endpoint) with
      | (.error e, s) => (.error e, s)
      | (.ok request, s) => match (options.responseWalk endpoint).run s with
        | (.error e, s) => (.error e, s)
        | (.ok response, s) => (.ok ⟨request, response⟩, s) := by
  change ((options.requestWalk endpoint >>= fun request => options.responseWalk endpoint >>=
    fun response => pure ⟨request, response⟩) : Walk EndpointTrees).run (options.start endpoint) = _
  rw [Walk.run_bind]
  rcases (options.requestWalk endpoint).run (options.start endpoint) with ⟨request | request, s⟩
  · rfl
  · simp only [Walk.run_bind]
    rcases (options.responseWalk endpoint).run s with ⟨response | response, s'⟩
    · rfl
    · rfl

variable {options endpoint}

theorem registry_of_request {s : WalkState} {result : Except NamingError (Option DeclarationTree)}
    (h : (options.requestWalk endpoint).run (options.start endpoint) = (result, s)) :
    s.registry = options.registryFor endpoint .response := by
  have hregistry := (options.requestWalk endpoint).run_registry (options.start endpoint)
  rwa [h] at hregistry

theorem declare_eq_ok {trees : EndpointTrees} {state : WalkState}
    (h : options.declare endpoint = (.ok trees, state)) :
    ∃ s, s.registry = options.registryFor endpoint .response ∧
      (options.requestWalk endpoint).run (options.start endpoint) = (.ok trees.request, s) ∧
      (options.responseWalk endpoint).run s = (.ok trees.response, state) := by
  rw [declare_eq] at h
  rcases hrequest : (options.requestWalk endpoint).run (options.start endpoint) with
    ⟨e | request, s⟩
  · simp [hrequest] at h
  · rcases hresponse : (options.responseWalk endpoint).run s with ⟨e | response, s'⟩
    · simp [hrequest, hresponse] at h
    · simp only [hrequest, hresponse, Prod.mk.injEq, Except.ok.injEq] at h
      obtain ⟨rfl, rfl⟩ := h
      exact ⟨s, registry_of_request hrequest, rfl, hresponse⟩

theorem declare_eq_error {e : NamingError} (h : (options.declare endpoint).1 = .error e) :
    ((options.requestWalk endpoint).run (options.start endpoint)).1 = .error e ∨
      ∃ s, s.registry = options.registryFor endpoint .response ∧
        ((options.responseWalk endpoint).run s).1 = .error e := by
  rw [declare_eq] at h
  rcases hrequest : (options.requestWalk endpoint).run (options.start endpoint) with
    ⟨e' | request, s⟩
  · simp only [hrequest, Except.error.injEq] at h
    exact .inl (h ▸ rfl)
  · refine .inr ⟨s, registry_of_request hrequest, ?_⟩
    rcases hresponse : (options.responseWalk endpoint).run s with ⟨e' | response, s'⟩
    · simp only [hrequest, hresponse, Except.error.injEq] at h
      exact h ▸ rfl
    · simp [hrequest, hresponse] at h

variable (options endpoint)

/-- What the tree of a role asks for and what it gets stands below its root. -/
theorem under_root (role : Role) :
    (∀ candidate ∈ options.candidatesOf endpoint role,
      IsUnder (options.rootName endpoint role) candidate) ∧
    ∀ name ∈ options.namesOf endpoint role, IsUnder (options.rootName endpoint role) name := by
  have hpayload : ∀ payload, (DeclarationTree.ofPayload payload
      (options.rootName endpoint role)).Keeps (IsUnder (options.rootName endpoint role))
        fun _ => True :=
    fun payload => DeclarationTree.ofPayload_keeps (fun _ part h => h.append part) payload (.refl _)
  have hnumbered : ∀ candidate n, IsUnder (options.rootName endpoint role) candidate →
      IsUnder (options.rootName endpoint role) (Registry.numbered candidate n) :=
    fun _ n h => h.append (toString n)
  cases role with
  | request =>
    have hrequest : (options.requestWalk endpoint).Keeps
        (IsUnder (options.rootName endpoint .request)) fun _ => True := by
      rw [requestWalk, declareRequest]
      split
      · exact (hpayload endpoint.request).bind fun _ _ => Walk.keeps_pure trivial
      · exact Walk.keeps_pure trivial
    obtain ⟨hcandidates, hnames⟩ :=
      hrequest.of_run hnumbered (options.registryFor endpoint .request)
    exact ⟨hcandidates, List.forall_mem_map.mpr hnames⟩
  | response =>
    obtain ⟨hcandidates, hnames⟩ := (hpayload endpoint.response).of_run hnumbered
      (options.registryFor endpoint .response)
    exact ⟨hcandidates, List.forall_mem_map.mpr hnames⟩

/-- No tree asks for a name of the other. -/
theorem candidates_apart {role other : Role} (hne : role ≠ other) :
    ∀ candidate ∈ options.candidatesOf endpoint role,
      candidate ∉ options.namesOf endpoint other := by
  intro candidate hc hn
  have hcandidate := (options.under_root endpoint role).1 candidate hc
  have hname := (options.under_root endpoint other).2 candidate hn
  cases role with
  | request => cases other with
    | request => exact hne rfl
    | response => exact options.registry.roots_apart _ _ hcandidate hname
  | response => cases other with
    | request => exact options.registry.roots_apart _ _ hname hcandidate
    | response => exact hne rfl

/-- The response finds the names of the request and no others. -/
theorem issued_registryFor_response :
    (options.registryFor endpoint .response).issued = options.namesOf endpoint .request :=
  List.nil_append _

variable {options endpoint} {trees : EndpointTrees} {state : WalkState}

/-- The request is declared first, when no name is taken. -/
theorem request_of_declare (h : options.declare endpoint = (.ok trees, state)) :
    trees.request.map DeclarationTree.rootName =
        (if endpoint.request.isPresent then some (options.rootName endpoint .request) else none) ∧
      ∀ tree ∈ trees.request, tree.names = options.namesOf endpoint .request := by
  obtain ⟨s, -, hrun, -⟩ := declare_eq_ok h
  obtain ⟨ds, hyields, -⟩ := Walk.yields_of_run hrun
  have hreplays := (options.requestWalk endpoint).allocations_replay options.registry
  obtain ⟨hsome, htrees⟩ := declareRequest_yields hyields
  refine ⟨?_, fun tree ht => (DeclarationTree.ofPayload_linked (htrees tree ht)).2⟩
  cases hrequest : trees.request with
  | none =>
    rw [hrequest] at hsome
    simp [← hsome]
  | some tree =>
    rw [hrequest] at hsome
    have hroot := DeclarationTree.rootName_of_free (htrees tree hrequest) hreplays
      (by simp [Options.registry])
    simp [← hsome, hroot]

/-- The names of the request leave the root of the response free. -/
theorem response_of_declare (h : options.declare endpoint = (.ok trees, state)) :
    trees.response.rootName = options.rootName endpoint .response ∧
      trees.response.names = options.namesOf endpoint .response := by
  obtain ⟨s, hregistry, -, hrun⟩ := declare_eq_ok h
  obtain ⟨ds, hyields, -⟩ := Walk.yields_of_run hrun
  rw [hregistry] at hyields
  have hreplays :=
    (options.responseWalk endpoint).allocations_replay (options.registryFor endpoint .response)
  have hfree : options.rootName endpoint .response ∉
      (options.registryFor endpoint .response).issued := by
    rw [issued_registryFor_response]
    intro hn
    exact options.registry.roots_apart _ _ ((options.under_root endpoint .request).2 _ hn) (.refl _)
  exact ⟨DeclarationTree.rootName_of_free hyields hreplays hfree,
    (DeclarationTree.ofPayload_linked hyields).2⟩

/-- A tree is refused what it has asked for before. -/
theorem repeated_of_declare {e : NamingError} (h : (options.declare endpoint).1 = .error e) :
    ∃ role name before between, e = .collision name ∧
      options.candidatesOf endpoint role = before ++ name :: between ++ [name] := by
  rcases declare_eq_error h with hrequest | ⟨s, hregistry, hresponse⟩
  · obtain ⟨name, before, between, rfl, hcandidates⟩ := Walk.repeated_of_error hrequest
      (by simp [Options.start, Options.registry])
    exact ⟨.request, name, before, between, rfl, hcandidates⟩
  · have hfree : ∀ candidate ∈ (options.responseWalk endpoint).candidates s.registry,
        candidate ∉ s.registry.issued := by
      have hne : Role.response ≠ .request := by simp
      rw [hregistry, issued_registryFor_response]
      exact options.candidates_apart endpoint hne
    obtain ⟨name, before, between, rfl, hcandidates⟩ := Walk.repeated_of_error hresponse hfree
    rw [hregistry] at hcandidates
    exact ⟨.response, name, before, between, rfl, hcandidates⟩

end Options

namespace Artifacts

/-- The roots of an endpoint are called as they are derived, whatever the policy on collisions is,
and all names below a root begin with it. So no tree ever asks for a name of the other, and where a
run fails, one tree has asked twice for the name that is refused. -/
theorem generate_rootNames (options : Options) (endpoint : Endpoint) :
    (∀ artifacts, generate options endpoint = .ok artifacts →
      artifacts.requestType =
        (if endpoint.request.isPresent then some (options.rootName endpoint .request) else none) ∧
      artifacts.responseType = options.rootName endpoint .response ∧
      ∃ trees state, options.declare endpoint = (.ok trees, state) ∧
        artifacts = assemble options endpoint (options.names endpoint).function trees
          state.diagnostics ∧
        (∀ tree ∈ trees.request, tree.names = options.namesOf endpoint .request) ∧
        trees.response.names = options.namesOf endpoint .response) ∧
    (∀ role, ∀ name ∈ options.namesOf endpoint role,
      IsUnder (options.rootName endpoint role) name) ∧
    (∀ role other, role ≠ other → ∀ candidate ∈ options.candidatesOf endpoint role,
      candidate ∉ options.namesOf endpoint other) ∧
    ∀ e, generate options endpoint = .error e → ∃ role name before between,
      e = .collision name ∧
        options.candidatesOf endpoint role = before ++ name :: between ++ [name] := by
  refine ⟨?_, fun role => (options.under_root endpoint role).2,
    fun role other hne => options.candidates_apart endpoint hne, ?_⟩
  · intro artifacts h
    obtain ⟨trees, state, hdeclare, rfl⟩ := generate_ok h
    obtain ⟨hrequest, hrequestNames⟩ := Options.request_of_declare hdeclare
    obtain ⟨hresponse, hresponseNames⟩ := Options.response_of_declare hdeclare
    exact ⟨(requestArgument_type? _ _).trans hrequest, hresponse, trees, state, hdeclare, rfl,
      hrequestNames, hresponseNames⟩
  · intro e h
    apply Options.repeated_of_declare
    rw [generate_eq] at h
    cases hdeclare : (options.declare endpoint).1 with
    | error e' => simpa [hdeclare, Except.map] using h
    | ok trees => simp [hdeclare, Except.map] at h

/-- A path without identifier characters, and bodies in which two properties want one name. -/
def exchange : Endpoint where
  title := ""
  path := "/"
  method := .post
  request := .body DeclarationTree.basket
  response := .body DeclarationTree.basket

theorem exchange_rootNames :
    let lenient : Options := ⟨⟨.long, .suffix⟩, none⟩
    let strict : Options := ⟨⟨.long, .reject⟩, none⟩
    (∃ artifacts, generate lenient exchange = .ok artifacts ∧
      artifacts.requestType = some "UnknownPOSTRequest" ∧
      artifacts.responseType = "UnknownPOSTResponse") ∧
    lenient.namesOf exchange .response = ["UnknownPOSTResponse", "UnknownPOSTResponseListItem",
      "UnknownPOSTResponseListItem2", "UnknownPOSTResponseField3"] ∧
    (∀ name ∈ lenient.namesOf exchange .response, IsUnder "UnknownPOSTResponse" name) ∧
    ∃ e, generate strict exchange = .error e ∧ ∃ role name before between, e = .collision name ∧
      strict.candidatesOf exchange role = before ++ name :: between ++ [name] := by
  intro lenient strict
  obtain ⟨hok, hunder, -, -⟩ := generate_rootNames lenient exchange
  obtain ⟨-, -, -, hrefused⟩ := generate_rootNames strict exchange
  obtain ⟨artifacts, h⟩ : ∃ artifacts, generate lenient exchange = .ok artifacts := ⟨_, rfl⟩
  have he : generate strict exchange = .error (.collision "UnknownPOSTRequestListItem") := rfl
  have hroot : lenient.rootName exchange .response = "UnknownPOSTResponse" := by decide +kernel
  obtain ⟨hrequest, hresponse, -⟩ := hok artifacts h
  have hresponseUnder := hunder .response
  rw [hroot] at hresponse hresponseUnder
  refine ⟨⟨artifacts, h, hrequest.trans (by decide +kernel), hresponse⟩, by decide +kernel,
    hresponseUnder, _, he, hrefused _ he⟩

end Artifacts
end TypeScript
end TypedApi
