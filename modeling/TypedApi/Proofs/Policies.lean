import TypedApi.Proofs.Artifacts

/-!
The two collision policies on one walk. They go in step until a candidate is taken: the suffix
policy numbers it and goes on, the other ends there. So whether a run under the strict policy
succeeds, and which name ends it, can be read off from the allocations of the lenient run.
-/
namespace TypedApi

/-- The same registry, with collisions to be refused. -/
def Registry.rejecting (r : Registry) : Registry :=
  { r with settings := { r.settings with collisions := .reject } }

def WalkState.rejecting (s : WalkState) : WalkState := { s with registry := s.registry.rejecting }

theorem Allocation.isRenamed_iff (a : Allocation) : a.isRenamed = true ↔ a.name ≠ a.candidate := by
  simp [isRenamed]

/-- One allocation under both policies: the same, or a number on one side and a refusal on the
other. -/
theorem Registry.allocate_both {r : Registry} (hp : r.settings.collisions = .suffix)
    (candidate : String) :
    (r.allocate candidate = .ok (candidate, r.issue candidate) ∧
      r.rejecting.allocate candidate = .ok (candidate, (r.issue candidate).rejecting)) ∨
    (∃ name, name ≠ candidate ∧ r.allocate candidate = .ok (name, r.issue name) ∧
      r.rejecting.allocate candidate = .error (.collision candidate)) := by
  by_cases hc : candidate ∈ r.issued
  · have hr : candidate ∈ r.rejecting.issued := hc
    exact Or.inr ⟨r.freeName candidate, r.freeName_ne candidate, allocate_renamed hc hp,
      allocate_rejected hr rfl⟩
  · have hr : candidate ∉ r.rejecting.issued := hc
    exact Or.inl ⟨allocate_of_free hc, allocate_of_free hr⟩

namespace Walk

variable {α : Type}

/-- The strict run is the lenient run if no name was numbered there, and otherwise ends at the
first candidate that was. -/
theorem run_rejecting (w : Walk α) (s : WalkState)
    (hp : s.registry.settings.collisions = .suffix) :
    ((w.allocations s.registry).find? Allocation.isRenamed = none ∧
      w.run s.rejecting = ((w.run s).1, (w.run s).2.rejecting)) ∨
    (∃ first, (w.allocations s.registry).find? Allocation.isRenamed = some first ∧
      (w.run s.rejecting).1 = .error (.collision first.candidate)) := by
  induction w generalizing s with
  | done a => exact Or.inl ⟨rfl, rfl⟩
  | allocating candidate next ih =>
    rcases Registry.allocate_both hp candidate with ⟨ha, hr⟩ | ⟨name, hne, ha, hr⟩
    · have hkept : Allocation.isRenamed ⟨candidate, candidate⟩ = false := by
        simp [Allocation.isRenamed]
      simp only [run, allocations, ha, WalkState.rejecting, hr, List.find?_cons, hkept]
      exact ih candidate { s with registry := s.registry.issue candidate } hp
    · -- The strict run is over; what the lenient one does with the number no longer matters.
      have hrenamed : Allocation.isRenamed ⟨candidate, name⟩ = true :=
        (Allocation.isRenamed_iff _).mpr hne
      refine Or.inr ⟨⟨candidate, name⟩, ?_, ?_⟩
      · simp only [allocations, ha, List.find?_cons, hrenamed]
      · simp only [run, WalkState.rejecting, hr]
  | reporting d next ih => exact ih { s with diagnostics := s.diagnostics ++ [d] } hp
  | consulting next ih => exact ih s.registry.convention s hp

end Walk

namespace TypeScript

namespace Options

/-- Taken names are numbered. -/
def lenient (roleSuffix : RoleSuffix) (requestPath : Option String) : Options :=
  ⟨⟨roleSuffix, .suffix⟩, requestPath⟩

/-- Taken names are refused. -/
def strict (roleSuffix : RoleSuffix) (requestPath : Option String) : Options :=
  ⟨⟨roleSuffix, .reject⟩, requestPath⟩

variable (roleSuffix : RoleSuffix) (requestPath : Option String) (endpoint : Endpoint)

/-- The policy has no part in the names that are derived. -/
theorem declare_strict :
    (strict roleSuffix requestPath).declare endpoint =
      let options := lenient roleSuffix requestPath
      (declareEndpoint endpoint (options.names endpoint)).run
        (WalkState.rejecting
          ⟨options.registry, (EndpointNames.derive options.registry endpoint).2⟩) := rfl

theorem declare_both :
    let options := lenient roleSuffix requestPath
    ((options.allocations endpoint).find? Allocation.isRenamed = none ∧
      (strict roleSuffix requestPath).declare endpoint =
        ((options.declare endpoint).1, (options.declare endpoint).2.rejecting)) ∨
    (∃ first, (options.allocations endpoint).find? Allocation.isRenamed = some first ∧
      ((strict roleSuffix requestPath).declare endpoint).1 =
        .error (.collision first.candidate)) := by
  intro options
  rw [declare_strict]
  exact (declareEndpoint endpoint (options.names endpoint)).run_rejecting
    ⟨options.registry, (EndpointNames.derive options.registry endpoint).2⟩ rfl

end Options

namespace Artifacts

variable (roleSuffix : RoleSuffix) (requestPath : Option String) (endpoint : Endpoint)

theorem generate_strict :
    let lenient := Options.lenient roleSuffix requestPath
    let strict := Options.strict roleSuffix requestPath
    ((lenient.allocations endpoint).find? Allocation.isRenamed = none ∧
      generate strict endpoint = generate lenient endpoint) ∨
    (∃ first, (lenient.allocations endpoint).find? Allocation.isRenamed = some first ∧
      generate strict endpoint = .error (.collision first.candidate)) := by
  intro lenient strict
  rcases Options.declare_both roleSuffix requestPath endpoint with
    ⟨hnone, hrun⟩ | ⟨first, hfirst, hrun⟩
  · refine Or.inl ⟨hnone, ?_⟩
    rw [generate_eq, generate_eq, hrun]
    rfl
  · refine Or.inr ⟨first, hfirst, ?_⟩
    rw [generate_eq, hrun, Except.map]

theorem generate_lenient :
    ∃ artifacts, generate (.lenient roleSuffix requestPath) endpoint = .ok artifacts := by
  obtain ⟨trees, hok⟩ : ∃ trees,
      ((Options.lenient roleSuffix requestPath).declare endpoint).1 = .ok trees :=
    Walk.run_suffix _ _ rfl
  exact ⟨_, by rw [generate_eq, hok, Except.map]⟩

/-- Numbering never fails. Refusing succeeds, and then with the same files, names and diagnostics,
if numbering had nothing to number; otherwise the first candidate that it numbered is refused. -/
theorem generate_both :
    let lenient := Options.lenient roleSuffix requestPath
    let strict := Options.strict roleSuffix requestPath
    let allocations := lenient.allocations endpoint
    (lenient.declare endpoint).2.registry.issued = allocations.map (·.name) ∧
    ∃ artifacts, generate lenient endpoint = .ok artifacts ∧
      ((∃ a, generate strict endpoint = .ok a) ↔ ∀ a ∈ allocations, a.name = a.candidate) ∧
      (∀ a, generate strict endpoint = .ok a → a = artifacts) ∧
      (∀ first, allocations.find? Allocation.isRenamed = some first →
        generate strict endpoint = .error (.collision first.candidate)) := by
  intro lenient strict allocations
  have hissued : (lenient.declare endpoint).2.registry.issued = allocations.map (·.name) := by
    rw [Options.declare, Walk.run_registry]
    exact List.nil_append _
  obtain ⟨artifacts, hok⟩ := generate_lenient roleSuffix requestPath endpoint
  refine ⟨hissued, artifacts, hok, ?_⟩
  rcases generate_strict roleSuffix requestPath endpoint with
    ⟨hnone, hsame⟩ | ⟨first, hfirst, hrefused⟩
  · have hstrict : generate strict endpoint = .ok artifacts := hsame.trans hok
    have hkept : ∀ a ∈ allocations, a.name = a.candidate := by
      intro a ha
      simpa [Allocation.isRenamed] using List.find?_eq_none.mp hnone a ha
    rw [hstrict]
    refine ⟨iff_of_true ⟨artifacts, rfl⟩ hkept, ?_, ?_⟩
    · intro a ha
      exact (Except.ok.inj ha).symm
    · intro first hfirst
      rw [hnone] at hfirst
      cases hfirst
  · have hne : first.name ≠ first.candidate :=
      first.isRenamed_iff.mp (List.find?_some hfirst)
    rw [hrefused]
    refine ⟨iff_of_false ?_ ?_, ?_, ?_⟩
    · rintro ⟨a, ha⟩
      cases ha
    · intro hkept
      exact hne (hkept first (List.mem_of_find?_eq_some hfirst))
    · intro a ha
      cases ha
    · intro other hother
      rw [hfirst] at hother
      cases hother
      rfl

/-- An endpoint where two properties want one name. -/
def basketEndpoint : Endpoint where
  title := ""
  path := "/basket"
  method := .get
  request := .none
  response := .body DeclarationTree.basket

theorem basketEndpoint_both :
    ((Options.lenient .short none).declare basketEndpoint).2.registry.issued =
      ["BasketGETRes", "BasketGETResListItem", "BasketGETResListItem2", "BasketGETResField3"] ∧
    (∃ artifacts, generate (.lenient .short none) basketEndpoint = .ok artifacts) ∧
    generate (.strict .short none) basketEndpoint =
      .error (.collision "BasketGETResListItem") := by
  obtain ⟨hissued, artifacts, hok, -, -, hrefused⟩ := generate_both .short none basketEndpoint
  exact ⟨hissued.trans (by decide +kernel), ⟨artifacts, hok⟩,
    hrefused ⟨"BasketGETResListItem", "BasketGETResListItem2"⟩ (by decide +kernel)⟩

end Artifacts
end TypeScript
end TypedApi
