import Mathlib.Order.Bounds.Defs
import TypedApi.Naming.Derivation
import TypedApi.Proofs.Independence
import TypedApi.Proofs.Registry
import TypedApi.TypeScript.Convention

/-!
Histories of a registry. However requests for names follow one another, the issued names are just
those that the allocations among them have returned, each of them once; a derivation gives what it
would give on a new registry, and a taken candidate gets the smallest free number, which a search
through all numbers finds.
-/
namespace TypedApi.Registry

/-! The smallest free number -/

/-- The search through as many numbers as there may be names in the way ends where a search through
all numbers does. -/
theorem freeNumber?_isLeast {r : Registry} {candidate : String} {n : Nat}
    (h : r.freeNumber? candidate = some n) :
    IsLeast {n | 2 ≤ n ∧ r.isIssued (numbered candidate n) = false} n ∧
      n ≤ r.issued.length + 2 := by
  rw [freeNumber?, List.find?_map, Option.map_eq_some_iff] at h
  obtain ⟨i, hi, rfl⟩ := h
  obtain ⟨hfree, hrange, hbefore⟩ := List.find?_range_eq_some.mp hi
  have htries : i < r.issued.length + 1 := List.mem_range.mp hrange
  refine ⟨⟨⟨by omega, by simpa using hfree⟩, ?_⟩, by omega⟩
  intro m hm
  obtain ⟨h2, hfreem⟩ : 2 ≤ m ∧ r.isIssued (numbered candidate m) = false := hm
  -- A smaller free number would have been tried before.
  by_contra hlt
  have htaken := hbefore (m - 2) (by omega)
  rw [Function.comp_apply, show m - 2 + 2 = m by omega, hfreem] at htaken
  cases htaken

/-! Requests -/

/-- A name that is derived from a path or stands in for one, whatever has been issued. -/
inductive Derivation
  | typeName (path : String) (method : Method) (role : Role)
  | functionName (path : String)
  | placeholderType (method : Method) (role : Role)
  | typeNameOrPlaceholder (path : String) (method : Method) (role : Role)
  | functionNameOrPlaceholder (path : String)

/-- A name or a refusal, with what is reported. -/
abbrev Naming := Except NamingError String × List Diagnostic

def Derivation.naming (r : Registry) : Derivation → Naming
  | typeName path method role => (r.typeName path method role, [])
  | functionName path => (r.functionName path, [])
  | placeholderType method role => (.ok (r.placeholderType method role), [])
  | typeNameOrPlaceholder path method role =>
    let (name, diagnostics) := r.typeNameOrPlaceholder path method role
    (.ok name, diagnostics)
  | functionNameOrPlaceholder path =>
    let (name, diagnostics) := r.functionNameOrPlaceholder path
    (.ok name, diagnostics)

inductive Request
  | derive (d : Derivation)
  | allocate (candidate : String)

/-- Answers a request. An allocation that is refused leaves the registry as it is. -/
def Request.answer : Request → Registry → Naming × Registry
  | derive d, r => (d.naming r, r)
  | allocate candidate, r =>
    match r.allocate candidate with
    | .ok (name, r) => ((.ok name, []), r)
    | .error e => ((.error e, []), r)

def allocation? : Request × Naming → Option Allocation
  | (.allocate candidate, (.ok name, _)) => some ⟨candidate, name⟩
  | _ => none

/-- The allocations among answered requests that returned a name. -/
def allocated (answered : List (Request × Naming)) : List Allocation :=
  answered.filterMap allocation?

theorem allocated_cons (a : Request × Naming) (answered : List (Request × Naming)) :
    allocated (a :: answered) = (allocation? a).toList ++ allocated answered := by
  rw [allocated, allocated, List.filterMap_cons]
  cases allocation? a with
  | none => rfl
  | some _ => rfl

/-- Derived names depend on nothing that has been issued. -/
theorem naming_after (d : Derivation) (r : Registry) (log : List Allocation) :
    d.naming (r.after log) = d.naming r := by
  cases d <;> rfl

theorem answer_of_allocate_ok {r r' : Registry} {candidate name : String}
    (h : r.allocate candidate = .ok (name, r')) :
    (Request.allocate candidate).answer r = ((.ok name, []), r') := by
  simp only [Request.answer, h]

theorem answer_of_allocate_error {r : Registry} {candidate : String} {e : NamingError}
    (h : r.allocate candidate = .error e) :
    (Request.allocate candidate).answer r = ((.error e, []), r) := by
  simp only [Request.answer, h]

/-- One request issues the name of its allocation, if it is one that returns a name. -/
theorem answer_allocation (request : Request) (r : Registry) :
    let log := (allocation? (request, (request.answer r).1)).toList
    (request.answer r).2 = r.after log ∧ r.Replays log := by
  cases request with
  | derive d => exact ⟨(after_nil r).symm, trivial⟩
  | allocate candidate =>
    cases ha : r.allocate candidate with
    | error e =>
      rw [answer_of_allocate_error ha]
      exact ⟨(after_nil r).symm, trivial⟩
    | ok given =>
      obtain ⟨name, r'⟩ := given
      obtain ⟨rfl, -, -⟩ := allocate_ok ha
      rw [answer_of_allocate_ok ha]
      exact ⟨rfl, ha, trivial⟩

/-- All requests together issue the names of their allocations. -/
theorem perform_allocated (requests : List Request) (r : Registry) :
    let log := allocated (perform Request.answer requests r).1
    (perform Request.answer requests r).2 = r.after log ∧ r.Replays log := by
  induction requests generalizing r with
  | nil => exact ⟨(after_nil r).symm, trivial⟩
  | cons request requests ih =>
    obtain ⟨hstep, hreplay⟩ := answer_allocation request r
    obtain ⟨hrun, hreplays⟩ := ih (request.answer r).2
    simp only [perform_cons, allocated_cons]
    rw [hstep] at hrun hreplays ⊢
    exact ⟨by rw [hrun, after_append], replays_append.mpr ⟨hreplay, hreplays⟩⟩

/-- Whatever has been requested of a new registry, in whatever order, a name is issued just if an
allocation returned it, and no two allocations returned the same. A further derivation gives what
it gives on the new registry and issues nothing. A further allocation gives a free candidate; a
taken one is refused with nothing changed, or gets the smallest number that makes it a free name,
which is among the first that are tried. -/
theorem names_of_requests (settings : NamingSettings) (convention : Convention)
    (requests : List Request) :
    let fresh : Registry := ⟨settings, convention, []⟩
    let names := (allocated (perform Request.answer requests fresh).1).map (·.name)
    let r := (perform Request.answer requests fresh).2
    (∀ name, r.isIssued name = true ↔ name ∈ names) ∧ names.Nodup ∧
    (∀ d : Derivation, (Request.derive d).answer r = (d.naming fresh, r)) ∧
    ∀ candidate,
      (r.isIssued candidate = false →
        (Request.allocate candidate).answer r = ((.ok candidate, []), r.issue candidate)) ∧
      (r.isIssued candidate = true → settings.collisions = .reject →
        (Request.allocate candidate).answer r = ((.error (.collision candidate), []), r)) ∧
      (r.isIssued candidate = true → settings.collisions = .suffix → ∃ n,
        IsLeast {n | 2 ≤ n ∧ r.isIssued (numbered candidate n) = false} n ∧
        n ≤ r.issued.length + 2 ∧ r.freeNumber? candidate = some n ∧
        numbered candidate n ≠ candidate ∧
        (Request.allocate candidate).answer r =
          ((.ok (numbered candidate n), []), r.issue (numbered candidate n))) := by
  intro fresh names r
  obtain ⟨hr, hreplays⟩ := perform_allocated requests fresh
  -- The new registry has issued nothing, so all that is issued is what its allocations returned.
  have hissued : r.issued = names := by
    show (perform Request.answer requests fresh).2.issued = names
    rw [hr, after_issued]
    exact List.nil_append _
  have hsettings : r.settings = settings := by
    show (perform Request.answer requests fresh).2.settings = settings
    rw [hr, after]
  refine ⟨?_, hreplays.fresh.1, ?_, ?_⟩
  · intro name
    rw [isIssued_iff, hissued]
  · intro d
    show (d.naming (perform Request.answer requests fresh).2, r) = _
    rw [hr, naming_after]
  · intro candidate
    refine ⟨?_, ?_, ?_⟩
    · intro hfree
      exact answer_of_allocate_ok (allocate_of_free (by simpa [isIssued] using hfree))
    · intro htaken hp
      have hmem : candidate ∈ r.issued := (isIssued_iff r candidate).mp htaken
      exact answer_of_allocate_error (allocate_rejected hmem (hsettings ▸ hp))
    · intro htaken hp
      have hmem : candidate ∈ r.issued := (isIssued_iff r candidate).mp htaken
      obtain ⟨n, hn⟩ := r.exists_freeNumber candidate
      obtain ⟨hleast, hbound⟩ := freeNumber?_isLeast hn
      have hname : r.freeName candidate = numbered candidate n := by rw [freeName, hn]
      have hgiven := allocate_renamed hmem (hsettings ▸ hp)
      rw [hname] at hgiven
      exact ⟨n, hleast, hbound, hn, numbered_ne candidate n, answer_of_allocate_ok hgiven⟩

/-- The second allocation is the first again. -/
def reports : List Request :=
  [.allocate "Report", .derive (.functionName "/report"), .allocate "Report"]

/-- A name made by numbering is a candidate like any other; where nothing is numbered it is free. -/
theorem reports_names :
    let lenient := (perform Request.answer reports ⟨{}, TypeScript.convention, []⟩).2
    let strict :=
      (perform Request.answer reports ⟨{ collisions := .reject }, TypeScript.convention, []⟩).2
    lenient.issued = ["Report", "Report2"] ∧ strict.issued = ["Report"] ∧
    (Request.allocate "Report2").answer lenient =
      ((.ok "Report22", []), lenient.issue "Report22") ∧
    (Request.allocate "Report2").answer strict = ((.ok "Report2", []), strict.issue "Report2") ∧
    (Request.allocate "Report").answer strict = ((.error (.collision "Report"), []), strict) := by
  intro lenient strict
  obtain ⟨-, -, -, hlenient⟩ := names_of_requests {} TypeScript.convention reports
  obtain ⟨-, -, -, hstrict⟩ :=
    names_of_requests { collisions := .reject } TypeScript.convention reports
  obtain ⟨n, -, -, hn, -, hgiven⟩ := (hlenient "Report2").2.2 (by decide +kernel) rfl
  have hfound : lenient.freeNumber? "Report2" = some 2 := by decide +kernel
  obtain rfl : 2 = n := Option.some.inj (hfound.symm.trans hn)
  exact ⟨by decide +kernel, by decide +kernel, hgiven, (hstrict "Report2").1 (by decide +kernel),
    (hstrict "Report").2.1 (by decide +kernel) rfl⟩

end TypedApi.Registry
