import TypedApi.Proofs.Registry

/-!
Walks in general. What holds of every run comes from here by one induction over the requests of a
walk, whatever they are; what a walk does to a schema is read off from `Yields`, where the answers
of the registry are left open.
-/
namespace TypedApi

namespace Walk

variable {α β γ : Type} {c : Convention}

theorem pure_bind (a : α) (f : α → Walk β) : (pure a >>= f : Walk β) = f a := rfl

theorem bind_pure (w : Walk α) : (w >>= fun a => pure a) = w := by
  change w.andThen done = w
  induction w with
  | done a => rfl
  | allocating candidate next ih => exact congrArg (allocating candidate) (funext ih)
  | reporting d next ih => exact congrArg (reporting d) ih
  | consulting next ih => exact congrArg consulting (funext ih)

theorem bind_assoc (w : Walk α) (f : α → Walk β) (g : β → Walk γ) :
    (w >>= f) >>= g = w >>= fun a => f a >>= g := by
  change (w.andThen f).andThen g = w.andThen fun a => (f a).andThen g
  induction w with
  | done a => rfl
  | allocating candidate next ih => exact congrArg (allocating candidate) (funext ih)
  | reporting d next ih => exact congrArg (reporting d) ih
  | consulting next ih => exact congrArg consulting (funext ih)

theorem run_bind (w : Walk α) (f : α → Walk β) (s : WalkState) :
    (w >>= f).run s = match w.run s with
      | (.ok a, s') => (f a).run s'
      | (.error e, s') => (.error e, s') := by
  change (w.andThen f).run s = _
  induction w generalizing s with
  | done a => rfl
  | allocating candidate next ih =>
    simp only [andThen, run]
    cases s.registry.allocate candidate with
    | error e => rfl
    | ok given => exact ih given.1 { s with registry := given.2 }
  | reporting d next ih => exact ih { s with diagnostics := s.diagnostics ++ [d] }
  | consulting next ih => exact ih s.registry.convention s

theorem run_map_eq_ok {w : Walk α} {g : α → β} {s s' : WalkState} {b : β} :
    (g <$> w).run s = (.ok b, s') ↔ ∃ a, w.run s = (.ok a, s') ∧ b = g a := by
  change (w >>= fun a => pure (g a)).run s = _ ↔ _
  rw [run_bind]
  rcases w.run s with ⟨result, t⟩
  cases result with
  | error e => simp
  | ok a =>
    constructor
    · intro h
      obtain ⟨rfl, rfl⟩ : g a = b ∧ t = s' := by simpa [pure, run] using h
      exact ⟨a, rfl, rfl⟩
    · rintro ⟨a', ha, rfl⟩
      obtain ⟨rfl, rfl⟩ : a = a' ∧ t = s' := by simpa using ha
      rfl

/-- With some answers to its requests for names, the walk makes these allocations and reports
these diagnostics, and then ends with this value. -/
def Yields (c : Convention) : Walk α → List Allocation → List Diagnostic → α → Prop
  | done a, log, ds, b => log = [] ∧ ds = [] ∧ b = a
  | allocating candidate next, log, ds, b =>
    ∃ name rest, log = ⟨candidate, name⟩ :: rest ∧ (next name).Yields c rest ds b
  | reporting d next, log, ds, b => ∃ rest, ds = d :: rest ∧ next.Yields c log rest b
  | consulting next, log, ds, b => (next c).Yields c log ds b

@[simp] theorem yields_allocate {candidate name : String} {log : List Allocation}
    {ds : List Diagnostic} :
    (allocate candidate).Yields c log ds name ↔ log = [⟨candidate, name⟩] ∧ ds = [] := by
  constructor
  · rintro ⟨given, rest, rfl, rfl, rfl, rfl⟩
    exact ⟨rfl, rfl⟩
  · rintro ⟨rfl, rfl⟩
    exact ⟨name, [], rfl, rfl, rfl, rfl⟩

@[simp] theorem yields_report {d : Diagnostic} {u : Unit} {log : List Allocation}
    {ds : List Diagnostic} : (report d).Yields c log ds u ↔ log = [] ∧ ds = [d] := by
  constructor
  · rintro ⟨rest, rfl, rfl, rfl, -⟩
    exact ⟨rfl, rfl⟩
  · rintro ⟨rfl, rfl⟩
    exact ⟨[], rfl, rfl, rfl, rfl⟩

/-- A walk that goes on divides its allocations and diagnostics between the two parts. -/
theorem yields_bind {w : Walk α} {f : α → Walk β} {log : List Allocation}
    {ds : List Diagnostic} {b : β} :
    (w >>= f).Yields c log ds b ↔ ∃ l₁ l₂ d₁ d₂ a, log = l₁ ++ l₂ ∧ ds = d₁ ++ d₂ ∧
      w.Yields c l₁ d₁ a ∧ (f a).Yields c l₂ d₂ b := by
  change (w.andThen f).Yields c log ds b ↔ _
  induction w generalizing log ds with
  | done a =>
    constructor
    · exact fun h => ⟨[], log, [], ds, a, rfl, rfl, ⟨rfl, rfl, rfl⟩, h⟩
    · rintro ⟨l₁, l₂, d₁, d₂, a, rfl, rfl, ⟨rfl, rfl, rfl⟩, h⟩
      exact h
  | allocating candidate next ih =>
    constructor
    · rintro ⟨name, rest, rfl, h⟩
      obtain ⟨l₁, l₂, d₁, d₂, a, rfl, rfl, hw, hf⟩ := (ih name).mp h
      exact ⟨⟨candidate, name⟩ :: l₁, l₂, d₁, d₂, a, rfl, rfl, ⟨name, l₁, rfl, hw⟩, hf⟩
    · rintro ⟨l₁, l₂, d₁, d₂, a, rfl, rfl, ⟨name, rest, rfl, hw⟩, hf⟩
      exact ⟨name, rest ++ l₂, rfl, (ih name).mpr ⟨rest, l₂, d₁, d₂, a, rfl, rfl, hw, hf⟩⟩
  | reporting d next ih =>
    constructor
    · rintro ⟨rest, rfl, h⟩
      obtain ⟨l₁, l₂, d₁, d₂, a, rfl, rfl, hw, hf⟩ := ih.mp h
      exact ⟨l₁, l₂, d :: d₁, d₂, a, rfl, rfl, ⟨d₁, rfl, hw⟩, hf⟩
    · rintro ⟨l₁, l₂, d₁, d₂, a, rfl, rfl, ⟨rest, rfl, hw⟩, hf⟩
      exact ⟨rest ++ d₂, rfl, ih.mpr ⟨l₁, l₂, rest, d₂, a, rfl, rfl, hw, hf⟩⟩
  | consulting next ih => exact ih c

theorem yields_map {w : Walk α} {g : α → β} {log : List Allocation} {ds : List Diagnostic}
    {b : β} : (g <$> w).Yields c log ds b ↔ ∃ a, w.Yields c log ds a ∧ b = g a := by
  change (w >>= fun a => pure (g a)).Yields c log ds b ↔ _
  rw [yields_bind]
  constructor
  · rintro ⟨l₁, l₂, d₁, d₂, a, rfl, rfl, hw, rfl, rfl, rfl⟩
    exact ⟨a, by simpa using hw, rfl⟩
  · rintro ⟨a, hw, rfl⟩
    exact ⟨log, [], ds, [], a, by simp, by simp, hw, rfl, rfl, rfl⟩

/-- Every run leaves the registry as its allocations make it, also a run that fails. -/
theorem run_registry (w : Walk α) (s : WalkState) :
    (w.run s).2.registry = s.registry.after (w.allocations s.registry) := by
  induction w generalizing s with
  | done a => simp [run, allocations]
  | allocating candidate next ih =>
    cases ha : s.registry.allocate candidate with
    | error e => simp [run, allocations, ha]
    | ok given =>
      obtain ⟨name, r⟩ := given
      obtain ⟨rfl, -, -⟩ := Registry.allocate_ok ha
      simpa [run, allocations, ha] using ih name { s with registry := s.registry.issue name }
  | reporting d next ih => exact ih { s with diagnostics := s.diagnostics ++ [d] }
  | consulting next ih => exact ih s.registry.convention s

theorem allocations_replay (w : Walk α) (r : Registry) : r.Replays (w.allocations r) := by
  induction w generalizing r with
  | done a => trivial
  | allocating candidate next ih =>
    cases ha : r.allocate candidate with
    | error e => simp [allocations, ha, Registry.Replays]
    | ok given =>
      obtain ⟨name, r'⟩ := given
      obtain ⟨rfl, -, -⟩ := Registry.allocate_ok ha
      simpa [allocations, ha, Registry.Replays] using ih name (r.issue name)
  | reporting d next ih => exact ih r
  | consulting next ih => exact ih r.convention r

/-- A run that succeeds does what the walk may do, with the allocations of the run. -/
theorem yields_of_run {w : Walk α} {s s' : WalkState} {a : α} (h : w.run s = (.ok a, s')) :
    ∃ ds, w.Yields s.registry.convention (w.allocations s.registry) ds a ∧
      s'.diagnostics = s.diagnostics ++ ds := by
  induction w generalizing s with
  | done b =>
    obtain ⟨rfl, rfl⟩ : b = a ∧ s = s' := by simpa [run] using h
    exact ⟨[], ⟨rfl, rfl, rfl⟩, by simp⟩
  | allocating candidate next ih =>
    cases ha : s.registry.allocate candidate with
    | error e => simp [run, ha] at h
    | ok given =>
      obtain ⟨name, r⟩ := given
      obtain ⟨rfl, -, -⟩ := Registry.allocate_ok ha
      simp only [run, ha] at h
      obtain ⟨ds, hy, hd⟩ := ih name h
      simp only [allocations, ha]
      exact ⟨ds, ⟨name, _, rfl, hy⟩, hd⟩
  | reporting d next ih =>
    obtain ⟨ds, hy, hd⟩ := ih h
    exact ⟨d :: ds, ⟨ds, rfl, hy⟩, by simpa using hd⟩
  | consulting next ih => exact ih s.registry.convention h

/-- Under the suffix policy there is no refusal. -/
theorem run_suffix (w : Walk α) (s : WalkState)
    (hp : s.registry.settings.collisions = .suffix) : ∃ a, (w.run s).1 = .ok a := by
  induction w generalizing s with
  | done a => exact ⟨a, rfl⟩
  | allocating candidate next ih =>
    by_cases hc : candidate ∈ s.registry.issued
    · simp only [run, Registry.allocate_renamed hc hp]
      exact ih _ _ hp
    · simp only [run, Registry.allocate_of_free hc]
      exact ih _ _ hp
  | reporting d next ih => exact ih { s with diagnostics := s.diagnostics ++ [d] } hp
  | consulting next ih => exact ih s.registry.convention s hp

end Walk
end TypedApi
