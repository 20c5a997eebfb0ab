import TypedApi.Walk

/-!
What a registry issues: never a name that it has issued before. A taken candidate always has a
free number, so under the suffix policy an allocation cannot fail.
-/
namespace TypedApi

namespace Registry

theorem isIssued_iff (r : Registry) (name : String) : r.isIssued name = true ↔ name ∈ r.issued := by
  simp [isIssued]

theorem numbered_injective (candidate : String) {m n : Nat}
    (h : numbered candidate m = numbered candidate n) : m = n := by
  have hr : toString m = toString n := (String.append_right_inj candidate).mp h
  rw [Nat.toString_eq_repr, Nat.toString_eq_repr] at hr
  have hd : Nat.toDigits 10 m = Nat.toDigits 10 n := by
    rw [← Nat.toList_repr, ← Nat.toList_repr, hr]
  rw [← Nat.ofDigitChars_toDigits (b := 10) (n := m) (by decide) (by decide), hd,
    Nat.ofDigitChars_toDigits (by decide) (by decide)]

theorem numbered_ne (candidate : String) (n : Nat) : numbered candidate n ≠ candidate := by
  intro h
  have hl : (candidate ++ toString n).length = candidate.length := congrArg String.length h
  rw [String.length_append] at hl
  have he : toString n = "" := String.length_eq_zero_iff.mp (by omega)
  rw [Nat.toString_eq_repr] at he
  exact Nat.repr_ne_empty he

/-- There are more numbers to try than names that could be in the way. -/
theorem exists_freeNumber (r : Registry) (candidate : String) :
    ∃ n, r.freeNumber? candidate = some n := by
  cases h : r.freeNumber? candidate with
  | some n => exact ⟨n, rfl⟩
  | none =>
    exfalso
    let tried := (List.range (r.issued.length + 1)).map fun i => numbered candidate (i + 2)
    have hd : tried.Nodup := by
      apply List.Pairwise.map _ _ List.nodup_range
      intro i j hij he
      have := numbered_injective candidate he
      omega
    have hs : tried ⊆ r.issued := by
      intro name hn
      obtain ⟨i, hi, rfl⟩ := List.mem_map.mp hn
      have := List.find?_eq_none.mp h (i + 2) (List.mem_map.mpr ⟨i, hi, rfl⟩)
      simpa [isIssued_iff] using this
    have hl := hd.length_le_of_subset hs
    rw [List.length_map, List.length_range] at hl
    omega

/-- The name for a taken candidate is the candidate with a number, and it is free. -/
theorem freeName_spec (r : Registry) (candidate : String) :
    ∃ n, 2 ≤ n ∧ r.freeName candidate = numbered candidate n ∧
      r.freeName candidate ∉ r.issued := by
  obtain ⟨n, hn⟩ := r.exists_freeNumber candidate
  have hf : r.freeName candidate = numbered candidate n := by rw [freeName, hn]
  have hm := List.mem_of_find?_eq_some hn
  have hp := List.find?_some hn
  refine ⟨n, ?_, hf, ?_⟩
  · obtain ⟨i, -, rfl⟩ := List.mem_map.mp hm
    omega
  · rw [hf, ← isIssued_iff]
    simpa using hp

theorem freeName_ne (r : Registry) (candidate : String) : r.freeName candidate ≠ candidate := by
  obtain ⟨n, -, hn, -⟩ := r.freeName_spec candidate
  rw [hn]
  exact numbered_ne candidate n

theorem allocate_of_free {r : Registry} {candidate : String} (h : candidate ∉ r.issued) :
    r.allocate candidate = .ok (candidate, r.issue candidate) := by
  simp [allocate, isIssued, h]

theorem allocate_rejected {r : Registry} {candidate : String} (h : candidate ∈ r.issued)
    (hp : r.settings.collisions = .reject) :
    r.allocate candidate = .error (.collision candidate) := by
  simp [allocate, isIssued, h, hp]

theorem allocate_renamed {r : Registry} {candidate : String} (h : candidate ∈ r.issued)
    (hp : r.settings.collisions = .suffix) :
    r.allocate candidate = .ok (r.freeName candidate, r.issue (r.freeName candidate)) := by
  simp [allocate, isIssued, h, hp]

/-- All that a successful allocation can do. -/
theorem allocate_ok {r r' : Registry} {candidate name : String}
    (h : r.allocate candidate = .ok (name, r')) :
    r' = r.issue name ∧ name ∉ r.issued ∧
      (name = candidate ∨ ∃ n, 2 ≤ n ∧ name = numbered candidate n) := by
  by_cases hc : candidate ∈ r.issued
  · cases hp : r.settings.collisions with
    | reject => simp [allocate_rejected hc hp] at h
    | suffix =>
      rw [allocate_renamed hc hp, Except.ok.injEq, Prod.mk.injEq] at h
      obtain ⟨rfl, rfl⟩ := h
      obtain ⟨n, h2, hn, hf⟩ := r.freeName_spec candidate
      exact ⟨rfl, hf, Or.inr ⟨n, h2, hn⟩⟩
  · rw [allocate_of_free hc, Except.ok.injEq, Prod.mk.injEq] at h
    obtain ⟨rfl, rfl⟩ := h
    exact ⟨rfl, hc, Or.inl rfl⟩

/-- The allocations follow from one another: each issues what its candidate gives then. -/
def Replays : Registry → List Allocation → Prop
  | _, [] => True
  | r, a :: log =>
    r.allocate a.candidate = .ok (a.name, r.issue a.name) ∧ (r.issue a.name).Replays log

/-- The registry once these allocations are made. -/
def after (r : Registry) (log : List Allocation) : Registry :=
  { r with issued := r.issued ++ log.map (·.name) }

@[simp] theorem after_nil (r : Registry) : r.after [] = r := by
  simp [after]

@[simp] theorem after_cons (r : Registry) (a : Allocation) (log : List Allocation) :
    r.after (a :: log) = (r.issue a.name).after log := by
  simp [after, issue]

@[simp] theorem after_issued (r : Registry) (log : List Allocation) :
    (r.after log).issued = r.issued ++ log.map (·.name) := rfl

theorem after_append (r : Registry) (l₁ l₂ : List Allocation) :
    r.after (l₁ ++ l₂) = (r.after l₁).after l₂ := by
  simp [after]

theorem replays_append {r : Registry} {l₁ l₂ : List Allocation} :
    r.Replays (l₁ ++ l₂) ↔ r.Replays l₁ ∧ (r.after l₁).Replays l₂ := by
  induction l₁ generalizing r with
  | nil => simp [Replays]
  | cons a l₁ ih =>
    rw [List.cons_append, Replays, Replays, ih, after_cons]
    exact and_assoc.symm

theorem Replays.nodup {r : Registry} {log : List Allocation} (h : r.Replays log)
    (hr : r.issued.Nodup) : (r.after log).issued.Nodup := by
  induction log generalizing r with
  | nil => simpa using hr
  | cons a log ih =>
    obtain ⟨ha, hlog⟩ := h
    have hi : (r.issue a.name).issued.Nodup := by
      obtain ⟨-, hf, -⟩ := allocate_ok ha
      exact List.nodup_append.mpr ⟨hr, by simp, by
        intro x hx y hy
        rw [List.mem_singleton.mp hy]
        exact fun he => hf (he ▸ hx)⟩
    simpa only [after_cons] using ih hlog hi

/-- What a run issues is new to the registry and distinct, whatever was issued before. -/
theorem Replays.fresh {r : Registry} {log : List Allocation} (h : r.Replays log) :
    (log.map (·.name)).Nodup ∧ ∀ a ∈ log, a.name ∉ r.issued := by
  induction log generalizing r with
  | nil => simp
  | cons a log ih =>
    obtain ⟨ha, hlog⟩ := h
    obtain ⟨-, hf, -⟩ := allocate_ok ha
    obtain ⟨hd, hnew⟩ := ih hlog
    have hlater : ∀ b ∈ log, b.name ∉ r.issued ∧ b.name ≠ a.name := by
      intro b hb
      simpa [issue] using hnew b hb
    refine ⟨List.nodup_cons.mpr ⟨?_, hd⟩, List.forall_mem_cons.mpr ⟨hf, ?_⟩⟩
    · intro hm
      obtain ⟨b, hb, he⟩ := List.mem_map.mp hm
      exact (hlater b hb).2 he
    · exact fun b hb => (hlater b hb).1

/-- A name is its candidate, or the candidate with a number. -/
theorem Replays.name_eq {r : Registry} {log : List Allocation} (h : r.Replays log)
    {a : Allocation} (ha : a ∈ log) :
    a.name = a.candidate ∨ ∃ n, 2 ≤ n ∧ a.name = numbered a.candidate n := by
  induction log generalizing r with
  | nil => simp at ha
  | cons b log ih =>
    obtain ⟨hb, hlog⟩ := h
    rcases List.mem_cons.mp ha with rfl | ha
    · exact (allocate_ok hb).2.2
    · exact ih hlog ha

end Registry
end TypedApi
