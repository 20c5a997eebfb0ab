import TypedApi.Proofs.Diagnostics

/-!
Where the type of a schema comes from. A schema of a known kind has its type by declaration,
because every name that makes a scalar kind also names a scalar; only a schema of an unknown kind
is typed by its sample. Array layers around a schema become array layers around its type and change
nothing else.
-/
namespace TypedApi

/-- The names that make a schema a scalar are those that name one. -/
theorem Scalar.ofDeclared?_eq_none_iff {name : String} {format : Option String} :
    Scalar.ofDeclared? name format = none ↔ name ∉ Schema.scalarTypes := by
  unfold ofDeclared?
  split <;> simp_all [Schema.scalarTypes]

/-- A sample is neither a declaration nor a name. -/
theorem sampled_tier (sample : Option Example) :
    (sampled sample).tier = .sample ∨ (sampled sample).tier = .fallback := by
  unfold sampled
  split
  · exact .inl rfl
  · exact .inr rfl

namespace Schema

/-- Only a declared type makes a scalar kind, so the scalar can be read off it. -/
theorem exists_scalar_of_kind {s : Schema} (h : s.kind = .scalar) :
    ∃ t, s.declaredType.bind (Scalar.ofDeclared? · s.format) = some t := by
  obtain ⟨declaredType, format, properties, required, items, description, sample⟩ := s
  simp only [kind, Kind.ofParts] at h
  split at h
  · cases h
  · cases h
  · next name _ _ =>
    split at h
    · next hname =>
      rw [Option.bind_some]
      exact Option.ne_none_iff_exists'.mp fun hnone =>
        Scalar.ofDeclared?_eq_none_iff.mp hnone hname
    · cases h
  · split at h
    · cases h
    · split at h
      · cases h
      · cases h

theorem infer_of_unknown {s : Schema} (h : s.kind = .unknown) (nested : Option String) :
    s.infer nested = sampled s.sample := by
  rw [infer_eq, h]

/-- A known kind never needs the sample. -/
theorem infer_of_known {s : Schema} (h : s.kind ≠ .unknown) (nested : Option String) :
    (s.infer nested).tier = .declared := by
  rw [infer_eq]
  cases hk : s.kind with
  | object =>
    cases nested with
    | none => rfl
    | some name => rfl
  | array =>
    cases s.items with
    | none => rfl
    | some e => rfl
  | scalar =>
    obtain ⟨t, ht⟩ := exists_scalar_of_kind hk
    rw [ht]
    rfl
  | unknown => exact absurd hk h

theorem infer_tier_iff (s : Schema) (nested : Option String) :
    ((s.infer nested).tier = .declared ↔ s.kind ≠ .unknown) ∧ (s.infer nested).tier ≠ .name := by
  by_cases h : s.kind = .unknown
  · rw [infer_of_unknown h]
    rcases sampled_tier s.sample with ht | ht
    · simp [ht, h]
    · simp [ht, h]
  · simp [infer_of_known h, h]

/-- The schema as the items of an array, as often as that. -/
def inArrays : Nat → Schema → Schema
  | 0, s => s
  | k + 1, s => { declaredType := some "array", items := some (inArrays k s) }

theorem wraps_inArrays (k : Nat) (s : Schema) : (s.inArrays k).Wraps k s := by
  induction k with
  | zero => exact .here s
  | succ k ih => exact .layer rfl rfl ih

/-- An array is known to be one by its kind, whatever it is an array of. -/
theorem infer_of_wraps_succ {s outer : Schema} {k : Nat} (h : outer.Wraps (k + 1) s)
    (nested : Option String) :
    outer.infer nested =
      ⟨(s.infer nested).type.layered (k + 1), .declared, (s.infer nested).lossy⟩ := by
  obtain ⟨htype, hlossy⟩ := infer_layered h nested
  have htier : (outer.infer nested).tier = .declared := by
    cases h with
    | layer hk hi h => exact infer_of_known (by simp [hk]) nested
  rw [← htype, ← hlossy, ← htier]

/-- A type is declared just if the kind of the schema is known, and never taken from a name; it is
lossy just if it is a wide integer under its array layers. Any arrays around the schema, written
out or told by their items, give as many layers around its type, by declaration, and it is lossy
as before. -/
theorem infer_by_kind (s : Schema) (nested : Option String) :
    let i := s.infer nested
    (i.tier = .declared ↔ s.kind ≠ .unknown) ∧ i.tier ≠ .name ∧
    (i.lossy = true ↔ i.type.innermost = .scalar .wideInteger) ∧
    (∀ k, (s.inArrays (k + 1)).infer nested = ⟨i.type.layered (k + 1), .declared, i.lossy⟩) ∧
    ∀ k (outer : Schema), outer.Wraps (k + 1) s →
      outer.infer nested = ⟨i.type.layered (k + 1), .declared, i.lossy⟩ := by
  intro i
  obtain ⟨hdeclared, hname⟩ := s.infer_tier_iff nested
  refine ⟨hdeclared, hname, s.infer_isHonest nested, ?_, ?_⟩
  · intro k
    exact infer_of_wraps_succ (s.wraps_inArrays (k + 1)) nested
  · intro k outer h
    exact infer_of_wraps_succ h nested

/-- A number of 64 bits in a list that is told by its items only. -/
def ledgerEntries : Schema where
  items := some { declaredType := some "integer", format := some "INT64" }

/-- Three lists of such numbers inside each other. -/
theorem ledgerEntries_inferred :
    let entry : Schema := { declaredType := some "integer", format := some "INT64" }
    let outer : Schema := { description := some "pages", items := some (ledgerEntries.inArrays 1) }
    outer.Wraps 3 entry ∧
    outer.infer none = ⟨.array (.array (.array (.scalar .wideInteger))), .declared, true⟩ := by
  intro entry outer
  have hwraps : outer.Wraps 3 entry :=
    .layer rfl rfl (.layer rfl rfl (.layer rfl rfl (.here entry)))
  obtain ⟨-, -, -, -, hlayers⟩ := infer_by_kind entry none
  have hentry : entry.infer none = ⟨.scalar .wideInteger, .declared, true⟩ := rfl
  refine ⟨hwraps, ?_⟩
  rw [hlayers 2 outer hwraps, hentry]
  rfl

end Schema
end TypedApi
