import TypedApi.DeclarationTree.OfPayload

/-!
Objects under array layers. Three functions look for the object that a property needs a
declaration for: the count of the layers, the inference of the type and the declaring itself.
`Wraps` says which object that is, and each of the three is shown to find it.
-/
namespace TypedApi

namespace Schema

/-- A property of schemas that passes from the parts of a schema to the schema holds of all. -/
@[elab_as_elim]
theorem induction {P : Schema → Prop}
    (node : ∀ s : Schema, (∀ p ∈ s.properties, P p.2) → (∀ e, s.items = some e → P e) → P s)
    (s : Schema) : P s :=
  Schema.rec (motive_1 := P) (motive_2 := fun properties => ∀ p ∈ properties, P p.2)
    (motive_3 := fun items => ∀ e, items = some e → P e) (motive_4 := fun p => P p.2)
    (fun _ _ _ _ _ _ _ hp hi => node _ hp hi)
    (by simp)
    (fun _ _ hhead htail p hp => by
      rcases List.mem_cons.mp hp with rfl | hp
      · exact hhead
      · exact htail p hp)
    (by simp)
    (fun _ he e h => Option.some.inj h ▸ he)
    (fun _ _ h => h)
    s

/-- The schema is `t` under that many array layers. -/
inductive Wraps : Schema → Nat → Schema → Prop
  | here (s : Schema) : Wraps s 0 s
  | layer {s e t : Schema} {k : Nat} (hk : s.kind = .array) (hi : s.items = some e)
      (h : Wraps e k t) : Wraps s (k + 1) t

/-- A property of lists of properties that passes from the objects that they wrap to the list
holds of all. -/
theorem wraps_induction {P : List (String × Schema) → Prop}
    (object : ∀ properties, (∀ p ∈ properties, ∀ k t, p.2.Wraps k t → P t.properties) →
      P properties)
    (properties : List (String × Schema)) : P properties := by
  -- On the schema itself: the object that a property wraps is smaller than the property's owner.
  have hwrapped : ∀ (s : Schema) (k : Nat) (t : Schema), s.Wraps k t → P t.properties := by
    intro s
    induction s using Schema.induction with
    | node s hproperties hitems =>
      intro k t h
      cases h with
      | here => exact object s.properties hproperties
      | layer hk hi h => exact hitems _ hi _ t h
  exact object properties fun p _ => hwrapped p.2

theorem isComposite_iff (s : Schema) :
    s.isComposite = true ↔ s.kind = .object ∧ s.properties ≠ [] := by
  simp [isComposite]

theorem layersToObject?_eq (s : Schema) :
    s.layersToObject? = match s.kind with
      | .object => if s.properties.isEmpty then none else some 0
      | .array => s.items.bind fun e => e.layersToObject?.map (· + 1)
      | _ => none := by
  obtain ⟨_, _, _, _, _ | _, _, _⟩ := s
  · rw [layersToObject?]
    rfl
  · rw [layersToObject?]
    rfl

theorem layersToObject?_of_wraps {s t : Schema} {k : Nat} (h : s.Wraps k t)
    (ht : t.isComposite = true) : s.layersToObject? = some k := by
  induction h with
  | here s =>
    obtain ⟨hk, hp⟩ := (isComposite_iff s).mp ht
    simp [layersToObject?_eq, hk, hp]
  | layer hk hi h ih =>
    rw [layersToObject?_eq]
    simp [hk, hi, ih ht]

theorem wraps_of_layersToObject? {s : Schema} {k : Nat} (h : s.layersToObject? = some k) :
    ∃ t, s.Wraps k t ∧ t.isComposite = true := by
  induction s using Schema.induction generalizing k with
  | node s _ hitems =>
    rw [layersToObject?_eq] at h
    cases hk : s.kind with
    | object =>
      simp only [hk] at h
      split at h
      · exact absurd h (by simp)
      · cases h
        exact ⟨s, .here s, (isComposite_iff s).mpr ⟨hk, by simp_all⟩⟩
    | array =>
      simp only [hk] at h
      obtain ⟨e, hi, he⟩ := Option.bind_eq_some_iff.mp h
      obtain ⟨j, hj, rfl⟩ := Option.map_eq_some_iff.mp he
      obtain ⟨t, hw, ht⟩ := hitems e hi hj
      exact ⟨t, .layer hk hi hw, ht⟩
    | scalar => simp [hk] at h
    | unknown => simp [hk] at h

theorem layersToObject?_eq_none {s : Schema} (h : s.layersToObject? = none) {k : Nat}
    {t : Schema} (hw : s.Wraps k t) : t.isComposite = false := by
  cases ht : t.isComposite with
  | false => rfl
  | true => simp [layersToObject?_of_wraps hw ht] at h

end Schema

namespace TypeRef

/-- The declaration that a type refers to. No type refers to two. -/
def reference? : TypeRef → Option String
  | named name => some name
  | array element => element.reference?
  | _ => none

/-- The type under that many array layers. -/
def layered : Nat → TypeRef → TypeRef
  | 0, t => t
  | k + 1, t => array (t.layered k)

@[simp] theorem reference?_layered (k : Nat) (t : TypeRef) :
    (t.layered k).reference? = t.reference? := by
  induction k with
  | zero => rfl
  | succ k ih => exact ih

mutual

theorem ofSample?_reference {e : Example} {t : TypeRef} (h : ofSample? e = some t) :
    t.reference? = none := by
  match e with
  | .null => simp [ofSample?] at h
  | .bool _ | .number _ | .object =>
    rw [ofSample?, Option.some.injEq] at h
    exact h ▸ rfl
  | .string s =>
    rw [ofSample?] at h
    split at h
    · simp at h
    · exact Option.some.inj h ▸ rfl
  | .array items =>
    rw [ofSample?, Option.some.injEq] at h
    exact h ▸ elementType_reference items

theorem elementType_reference (items : List Example) : (elementType items).reference? = none := by
  match items with
  | [] => rfl
  | e :: _ =>
    rw [elementType]
    cases h : ofSample? e with
    | none => rfl
    | some t => exact ofSample?_reference h

end

end TypeRef

/-- The declaration that the type of a field refers to. -/
def Field.reference? (f : Field) : Option String := f.type.reference?

theorem sampled_reference (sample : Option Example) :
    (sampled sample).type.reference? = none := by
  rw [sampled]
  cases h : sample.bind TypeRef.ofSample? with
  | none => rfl
  | some t =>
    obtain ⟨e, -, he⟩ := Option.bind_eq_some_iff.mp h
    exact TypeRef.ofSample?_reference he

namespace Schema

theorem infer_eq (s : Schema) (nested : Option String) :
    s.infer nested = match s.kind with
      | .object =>
        match nested with
        | some name => ⟨if s.properties.isEmpty then .openMap else .named name, .declared, false⟩
        | none => ⟨.openMap, .declared, false⟩
      | .array =>
        match s.items with
        | some e => ⟨.array (e.infer nested).type, .declared, (e.infer nested).lossy⟩
        | none => ⟨.array .unknown, .declared, false⟩
      | .scalar =>
        match s.declaredType.bind (Scalar.ofDeclared? · s.format) with
        | some t => declaredScalar t
        | none => sampled s.sample
      | .unknown => sampled s.sample := by
  obtain ⟨_, _, _, _, _ | _, _, _⟩ := s
  · rw [infer.eq_def]
    rfl
  · rw [infer.eq_def]
    rfl

/-- Array layers around a schema are array layers around its type. -/
theorem infer_layered {s t : Schema} {k : Nat} (h : s.Wraps k t) (nested : Option String) :
    (s.infer nested).type = (t.infer nested).type.layered k ∧
      (s.infer nested).lossy = (t.infer nested).lossy := by
  induction h with
  | here s => exact ⟨rfl, rfl⟩
  | layer hk hi h ih =>
    rw [infer_eq]
    simp [hk, hi, ih, TypeRef.layered]

theorem infer_of_wraps {s t : Schema} {k : Nat} (h : s.Wraps k t) (ht : t.isComposite = true)
    (name : String) : (s.infer (some name)).type = (TypeRef.named name).layered k := by
  obtain ⟨hk, hp⟩ := (isComposite_iff t).mp ht
  rw [(infer_layered h (some name)).1, infer_eq]
  simp [hk, hp]

/-- Without a declaration to refer to, no type refers to one. -/
theorem infer_none_reference (s : Schema) : (s.infer none).type.reference? = none := by
  induction s using Schema.induction with
  | node s _ hitems =>
    rw [infer_eq]
    cases hk : s.kind with
    | object => rfl
    | array =>
      cases hi : s.items with
      | none => rfl
      | some e => exact hitems e hi
    | scalar =>
      cases hd : s.declaredType.bind (Scalar.ofDeclared? · s.format) with
      | some t => rfl
      | none => exact sampled_reference s.sample
    | unknown => exact sampled_reference s.sample

end Schema

theorem TypeRef.ofName?_reference {name : String} {t : TypeRef} (h : ofName? name = some t) :
    t.reference? = none := by
  simp only [ofName?] at h
  repeat' split at h
  all_goals cases h; try rfl

theorem declaredParameter_reference {name : String} {i : Inference}
    (h : declaredParameter name = some i) : i.type.reference? = none := by
  simp only [declaredParameter] at h
  split at h
  · exact Option.some.inj h ▸ rfl
  · exact Option.some.inj h ▸ rfl
  · obtain ⟨s, -, rfl⟩ := Option.map_eq_some_iff.mp h
    rfl

theorem Parameter.infer_reference (p : Parameter) : p.infer.type.reference? = none := by
  simp only [infer]
  split
  · next i hi =>
    obtain ⟨name, -, hn⟩ := Option.bind_eq_some_iff.mp hi
    exact declaredParameter_reference hn
  · split
    · next t ht => exact TypeRef.ofName?_reference ht
    · exact sampled_reference p.sample

namespace DeclarationTree

theorem declareNested_eq (name : String) (s : Schema) :
    declareNested name s = match s.kind with
      | .object => do
        let (fields, children) ← declareProperties name s.required 0 s.properties
        return [⟨({ name, fields } : Declaration).documented s.description, children⟩]
      | .array =>
        match s.items with
        | some e => declareNested name e
        | none => return []
      | _ => return [] := by
  obtain ⟨_, _, _, _, _ | _, _, _⟩ := s
  · rw [declareNested]
    rfl
  · rw [declareNested]
    rfl

theorem declareNested_of_wraps {s t : Schema} {k : Nat} (h : s.Wraps k t) (name : String) :
    declareNested name s = declareNested name t := by
  induction h with
  | here s => rfl
  | layer hk hi h ih =>
    rw [declareNested_eq]
    simp only [hk, hi, ih]

end DeclarationTree
end TypedApi
