import TypedApi.Proofs.Nesting
import TypedApi.Proofs.Walk
import TypedApi.TypeScript.Convention

/-!
The tree of an object mirrors its schema: one declaration for the object and one for each object
with properties that its properties reach through array layers, each where its field refers to it.
-/
namespace TypedApi

/-- The part of a key in the name of what is nested under it: its word, or its place. -/
def Convention.propertyWord (c : Convention) (key : String) (position : Nat) : String :=
  if c.keyWord key = "" then DeclarationTree.positionWord position else c.keyWord key

/-- What tells the elements of an array from the array. -/
def itemMark (layers : Nat) : String := if layers = 0 then "" else "Item"

namespace DeclarationTree

/-- The fields of an object called `owner` and the trees nested directly in it, for its properties
from a position on; with the allocations on the way, in discovery order. -/
inductive MirrorsProperties (c : Convention) :
    String → List String → Nat → List (String × Schema) →
      List Field → List DeclarationTree → List Allocation → Prop
  | nil {owner : String} {required : List String} {i : Nat} :
    MirrorsProperties c owner required i [] [] [] []
  /-- There is no object with properties under the array layers: no reference and no tree. -/
  | plain {owner key : String} {required : List String} {i : Nat} {p : Schema} {type : TypeRef}
      {rest : List (String × Schema)} {fields : List Field} {trees : List DeclarationTree}
      {log : List Allocation} (hp : ∀ k t, p.Wraps k t → t.isComposite = false)
      (ht : type.reference? = none)
      (hrest : MirrorsProperties c owner required (i + 1) rest fields trees log) :
    MirrorsProperties c owner required i ((key, p) :: rest)
      (⟨key, type, !required.contains key, Text.notBlank p.description⟩ :: fields) trees log
  /-- There is one, `t`: the field refers to its declaration, which is the root of `child`. -/
  | nested {owner key : String} {required : List String} {i k : Nat} {p t : Schema}
      {child : DeclarationTree} {rest : List (String × Schema)} {fields : List Field}
      {trees : List DeclarationTree} {below log : List Allocation} (hp : p.Wraps k t)
      (ht : t.isComposite = true)
      (hdoc : child.declaration.doc = Text.notBlank t.description)
      (hchild : MirrorsProperties c child.rootName t.required 0 t.properties
        child.declaration.fields child.children below)
      (hrest : MirrorsProperties c owner required (i + 1) rest fields trees log) :
    MirrorsProperties c owner required i ((key, p) :: rest)
      (⟨key, (TypeRef.named child.rootName).layered k, !required.contains key,
        Text.notBlank p.description⟩ :: fields)
      (child :: trees)
      (⟨owner ++ c.propertyWord key i ++ itemMark k, child.rootName⟩ :: below ++ log)

/-- The tree of an object, whose own name is issued for the candidate. -/
structure Mirrors (c : Convention) (candidate : String) (s : Schema) (tree : DeclarationTree)
    (log : List Allocation) : Prop where
  doc : tree.declaration.doc = Text.notBlank s.description
  properties : ∃ below, log = ⟨candidate, tree.rootName⟩ :: below ∧
    MirrorsProperties c tree.rootName s.required 0 s.properties tree.declaration.fields
      tree.children below

/-- What is reported of the key of a property that needs a name: that it has no word, if so. -/
def keyNotes (c : Convention) (owner key : String) (position : Nat) : List Diagnostic :=
  if c.keyWord key = "" then
    [⟨.warning, .naming, "key '" ++ key ++ "' has no identifier characters; using '" ++
      positionWord position ++ "'", some (owner ++ "." ++ key)⟩]
  else []

/-- What is reported of an inference. -/
def inferenceNotes (owner key : String) (i : Inference) : List Diagnostic :=
  if i.type.isUnknown then
    [⟨.info, .resolve, "no type could be inferred", some (owner ++ "." ++ key)⟩]
  else if i.lossy then
    [⟨.info, .resolve, "64-bit integer may lose precision in the target representation",
      some (owner ++ "." ++ key)⟩]
  else []

variable {c : Convention}

theorem keyWord_yields {owner key word : String} {i : Nat} {log : List Allocation}
    {ds : List Diagnostic} (h : (keyWord owner key i).Yields c log ds word) :
    log = [] ∧ ds = keyNotes c owner key i ∧ word = c.propertyWord key i := by
  obtain ⟨_, l, _, d, k, rfl, rfl, ⟨rfl, rfl, hc⟩, hw⟩ := Walk.yields_bind.mp h
  rw [hc] at hw
  rw [Convention.propertyWord, keyNotes]
  by_cases hk : c.keyWord key = ""
  · simp only [hk, ne_eq, not_true_eq_false, ↓reduceIte] at hw ⊢
    obtain ⟨l, _, d, _, u, rfl, rfl, hr, rfl, rfl, rfl⟩ := Walk.yields_bind.mp hw
    obtain ⟨rfl, rfl⟩ := Walk.yields_report.mp hr
    exact ⟨rfl, rfl, rfl⟩
  · simp only [ne_eq, hk, not_false_eq_true, ↓reduceIte] at hw ⊢
    obtain ⟨rfl, rfl, rfl⟩ := hw
    exact ⟨rfl, rfl, rfl⟩

theorem noteInference_yields {owner key : String} {i : Inference} {log : List Allocation}
    {ds : List Diagnostic} {u : Unit} (h : (noteInference owner key i).Yields c log ds u) :
    log = [] ∧ ds = inferenceNotes owner key i := by
  simp only [noteInference] at h
  rw [inferenceNotes]
  split at h
  · next hunknown =>
    rw [if_pos hunknown]
    exact Walk.yields_report.mp h
  · next hunknown =>
    rw [if_neg hunknown]
    split at h
    · next hlossy =>
      rw [if_pos hlossy]
      exact Walk.yields_report.mp h
    · next hlossy =>
      rw [if_neg hlossy]
      exact ⟨h.1, h.2.1⟩

theorem nestedName_yields {owner key : String} {i : Nat} {p : Schema} {log : List Allocation}
    {ds : List Diagnostic} {nested : Option String}
    (h : (nestedName owner key i p).Yields c log ds nested) :
    (p.layersToObject? = none ∧ nested = none ∧ log = [] ∧ ds = []) ∨
    ∃ k name, p.layersToObject? = some k ∧ nested = some name ∧
      log = [⟨owner ++ c.propertyWord key i ++ itemMark k, name⟩] ∧
        ds = keyNotes c owner key i := by
  simp only [nestedName] at h
  cases hl : p.layersToObject? with
  | none =>
    simp only [hl] at h
    exact Or.inl ⟨rfl, h.2.2, h.1, h.2.1⟩
  | some k =>
    simp only [hl] at h
    obtain ⟨_, _, _, _, word, rfl, rfl, hw, hn⟩ := Walk.yields_bind.mp h
    obtain ⟨rfl, rfl, rfl⟩ := keyWord_yields hw
    obtain ⟨_, _, _, _, name, rfl, rfl, ha, rfl, rfl, rfl⟩ := Walk.yields_bind.mp hn
    obtain ⟨hlog, rfl⟩ := Walk.yields_allocate.mp ha
    exact Or.inr ⟨k, name, rfl, rfl, by simpa [itemMark] using hlog, by simp⟩

/-- What declaring a property and those after it does, in one step. -/
theorem declareProperties_cons {owner key : String} {required : List String} {i : Nat}
    {p : Schema} {rest : List (String × Schema)} {fields : List Field}
    {trees : List DeclarationTree} {log : List Allocation} {ds : List Diagnostic}
    (h : (declareProperties owner required i ((key, p) :: rest)).Yields c log ds (fields, trees)) :
    ∃ nested l₁ d₁ l₂ d₂ below l₃ d₃ moreFields moreTrees,
      (nestedName owner key i p).Yields c l₁ d₁ nested ∧
      (match nested with
        | some name => declareNested name p
        | none => pure [] : Walk (List DeclarationTree)).Yields c l₂ d₂ below ∧
      (declareProperties owner required (i + 1) rest).Yields c l₃ d₃ (moreFields, moreTrees) ∧
      fields = ⟨key, (p.infer nested).type, !required.contains key,
        Text.notBlank p.description⟩ :: moreFields ∧
      trees = below ++ moreTrees ∧ log = l₁ ++ l₂ ++ l₃ ∧
      ds = d₁ ++ inferenceNotes owner key (p.infer nested) ++ d₂ ++ d₃ := by
  rw [declareProperties] at h
  obtain ⟨l₁, _, d₁, _, nested, rfl, rfl, hn, hafter⟩ := Walk.yields_bind.mp h
  obtain ⟨l₀, _, d₀, _, u, rfl, rfl, hi, hafter⟩ := Walk.yields_bind.mp hafter
  obtain ⟨l₂, _, d₂, _, below, rfl, rfl, hb, hafter⟩ := Walk.yields_bind.mp hafter
  obtain ⟨l₃, _, d₃, _, ⟨moreFields, moreTrees⟩, rfl, rfl, hr, rfl, rfl, he⟩ :=
    Walk.yields_bind.mp hafter
  obtain ⟨rfl, rfl⟩ := Prod.mk.inj he
  obtain ⟨rfl, rfl⟩ := noteInference_yields hi
  exact ⟨nested, l₁, d₁, l₂, d₂, below, l₃, d₃, moreFields, moreTrees, hn, hb, hr, rfl, rfl,
    by simp, by simp⟩

/-- The declaration made for a property is the one of the object that the property wraps. -/
theorem declareNested_yields {p t : Schema} {k : Nat} (hp : p.Wraps k t)
    (ht : t.isComposite = true) {name : String} {log : List Allocation} {ds : List Diagnostic}
    {trees : List DeclarationTree} (h : (declareNested name p).Yields c log ds trees) :
    ∃ child, trees = [child] ∧ child.rootName = name ∧
      child.declaration.doc = Text.notBlank t.description ∧
      (declareProperties name t.required 0 t.properties).Yields c log ds
        (child.declaration.fields, child.children) := by
  rw [declareNested_of_wraps hp, declareNested_eq] at h
  simp only [((Schema.isComposite_iff t).mp ht).1] at h
  obtain ⟨l₁, _, d₁, _, ⟨fields, children⟩, rfl, rfl, hf, rfl, rfl, rfl⟩ := Walk.yields_bind.mp h
  exact ⟨_, rfl, rfl, rfl, by simpa [Declaration.documented] using hf⟩

/-- Whatever the names are, declaring these properties mirrors them. -/
def PropertiesMirrored (c : Convention) (properties : List (String × Schema)) : Prop :=
  ∀ {owner : String} {required : List String} {i : Nat} {fields : List Field}
    {trees : List DeclarationTree} {log : List Allocation} {ds : List Diagnostic},
    (declareProperties owner required i properties).Yields c log ds (fields, trees) →
      MirrorsProperties c owner required i properties fields trees log

/-- Property by property, given that what they wrap is mirrored. -/
theorem propertiesMirrored_of_wraps {properties : List (String × Schema)}
    (hw : ∀ p ∈ properties, ∀ k t, p.2.Wraps k t → PropertiesMirrored c t.properties) :
    PropertiesMirrored c properties := by
  intro owner required i fields trees log ds h
  induction properties generalizing i fields trees log ds with
  | nil =>
    rw [declareProperties] at h
    obtain ⟨rfl, -, he⟩ := h
    obtain ⟨rfl, rfl⟩ := Prod.mk.inj he
    exact .nil
  | cons property rest ih =>
    obtain ⟨key, p⟩ := property
    obtain ⟨nested, l₁, d₁, l₂, d₂, below, l₃, d₃, moreFields, moreTrees, hn, hb, hr, rfl, rfl,
      rfl, -⟩ := declareProperties_cons h
    have hrest := ih (fun q hq => hw q (List.mem_cons_of_mem _ hq)) hr
    rcases nestedName_yields hn with ⟨hl, rfl, rfl, -⟩ | ⟨k, name, hl, rfl, rfl, -⟩
    · obtain ⟨rfl, -, rfl⟩ := hb
      exact .plain (fun k t => Schema.layersToObject?_eq_none hl) p.infer_none_reference hrest
    · obtain ⟨t, hpt, ht⟩ := Schema.wraps_of_layersToObject? hl
      obtain ⟨child, rfl, rfl, hdoc, hchild⟩ := declareNested_yields hpt ht hb
      rw [Schema.infer_of_wraps hpt ht]
      exact .nested hpt ht hdoc (hw (key, p) (List.mem_cons_self ..) k t hpt hchild) hrest

theorem declareProperties_mirrors (properties : List (String × Schema)) :
    PropertiesMirrored c properties :=
  Schema.wraps_induction (fun _ => propertiesMirrored_of_wraps) properties

/-- The declaration of a schema that is no object is empty. -/
theorem ofSchema_yields {s : Schema} {candidate : String} {log : List Allocation}
    {ds : List Diagnostic} {tree : DeclarationTree}
    (h : (ofSchema s candidate).Yields c log ds tree) :
    (s.kind = .object ∧ Mirrors c candidate s tree log) ∨
    (s.kind ≠ .object ∧ log = [⟨candidate, tree.rootName⟩] ∧ tree.children = [] ∧
      tree.declaration.fields = []) := by
  rw [ofSchema] at h
  obtain ⟨_, _, _, _, name, rfl, -, ha, hs⟩ := Walk.yields_bind.mp h
  obtain ⟨rfl, -⟩ := Walk.yields_allocate.mp ha
  by_cases hk : s.kind = .object
  · simp only [hk] at hs
    obtain ⟨below, _, _, _, ⟨fields, children⟩, rfl, -, hf, rfl, -, rfl⟩ := Walk.yields_bind.mp hs
    refine Or.inl ⟨hk, rfl, below, ?_, declareProperties_mirrors s.properties hf⟩
    rw [List.append_nil]
    rfl
  · refine Or.inr ?_
    split at hs
    · next hobject => exact absurd hobject hk
    · obtain ⟨_, _, _, _, u, rfl, -, hr, rfl, -, rfl⟩ := Walk.yields_bind.mp hs
      rw [(Walk.yields_report.mp hr).1]
      exact ⟨hk, rfl, rfl, rfl⟩

theorem parameterFields_yields {owner : String} {parameters : List Parameter}
    {log : List Allocation} {ds : List Diagnostic} {fields : List Field}
    (h : (parameterFields owner parameters).Yields c log ds fields) :
    log = [] ∧ fields.filterMap Field.reference? = [] := by
  induction parameters generalizing log ds fields with
  | nil =>
    obtain ⟨rfl, -, rfl⟩ := h
    exact ⟨rfl, rfl⟩
  | cons p ps ih =>
    obtain ⟨_, _, _, _, field, rfl, -, hp, hafter⟩ := Walk.yields_bind.mp h
    obtain ⟨_, _, _, _, more, rfl, -, hps, rfl, -, rfl⟩ := Walk.yields_bind.mp hafter
    obtain ⟨_, _, _, _, u, rfl, -, hi, rfl, -, rfl⟩ := Walk.yields_bind.mp hp
    obtain ⟨rfl, hr⟩ := ih hps
    refine ⟨by simp [(noteInference_yields hi).1], ?_⟩
    simp only [List.filterMap_cons, Field.reference?, Field.documented, p.infer_reference, hr]

/-- The tree is one declaration, named for the candidate, that refers to nothing. -/
def IsBare (candidate : String) (tree : DeclarationTree) (log : List Allocation) : Prop :=
  log = [⟨candidate, tree.rootName⟩] ∧ tree.children = [] ∧
    tree.declaration.fields.filterMap Field.reference? = []

theorem ofParameters_yields {parameters : List Parameter} {candidate : String}
    {log : List Allocation} {ds : List Diagnostic} {tree : DeclarationTree}
    (h : (ofParameters parameters candidate).Yields c log ds tree) : IsBare candidate tree log := by
  obtain ⟨_, _, _, _, name, rfl, -, ha, hafter⟩ := Walk.yields_bind.mp h
  obtain ⟨_, _, _, _, fields, rfl, -, hf, rfl, -, rfl⟩ := Walk.yields_bind.mp hafter
  obtain ⟨rfl, hr⟩ := parameterFields_yields hf
  rw [(Walk.yields_allocate.mp ha).1]
  exact ⟨rfl, rfl, hr⟩

theorem ofPayload_yields {payload : Payload} {candidate : String} {log : List Allocation}
    {ds : List Diagnostic} {tree : DeclarationTree}
    (h : (ofPayload payload candidate).Yields c log ds tree) :
    (∃ s, Mirrors c candidate s tree log) ∨ IsBare candidate tree log := by
  cases payload with
  | none =>
    obtain ⟨_, _, _, _, name, rfl, -, ha, rfl, -, rfl⟩ := Walk.yields_bind.mp h
    rw [(Walk.yields_allocate.mp ha).1]
    exact Or.inr ⟨rfl, rfl, rfl⟩
  | malformed reason =>
    obtain ⟨_, _, _, _, name, rfl, -, ha, hafter⟩ := Walk.yields_bind.mp h
    obtain ⟨_, _, _, _, u, rfl, -, hr, rfl, -, rfl⟩ := Walk.yields_bind.mp hafter
    rw [(Walk.yields_allocate.mp ha).1, (Walk.yields_report.mp hr).1]
    exact Or.inr ⟨rfl, rfl, rfl⟩
  | query ps => exact Or.inr (ofParameters_yields h)
  | form ps => exact Or.inr (ofParameters_yields h)
  | body schema =>
    rcases ofSchema_yields h with ⟨-, hm⟩ | ⟨-, hl, hc, hf⟩
    · exact Or.inl ⟨schema, hm⟩
    · exact Or.inr ⟨hl, hc, by rw [hf, List.filterMap_nil]⟩

/-- A schema that is an object gives a tree that mirrors it, under any convention and from any
state of the registry. -/
theorem ofSchema_mirrors {s : Schema} (hs : s.kind = .object) {candidate : String}
    {start final : WalkState} {tree : DeclarationTree}
    (h : (ofSchema s candidate).run start = (.ok tree, final)) :
    Mirrors start.registry.convention candidate s tree
      ((ofSchema s candidate).allocations start.registry) := by
  obtain ⟨ds, hy, -⟩ := Walk.yields_of_run h
  rcases ofSchema_yields hy with ⟨-, hm⟩ | ⟨hk, -⟩
  · exact hm
  · exact absurd hs hk

/-- Arrays of arrays, a key without identifier characters, and two keys that want one name. -/
def basket : Schema :=
  let item : Schema := { properties := [("sku", { declaredType := some "string" })] }
  { properties :=
      [("list", { items := some { items := some item } }),
       ("listItem", item),
       ("用户", item),
       ("tags", { items := some { declaredType := some "string" } })]
    required := ["list"] }

theorem basket_mirrors :
    let start : WalkState := ⟨⟨{}, TypeScript.convention, []⟩, []⟩
    basket.kind = .object ∧ ∃ tree final,
      (ofSchema basket "BasketRes").run start = (.ok tree, final) ∧
      Mirrors TypeScript.convention "BasketRes" basket tree
        [⟨"BasketRes", "BasketRes"⟩, ⟨"BasketResListItem", "BasketResListItem"⟩,
          ⟨"BasketResListItem", "BasketResListItem2"⟩, ⟨"BasketResField3", "BasketResField3"⟩] := by
  intro start
  have hk : basket.kind = .object := by decide
  have hlog : (ofSchema basket "BasketRes").allocations start.registry =
      [⟨"BasketRes", "BasketRes"⟩, ⟨"BasketResListItem", "BasketResListItem"⟩,
        ⟨"BasketResListItem", "BasketResListItem2"⟩, ⟨"BasketResField3", "BasketResField3"⟩] := by
    decide +kernel
  obtain ⟨tree, final, hrun⟩ : ∃ tree final,
      (ofSchema basket "BasketRes").run start = (.ok tree, final) := ⟨_, _, rfl⟩
  exact ⟨hk, tree, final, hrun, hlog ▸ ofSchema_mirrors hk hrun⟩

end DeclarationTree
end TypedApi
