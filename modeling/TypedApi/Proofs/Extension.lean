import TypedApi.Proofs.Members
import TypedApi.Proofs.RootNames
import TypedApi.Proofs.Shapes

/-!
Schemas that grow at the end. What is declared for further properties comes after all that is
declared for the earlier ones, so that these keep their places, and their names where collisions
are numbered.
-/
namespace TypedApi

namespace Walk

variable {α β : Type}

/-- Under the suffix policy nothing ends a walk early: what follows it starts where it ends, with
its value, which hangs on the registry alone. -/
theorem run_continued (w : Walk α) (f : α → Walk β) {s s' : WalkState}
    (hsame : s.registry = s'.registry) (hsuffix : s.registry.settings.collisions = .suffix) :
    ∃ a between, (w.run s).1 = .ok a ∧ w.run s' = (.ok a, between) ∧
      (w >>= f).run s' = (f a).run between ∧
      between.registry.settings.collisions = .suffix := by
  obtain ⟨a, ha⟩ := w.run_suffix s hsuffix
  obtain ⟨-, ⟨e, he, -⟩ | ⟨b, _, hb, hb', rfl⟩⟩ := (alongside_refl w).run hsame
  · rw [ha] at he
    cases he
  · obtain rfl := Except.ok.inj (ha.symm.trans hb)
    have hregistry := w.run_registry s'
    rcases hrun : w.run s' with ⟨result, between⟩
    rw [hrun] at hb' hregistry
    obtain rfl : result = .ok a := hb'
    refine ⟨a, between, ha, rfl, ?_, ?_⟩
    · rw [run_bind, hrun]
    · rw [hregistry, ← hsame]
      exact hsuffix

end Walk

namespace Schema

/-- The schema with further properties after its own, and with these keys required. -/
def extended (s : Schema) (more : List (String × Schema)) (required : List String) : Schema :=
  { s with properties := s.properties ++ more, required }

/-- With properties there is an object wherever there is one without. -/
theorem Kind.ofParts_of_object {declaredType : Option String} {hasProperties hasItems : Bool}
    (h : Kind.ofParts declaredType hasProperties hasItems = .object) :
    Kind.ofParts declaredType true hasItems = .object := by
  cases declaredType with
  | none => rfl
  | some t =>
    unfold Kind.ofParts at h ⊢
    split at h
    · rfl
    · cases h
    · split at h
      · cases h
      · cases h
    · next hnone => cases hnone

theorem kind_extended {s : Schema} (hs : s.kind = .object) (more : List (String × Schema))
    (required : List String) : (s.extended more required).kind = .object := by
  unfold kind extended
  cases hproperties : s.properties ++ more with
  | nil =>
    rw [kind, (List.append_eq_nil_iff.mp hproperties).1] at hs
    exact hs
  | cons p ps => exact Kind.ofParts_of_object hs

end Schema

namespace DeclarationTree

theorem declareProperties_append (owner : String) (required : List String) (i : Nat)
    (ps qs : List (String × Schema)) :
    declareProperties owner required i (ps ++ qs) =
      declareProperties owner required i ps >>= fun found =>
        declareProperties owner required (i + ps.length) qs >>= fun more =>
          pure (found.1 ++ more.1, found.2 ++ more.2) := by
  induction ps generalizing i with
  | nil =>
    rw [declareProperties]
    exact (Walk.bind_pure _).symm
  | cons p ps ih =>
    obtain ⟨key, property⟩ := p
    have hplace : i + 1 + ps.length = i + (ps.length + 1) := by omega
    rw [List.cons_append, declareProperties, declareProperties]
    simp only [ih, hplace, Walk.bind_assoc, Walk.pure_bind, List.length_cons, List.cons_append,
      List.append_assoc]

/-- Whether a key is required matters only for the keys that there are. -/
theorem declareProperties_congr (owner : String) {required required' : List String} (i : Nat)
    {ps : List (String × Schema)}
    (h : ∀ key ∈ ps.map Prod.fst, key ∈ required ↔ key ∈ required') :
    declareProperties owner required i ps = declareProperties owner required' i ps := by
  induction ps generalizing i with
  | nil => rw [declareProperties, declareProperties]
  | cons p ps ih =>
    obtain ⟨key, property⟩ := p
    rw [List.map_cons, List.forall_mem_cons] at h
    rw [declareProperties, declareProperties]
    have hkey : required.contains key = required'.contains key := by
      simp only [List.contains_eq_mem, h.1]
    simp only [ih (i + 1) h.2, hkey]

/-- The tree with further fields in its root, and further trees under it. -/
def grown (t : DeclarationTree) (fields : List Field) (trees : List DeclarationTree) :
    DeclarationTree :=
  ⟨{ t.declaration with fields := t.declaration.fields ++ fields }, t.children ++ trees⟩

/-- To declare an extended schema is to declare the schema, and then what it is extended by. -/
theorem ofSchema_extended {s : Schema} (hs : s.kind = .object) {more : List (String × Schema)}
    {required : List String} (hrequired : ∀ key ∈ s.properties.map Prod.fst,
      key ∈ required ↔ key ∈ s.required) (candidate : String) :
    ofSchema (s.extended more required) candidate =
      ofSchema s candidate >>= fun tree =>
        declareProperties tree.rootName required s.properties.length more >>= fun found =>
          pure (tree.grown found.1 found.2) := by
  have hk := Schema.kind_extended hs more required
  have hdeclare : ∀ name, declareProperties name (s.extended more required).required 0
      (s.extended more required).properties =
        declareProperties name s.required 0 s.properties >>= fun found =>
          declareProperties name required s.properties.length more >>= fun further =>
            pure (found.1 ++ further.1, found.2 ++ further.2) := by
    intro name
    have happend := declareProperties_append name required 0 s.properties more
    rw [declareProperties_congr name 0 hrequired, Nat.zero_add] at happend
    exact happend
  rw [ofSchema, ofSchema]
  simp only [hk, hs, hdeclare, Walk.bind_assoc, Walk.pure_bind]
  rfl

section Places

theorem le_of_mem_placesFrom {start n : Nat} {ts : List DeclarationTree}
    (h : n ∈ placesFrom start ts) : start ≤ n := by
  induction ts generalizing start with
  | nil => cases h
  | cons t ts ih =>
    rw [placesFrom] at h
    rcases List.mem_cons.mp h with rfl | h
    · exact Nat.le_refl _
    · exact Nat.le_trans (Nat.le_add_right _ _) (ih h)

end Places

/-- The second tree begins with the first. Its root is that of the first, with these fields and
maybe further children after the earlier ones. All that is nested in the first tree is listed in the
second at the same places, with the same nested in it; and what else is nested comes after it. -/
structure Begins (t u : DeclarationTree) (fields : List Field) : Prop where
  root : u.declaration = { t.declaration with fields := t.declaration.fields ++ fields }
  rootPlaces : ∃ places more, t.childPlaces.head? = some places ∧
    u.childPlaces.head? = some (places ++ more) ∧ ∀ n ∈ more, t.declarations.length ≤ n
  nested : t.declarations.tail <+: u.declarations.tail
  nestedPlaces : t.childPlaces.tail <+: u.childPlaces.tail

theorem begins_grown (t : DeclarationTree) (fields : List Field) (trees : List DeclarationTree) :
    t.Begins (t.grown fields trees) fields := by
  obtain ⟨d, children⟩ := t
  have hlength : (declarations ⟨d, children⟩).length =
      1 + (forestDeclarations children).length := by
    rw [declarations, List.length_cons, Nat.add_comm]
  refine ⟨rfl, ⟨placesFrom 1 children,
    placesFrom (1 + (forestDeclarations children).length) trees, rfl, ?_, ?_⟩, ?_, ?_⟩
  · rw [← placesFrom_append]
    rfl
  · intro n hn
    rw [hlength]
    exact le_of_mem_placesFrom hn
  · rw [grown, declarations, declarations, forestDeclarations_append]
    exact List.prefix_append _ _
  · rw [grown, childPlaces, childPlaces, childPlacesFrom, childPlacesFrom, forestChildPlaces_append]
    exact List.prefix_append _ _

/-- No declaration changes its name. -/
theorem Begins.names {t u : DeclarationTree} {fields : List Field} (h : t.Begins u fields) :
    t.names <+: u.names := by
  have hroot : u.declaration.name = t.declaration.name := by rw [h.root]
  have hnested := h.nested
  rw [declarations_eq, declarations_eq, List.tail_cons, List.tail_cons] at hnested
  rw [DeclarationTree.names, DeclarationTree.names, declarations_eq, declarations_eq,
    List.map_cons, List.map_cons, hroot, List.prefix_cons_inj]
  exact hnested.map _

/-- From equal registries under the suffix policy: an object and the same object with further
properties at its end, under keys that are new and of which only these may come to be required or
not, are both declared, and the second tree begins with the first. The new fields are those of the
new keys, and no declaration of the first tree has another name in the second. -/
theorem ofSchema_extended_begins {s : Schema} (hs : s.kind = .object)
    {more : List (String × Schema)} {required : List String}
    (hnew : ∀ key ∈ more.map Prod.fst, key ∉ s.properties.map Prod.fst)
    (hrequired : ∀ key, key ∉ more.map Prod.fst → (key ∈ required ↔ key ∈ s.required))
    (candidate : String) {start start' : WalkState} (hsame : start.registry = start'.registry)
    (hsuffix : start.registry.settings.collisions = .suffix) :
    ∃ tree tree' fields,
      ((ofSchema s candidate).run start).1 = .ok tree ∧
      ((ofSchema (s.extended more required) candidate).run start').1 = .ok tree' ∧
      tree.Begins tree' fields ∧ fields.map (·.name) = more.map Prod.fst ∧
      tree.names <+: tree'.names := by
  have hold : ∀ key ∈ s.properties.map Prod.fst, key ∈ required ↔ key ∈ s.required :=
    fun key hkey => hrequired key fun hmem => hnew key hmem hkey
  obtain ⟨tree, between, htree, -, hfirst, hbetween⟩ :=
    Walk.run_continued (ofSchema s candidate) (fun tree =>
      declareProperties tree.rootName required s.properties.length more >>= fun found =>
        pure (tree.grown found.1 found.2)) hsame hsuffix
  obtain ⟨found, final, -, hfound, hsecond, -⟩ :=
    Walk.run_continued (declareProperties tree.rootName required s.properties.length more)
      (fun found => pure (tree.grown found.1 found.2)) rfl hbetween
  obtain ⟨ds, hyields, -⟩ := Walk.yields_of_run hfound
  have hbegins := tree.begins_grown found.1 found.2
  refine ⟨tree, tree.grown found.1 found.2, found.1, htree, ?_, hbegins, ?_, hbegins.names⟩
  · rw [ofSchema_extended hs hold, hfirst, hsecond]
    rfl
  · exact (declareProperties_mirrors more hyields).fieldNames

/-- A further property, which wants the name that two have asked for already. -/
def extraItem : List (String × Schema) :=
  [("list item", { properties := [("sku", { declaredType := some "string" })] })]

theorem basket_begins :
    let start : WalkState := ⟨⟨{}, TypeScript.convention, []⟩, []⟩
    let extended := basket.extended extraItem ["list item", "list"]
    basket.kind = .object ∧
    ∃ tree tree' fields, ((ofSchema basket "BasketRes").run start).1 = .ok tree ∧
      ((ofSchema extended "BasketRes").run start).1 = .ok tree' ∧
      tree.Begins tree' fields ∧ fields.map (·.name) = ["list item"] ∧
      tree.names = ["BasketRes", "BasketResListItem", "BasketResListItem2", "BasketResField3"] ∧
      tree'.names = tree.names ++ ["BasketResListItem3"] := by
  intro start extended
  have hobject : basket.kind = .object := by decide
  have hnew : ∀ key ∈ extraItem.map Prod.fst, key ∉ basket.properties.map Prod.fst := by decide
  have hrequired : ∀ key, key ∉ extraItem.map Prod.fst →
      (key ∈ ["list item", "list"] ↔ key ∈ basket.required) := by
    intro key hkey
    have hne : key ≠ "list item" := by simpa [extraItem] using hkey
    simp [basket, hne]
  obtain ⟨tree, tree', fields, htree, htree', hbegins, hfields, -⟩ :=
    ofSchema_extended_begins hobject hnew hrequired "BasketRes"
      (show start.registry = start.registry from rfl) rfl
  have hnames : ((ofSchema basket "BasketRes").run start).1.toOption.map names =
      some ["BasketRes", "BasketResListItem", "BasketResListItem2", "BasketResField3"] := by
    decide +kernel
  have hnames' : ((ofSchema extended "BasketRes").run start).1.toOption.map names =
      some ["BasketRes", "BasketResListItem", "BasketResListItem2", "BasketResField3",
        "BasketResListItem3"] := by
    decide +kernel
  rw [htree] at hnames
  rw [htree'] at hnames'
  have hold := Option.some.inj hnames
  refine ⟨hobject, tree, tree', fields, htree, htree', hbegins, hfields, hold, ?_⟩
  rw [hold]
  exact Option.some.inj hnames'

end DeclarationTree
end TypedApi
