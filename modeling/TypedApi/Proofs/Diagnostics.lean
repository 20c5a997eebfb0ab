import TypedApi.Proofs.References

/-!
What a walk reports. The diagnostics of a walk that succeeds can be read off its tree: the fields
are gone through in the order in which they are discovered, and the type of a field tells what has
been reported of it.
-/
namespace TypedApi

/-! Types that lose precision -/

namespace TypeRef

@[simp] theorem innermost_layered (k : Nat) (t : TypeRef) :
    (t.layered k).innermost = t.innermost := by
  induction k with
  | zero => rfl
  | succ k ih => exact ih

@[simp] theorem isUnknown_layered (k : Nat) (t : TypeRef) :
    (t.layered k).isUnknown = t.isUnknown := by
  induction k with
  | zero => rfl
  | succ k ih => exact ih

mutual

theorem ofSample?_innermost {e : Example} {t : TypeRef} (h : ofSample? e = some t) :
    t.innermost ≠ .scalar .wideInteger := by
  match e with
  | .null => simp [ofSample?] at h
  | .bool _ | .number _ | .object =>
    rw [ofSample?, Option.some.injEq] at h
    simp [← h, innermost]
  | .string s =>
    rw [ofSample?] at h
    split at h
    · simp at h
    · simp [← Option.some.inj h, innermost]
  | .array items =>
    rw [ofSample?, Option.some.injEq] at h
    exact h ▸ elementType_innermost items

theorem elementType_innermost (items : List Example) :
    (elementType items).innermost ≠ .scalar .wideInteger := by
  match items with
  | [] => simp [elementType, innermost]
  | e :: _ =>
    rw [elementType]
    cases h : ofSample? e with
    | none => simp [innermost]
    | some t => exact ofSample?_innermost h

end

theorem ofName?_innermost {name : String} {t : TypeRef} (h : ofName? name = some t) :
    t.innermost ≠ .scalar .wideInteger := by
  simp only [ofName?] at h
  repeat' split at h
  all_goals cases h; try simp [innermost]

end TypeRef

namespace Inference

/-- What is said to be lossy is a wide integer, under whatever array layers, and nothing else. -/
def IsHonest (i : Inference) : Prop :=
  i.lossy = true ↔ i.type.innermost = .scalar .wideInteger

theorem isHonest_declared (s : Scalar) : (declaredScalar s).IsHonest := by
  simp [IsHonest, declaredScalar, TypeRef.innermost]

theorem isHonest_of_ne {t : TypeRef} (h : t.innermost ≠ .scalar .wideInteger) (tier : Tier) :
    IsHonest ⟨t, tier, false⟩ := by
  simp [IsHonest, h]

theorem isHonest_sampled (sample : Option Example) : (sampled sample).IsHonest := by
  rw [sampled]
  cases h : sample.bind TypeRef.ofSample? with
  | none => exact isHonest_of_ne (by simp [TypeRef.innermost]) _
  | some t =>
    obtain ⟨e, -, he⟩ := Option.bind_eq_some_iff.mp h
    exact isHonest_of_ne (TypeRef.ofSample?_innermost he) _

end Inference

theorem Schema.infer_isHonest (s : Schema) (nested : Option String) :
    (s.infer nested).IsHonest := by
  induction s using Schema.induction with
  | node s _ hitems =>
    rw [infer_eq]
    cases s.kind with
    | object =>
      cases nested with
      | none => exact Inference.isHonest_of_ne (by simp [TypeRef.innermost]) _
      | some name =>
        refine Inference.isHonest_of_ne ?_ _
        split
        · simp [TypeRef.innermost]
        · simp [TypeRef.innermost]
    | array =>
      cases hi : s.items with
      | none => exact Inference.isHonest_of_ne (by simp [TypeRef.innermost]) _
      | some e => exact hitems e hi
    | scalar =>
      cases s.declaredType.bind (Scalar.ofDeclared? · s.format) with
      | none => exact Inference.isHonest_sampled s.sample
      | some t => exact Inference.isHonest_declared t
    | unknown => exact Inference.isHonest_sampled s.sample

theorem declaredParameter_isHonest {name : String} {i : Inference}
    (h : declaredParameter name = some i) : i.IsHonest := by
  simp only [declaredParameter] at h
  split at h
  · exact Option.some.inj h ▸ Inference.isHonest_of_ne (by simp [TypeRef.innermost]) _
  · exact Option.some.inj h ▸ Inference.isHonest_of_ne (by simp [TypeRef.innermost]) _
  · obtain ⟨s, -, rfl⟩ := Option.map_eq_some_iff.mp h
    exact Inference.isHonest_declared s

theorem Parameter.infer_isHonest (p : Parameter) : p.infer.IsHonest := by
  simp only [infer]
  split
  · next i hi =>
    obtain ⟨name, -, hn⟩ := Option.bind_eq_some_iff.mp hi
    exact declaredParameter_isHonest hn
  · split
    · next t ht => exact Inference.isHonest_of_ne (TypeRef.ofName?_innermost ht) _
    · exact Inference.isHonest_sampled p.sample

/-- What is reported of a type: that nothing is known of it, or that it loses precision. -/
def TypeRef.notes (place : String) (t : TypeRef) : List Diagnostic :=
  if t.isUnknown then [⟨.info, .resolve, "no type could be inferred", some place⟩]
  else if t.innermost = .scalar .wideInteger then
    [⟨.info, .resolve, "64-bit integer may lose precision in the target representation",
      some place⟩]
  else []

theorem Inference.IsHonest.notes_eq {i : Inference} (h : i.IsHonest) (owner key : String) :
    DeclarationTree.inferenceNotes owner key i = i.type.notes (owner ++ "." ++ key) := by
  have hlossy : i.lossy = true ↔ i.type.innermost = .scalar .wideInteger := h
  simp only [DeclarationTree.inferenceNotes, TypeRef.notes, hlossy]

/-- A field that refers to a declaration is typed by it. -/
theorem TypeRef.notes_of_layered (place : String) (k : Nat) (name : String) :
    ((named name).layered k).notes place = [] := by
  simp [notes, isUnknown, innermost]

/-! Sites -/

/-- A field where a walk comes upon it. -/
structure Site where
  owner : String
  position : Nat
  field : Field
deriving DecidableEq, Repr

namespace Site

/-- What is reported at a site: of its key, if its property gets a declaration, and of its type. -/
def notes (c : Convention) (site : Site) : List Diagnostic :=
  (if site.field.reference?.isSome then
    DeclarationTree.keyNotes c site.owner site.field.name site.position
  else []) ++ site.field.type.notes (site.owner ++ "." ++ site.field.name)

theorem notes_plain (c : Convention) {f : Field} (h : f.reference? = none) (owner : String)
    (position : Nat) : notes c ⟨owner, position, f⟩ = f.type.notes (owner ++ "." ++ f.name) := by
  simp [notes, h]

theorem notes_nested (c : Convention) {f : Field} {name : String} {k : Nat}
    (h : f.type = (TypeRef.named name).layered k) (owner : String) (position : Nat) :
    notes c ⟨owner, position, f⟩ = DeclarationTree.keyNotes c owner f.name position := by
  simp [notes, Field.reference?, h, TypeRef.reference?, TypeRef.notes_of_layered]

/-- The sites of an object: after a field that refers to a declaration come the sites of that
declaration, which are the next ones below. -/
def inOrder (owner : String) (position : Nat) : List Field → List (List Site) → List Site
  | [], _ => []
  | f :: fields, below =>
    match f.reference?, below with
    | some _, nested :: below =>
      ⟨owner, position, f⟩ :: (nested ++ inOrder owner (position + 1) fields below)
    | _, below => ⟨owner, position, f⟩ :: inOrder owner (position + 1) fields below

variable {owner : String} {fields : List Field} {below : List (List Site)}

theorem inOrder_plain {f : Field} (h : f.reference? = none) (position : Nat) :
    inOrder owner position (f :: fields) below =
      ⟨owner, position, f⟩ :: inOrder owner (position + 1) fields below := by
  simp [inOrder, h]

theorem inOrder_nested {f : Field} {name : String} (h : f.reference? = some name) (position : Nat)
    (nested : List Site) :
    inOrder owner position (f :: fields) (nested :: below) =
      ⟨owner, position, f⟩ :: (nested ++ inOrder owner (position + 1) fields below) := by
  simp [inOrder, h]

end Site

/-- The sites of a declaration alone. -/
def Declaration.sitesFrom (owner : String) (position : Nat) : List Field → List Site
  | [] => []
  | f :: fields => ⟨owner, position, f⟩ :: sitesFrom owner (position + 1) fields

def Declaration.sites (d : Declaration) : List Site := sitesFrom d.name 0 d.fields

namespace DeclarationTree

mutual

/-- The fields of a tree in the order of their discovery. -/
def sites : DeclarationTree → List Site
  | ⟨d, children⟩ => Site.inOrder d.name 0 d.fields (forestSites children)

def forestSites : List DeclarationTree → List (List Site)
  | [] => []
  | t :: ts => t.sites :: forestSites ts

end

theorem forestSites_eq (ts : List DeclarationTree) : forestSites ts = ts.map sites := by
  induction ts with
  | nil => rfl
  | cons t ts ih => rw [forestSites, ih, List.map_cons]

theorem sites_eq (t : DeclarationTree) :
    t.sites = Site.inOrder t.rootName 0 t.declaration.fields (t.children.map sites) := by
  cases t
  rw [sites, forestSites_eq]
  rfl

/-! Notes of a walk -/

variable {c : Convention}

/-- The diagnostics of these properties are the notes on their fields and those below them. -/
def PropertiesNoted (c : Convention) (properties : List (String × Schema)) : Prop :=
  ∀ {owner : String} {required : List String} {i : Nat} {fields : List Field}
    {trees : List DeclarationTree} {log : List Allocation} {ds : List Diagnostic},
    (declareProperties owner required i properties).Yields c log ds (fields, trees) →
      ds = (Site.inOrder owner i fields (trees.map sites)).flatMap (Site.notes c)

theorem propertiesNoted_of_wraps {properties : List (String × Schema)}
    (hw : ∀ p ∈ properties, ∀ k t, p.2.Wraps k t → PropertiesNoted c t.properties) :
    PropertiesNoted c properties := by
  intro owner required i fields trees log ds h
  induction properties generalizing i fields trees log ds with
  | nil =>
    rw [declareProperties] at h
    obtain ⟨-, rfl, he⟩ := h
    obtain ⟨rfl, rfl⟩ := Prod.mk.inj he
    rfl
  | cons property rest ih =>
    obtain ⟨key, p⟩ := property
    obtain ⟨nested, l₁, d₁, l₂, d₂, below, l₃, d₃, moreFields, moreTrees, hn, hb, hr, rfl, rfl,
      -, rfl⟩ := declareProperties_cons h
    have hrest := ih (fun q hq => hw q (List.mem_cons_of_mem _ hq)) hr
    rw [(p.infer_isHonest nested).notes_eq]
    -- Without a declaration there are notes on the type only, and with one on the key only.
    rcases nestedName_yields hn with ⟨hl, rfl, -, rfl⟩ | ⟨k, name, hl, rfl, -, rfl⟩
    · obtain ⟨-, rfl, rfl⟩ := hb
      let field : Field := ⟨key, (p.infer none).type, !required.contains key,
        Text.notBlank p.description⟩
      have hplain : field.reference? = none := p.infer_none_reference
      rw [Site.inOrder_plain hplain, List.flatMap_cons, Site.notes_plain c hplain, hrest]
      simp [field]
    · obtain ⟨t, hpt, ht⟩ := Schema.wraps_of_layersToObject? hl
      obtain ⟨child, rfl, rfl, -, hchild⟩ := declareNested_yields hpt ht hb
      have hbelow : d₂ = child.sites.flatMap (Site.notes c) := by
        rw [sites_eq]
        exact hw (key, p) (List.mem_cons_self ..) k t hpt hchild
      have htype := Schema.infer_of_wraps hpt ht child.rootName
      let field : Field := ⟨key, (p.infer (some child.rootName)).type, !required.contains key,
        Text.notBlank p.description⟩
      have hnested : field.reference? = some child.rootName := by
        simp [field, Field.reference?, htype, TypeRef.reference?]
      rw [List.singleton_append, List.map_cons, Site.inOrder_nested hnested, List.flatMap_cons,
        List.flatMap_append, Site.notes_nested c htype, htype, TypeRef.notes_of_layered, hrest,
        hbelow]
      simp [field]

theorem declareProperties_noted (properties : List (String × Schema)) :
    PropertiesNoted c properties :=
  Schema.wraps_induction (fun _ => propertiesNoted_of_wraps) properties

theorem parameterFields_noted {owner : String} {parameters : List Parameter}
    {log : List Allocation} {ds : List Diagnostic} {fields : List Field} (position : Nat)
    (h : (parameterFields owner parameters).Yields c log ds fields) :
    ds = (Site.inOrder owner position fields []).flatMap (Site.notes c) := by
  induction parameters generalizing log ds fields position with
  | nil =>
    obtain ⟨-, rfl, rfl⟩ := h
    rfl
  | cons p ps ih =>
    obtain ⟨_, _, _, _, field, -, rfl, hp, hafter⟩ := Walk.yields_bind.mp h
    obtain ⟨_, _, _, _, more, -, rfl, hps, -, rfl, rfl⟩ := Walk.yields_bind.mp hafter
    obtain ⟨_, _, _, _, u, -, rfl, hi, -, rfl, rfl⟩ := Walk.yields_bind.mp hp
    have hplain : Field.reference?
        ((⟨p.name, p.infer.type, !p.required, none⟩ : Field).documented p.description) = none :=
      p.infer_reference
    rw [(noteInference_yields hi).2, p.infer_isHonest.notes_eq, Site.inOrder_plain hplain,
      List.flatMap_cons, Site.notes_plain c hplain, ← ih (position + 1) hps]
    simp [Field.documented]

end DeclarationTree

/-- What is reported of a payload as a whole. -/
def Payload.notes (root : String) : Payload → List Diagnostic
  | .body schema =>
    if schema.kind = .object then []
    else [⟨.warning, .schema,
      "root schema is " ++ schema.kind.name ++ ", not an object; declaration is empty", some root⟩]
  | .malformed reason => [⟨.warning, .schema,
      "body schema could not be parsed (" ++ reason ++ "); declaration is empty", some root⟩]
  | .query _ | .form _ | .none => []

namespace DeclarationTree

theorem ofSchema_noted {s : Schema} {candidate : String} {log : List Allocation}
    {ds : List Diagnostic} {tree : DeclarationTree}
    (h : (ofSchema s candidate).Yields c log ds tree) :
    ds = (Payload.body s).notes tree.rootName ++ tree.sites.flatMap (Site.notes c) := by
  rw [ofSchema] at h
  obtain ⟨_, _, _, _, name, -, rfl, ha, hs⟩ := Walk.yields_bind.mp h
  obtain ⟨-, rfl⟩ := Walk.yields_allocate.mp ha
  by_cases hk : s.kind = .object
  · simp only [hk] at hs
    obtain ⟨_, _, _, _, ⟨fields, children⟩, -, rfl, hf, -, rfl, rfl⟩ := Walk.yields_bind.mp hs
    have hfields := declareProperties_noted s.properties hf
    simp [Payload.notes, hk, sites_eq, Declaration.documented, rootName, hfields]
  · split at hs
    · next hobject => exact absurd hobject hk
    · obtain ⟨_, _, _, _, u, -, rfl, hr, -, rfl, rfl⟩ := Walk.yields_bind.mp hs
      obtain ⟨-, rfl⟩ := Walk.yields_report.mp hr
      simp [Payload.notes, hk, sites_eq, Declaration.documented, rootName, Site.inOrder]

theorem ofPayload_noted {payload : Payload} {candidate : String} {log : List Allocation}
    {ds : List Diagnostic} {tree : DeclarationTree}
    (h : (ofPayload payload candidate).Yields c log ds tree) :
    ds = payload.notes tree.rootName ++ tree.sites.flatMap (Site.notes c) := by
  have hparameters : ∀ parameters, (ofParameters parameters candidate).Yields c log ds tree →
      ds = tree.sites.flatMap (Site.notes c) := by
    intro parameters h
    obtain ⟨_, _, _, _, name, -, rfl, ha, hafter⟩ := Walk.yields_bind.mp h
    obtain ⟨_, _, _, _, fields, -, rfl, hf, -, rfl, rfl⟩ := Walk.yields_bind.mp hafter
    obtain ⟨-, rfl⟩ := Walk.yields_allocate.mp ha
    simp [sites_eq, rootName, parameterFields_noted 0 hf]
  cases payload with
  | none =>
    obtain ⟨_, _, _, _, name, -, rfl, ha, -, rfl, rfl⟩ := Walk.yields_bind.mp h
    obtain ⟨-, rfl⟩ := Walk.yields_allocate.mp ha
    rfl
  | malformed reason =>
    obtain ⟨_, _, _, _, name, -, rfl, ha, hafter⟩ := Walk.yields_bind.mp h
    obtain ⟨_, _, _, _, u, -, rfl, hr, -, rfl, rfl⟩ := Walk.yields_bind.mp hafter
    obtain ⟨-, rfl⟩ := Walk.yields_allocate.mp ha
    obtain ⟨-, rfl⟩ := Walk.yields_report.mp hr
    rfl
  | query parameters => exact hparameters parameters h
  | form parameters => exact hparameters parameters h
  | body schema => exact ofSchema_noted h

end DeclarationTree

/-! Every field is a site once -/

namespace Site

variable {owner : String} {fields : List Field} {below : List (List Site)}

/-- As many lists of sites are below as there are fields that refer to a declaration. -/
def Matches (fields : List Field) (below : List (List Site)) : Prop :=
  (fields.filterMap Field.reference?).length = below.length

theorem Matches.of_plain {f : Field} (h : Matches (f :: fields) below) (hf : f.reference? = none) :
    Matches fields below := by
  simpa [Matches, hf] using h

theorem Matches.of_nested {f : Field} {name : String} (h : Matches (f :: fields) below)
    (hf : f.reference? = some name) :
    ∃ nested rest, below = nested :: rest ∧ Matches fields rest := by
  cases below with
  | nil => simp [Matches, hf] at h
  | cons nested rest => exact ⟨nested, rest, rfl, by simpa [Matches, hf] using h⟩

theorem inOrder_perm (h : Matches fields below) (position : Nat) :
    (inOrder owner position fields below).Perm
      (Declaration.sitesFrom owner position fields ++ below.flatten) := by
  induction fields generalizing below position with
  | nil =>
    rw [List.eq_nil_of_length_eq_zero h.symm]
    exact .refl _
  | cons f fields ih =>
    cases hf : f.reference? with
    | none =>
      rw [inOrder_plain hf]
      exact (ih (h.of_plain hf) (position + 1)).cons _
    | some name =>
      obtain ⟨nested, rest, rfl, hrest⟩ := h.of_nested hf
      rw [inOrder_nested hf, Declaration.sitesFrom, List.flatten_cons, List.cons_append]
      apply List.Perm.cons
      calc
        (nested ++ inOrder owner (position + 1) fields rest).Perm
            (nested ++ (Declaration.sitesFrom owner (position + 1) fields ++ rest.flatten)) :=
          (ih hrest (position + 1)).append_left nested
        List.Perm _ (Declaration.sitesFrom owner (position + 1) fields ++
            (nested ++ rest.flatten)) := List.perm_append_comm_assoc ..

theorem sitesFrom_sublist (h : Matches fields below) (position : Nat) :
    (Declaration.sitesFrom owner position fields).Sublist
      (inOrder owner position fields below) := by
  induction fields generalizing below position with
  | nil => exact List.nil_sublist _
  | cons f fields ih =>
    cases hf : f.reference? with
    | none =>
      rw [inOrder_plain hf]
      exact (ih (h.of_plain hf) (position + 1)).cons_cons _
    | some name =>
      obtain ⟨nested, rest, rfl, hrest⟩ := h.of_nested hf
      rw [inOrder_nested hf]
      exact ((ih hrest (position + 1)).trans (List.sublist_append_right ..)).cons_cons _

theorem below_sublist (h : Matches fields below) (position : Nat) :
    ∀ sites ∈ below, sites.Sublist (inOrder owner position fields below) := by
  induction fields generalizing below position with
  | nil => simp [List.eq_nil_of_length_eq_zero h.symm]
  | cons f fields ih =>
    cases hf : f.reference? with
    | none =>
      rw [inOrder_plain hf]
      exact fun sites hs => (ih (h.of_plain hf) (position + 1) sites hs).cons _
    | some name =>
      obtain ⟨nested, rest, rfl, hrest⟩ := h.of_nested hf
      rw [inOrder_nested hf]
      intro sites hs
      rcases List.mem_cons.mp hs with rfl | hs
      · exact (List.sublist_append_left ..).cons _
      · exact ((ih hrest (position + 1) sites hs).trans (List.sublist_append_right ..)).cons _

end Site

namespace DeclarationTree

theorem Linked.matches {t : DeclarationTree} (h : t.Linked) :
    Site.Matches t.declaration.fields (t.children.map sites) := by
  rw [Site.Matches, h t (.self t), List.length_map, List.length_map]

/-- The sites of a linked tree are those of its declarations, each once. -/
theorem Linked.sites_perm {t : DeclarationTree} (h : t.Linked) :
    t.sites.Perm (t.declarations.flatMap Declaration.sites) := by
  induction t using DeclarationTree.induction with
  | node t ih =>
    have hbelow : (t.children.map sites).flatten.Perm
        ((t.children.flatMap declarations).flatMap Declaration.sites) := by
      rw [← List.flatMap_def, List.flatMap_assoc]
      exact List.Perm.flatMap_left _ fun child hc => ih child hc (h.child hc)
    rw [sites_eq, declarations_eq, List.flatMap_cons]
    exact (Site.inOrder_perm h.matches 0).trans (hbelow.append_left _)

/-- The sites of one declaration stand in the order of its fields. -/
theorem Linked.sites_sublist {t : DeclarationTree} (h : t.Linked) :
    ∀ d ∈ t.declarations, d.sites.Sublist t.sites := by
  induction t using DeclarationTree.induction with
  | node t ih =>
    intro d hd
    rw [sites_eq]
    rw [declarations_eq, List.mem_cons, List.mem_flatMap] at hd
    rcases hd with rfl | ⟨child, hc, hd⟩
    · exact Site.sitesFrom_sublist h.matches 0
    · exact (ih child hc (h.child hc) d hd).trans
        (Site.below_sublist h.matches 0 _ (List.mem_map_of_mem hc))

/-- The diagnostics of a walk that succeeds are those on its payload and then, site by site, those
on the fields of its tree. Every field is a site once, with the name of its declaration. -/
theorem diagnostics_ofPayload {payload : Payload} {candidate : String} {start final : WalkState}
    {tree : DeclarationTree} (h : (ofPayload payload candidate).run start = (.ok tree, final)) :
    final.diagnostics = start.diagnostics ++ (payload.notes tree.rootName ++
      tree.sites.flatMap (Site.notes start.registry.convention)) ∧
    tree.sites.Perm (tree.declarations.flatMap Declaration.sites) ∧
    ∀ d ∈ tree.declarations, d.sites.Sublist tree.sites := by
  obtain ⟨ds, hyields, hdiagnostics⟩ := Walk.yields_of_run h
  have hlinked := (ofPayload_linked hyields).1
  rw [hdiagnostics, ofPayload_noted hyields]
  exact ⟨rfl, hlinked.sites_perm, hlinked.sites_sublist⟩

/-- An object below a key without a word, with wide integers; and an array of nobody knows what. -/
def journal : Schema :=
  let id : Schema := { declaredType := some "integer", format := some "int64" }
  { properties :=
      [("用户", { properties := [("ids", { items := some id })] }),
       ("rows", { items := some {} }),
       ("name", { declaredType := some "string" })] }

/-- The name of the nested declaration is taken, so its field is reported under another. -/
theorem journal_diagnostics :
    let start : WalkState := ⟨⟨{}, TypeScript.convention, ["JournalResField1"]⟩, []⟩
    ∃ tree final, (ofPayload (.body journal) "JournalRes").run start = (.ok tree, final) ∧
      final.diagnostics =
        [⟨.warning, .naming, "key '用户' has no identifier characters; using 'Field1'",
            some "JournalRes.用户"⟩,
          ⟨.info, .resolve, "64-bit integer may lose precision in the target representation",
            some "JournalResField12.ids"⟩,
          ⟨.info, .resolve, "no type could be inferred", some "JournalRes.rows"⟩] ∧
      final.diagnostics = (Payload.body journal).notes tree.rootName ++
        tree.sites.flatMap (Site.notes TypeScript.convention) ∧
      tree.sites.Perm (tree.declarations.flatMap Declaration.sites) := by
  intro start
  obtain ⟨tree, final, hrun⟩ : ∃ tree final,
      (ofPayload (.body journal) "JournalRes").run start = (.ok tree, final) := ⟨_, _, rfl⟩
  obtain ⟨hdiagnostics, hperm, -⟩ := diagnostics_ofPayload hrun
  refine ⟨tree, final, hrun, ?_, by simpa [start] using hdiagnostics, hperm⟩
  have hfinal : final = ((ofPayload (.body journal) "JournalRes").run start).2 := by rw [hrun]
  rw [hfinal]
  decide +kernel

end DeclarationTree
end TypedApi
