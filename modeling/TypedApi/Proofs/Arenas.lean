import Mathlib.Logic.Relation
import TypedApi.DeclarationArena.OfPayload
import TypedApi.Proofs.Nesting
import TypedApi.Proofs.Trees
import TypedApi.Proofs.Walk

/-!
Arenas and the trees they stand for. While an object is being filled, all that is found in it is
pushed behind what there is, so that a part of a tree comes to stand in one piece; the object keeps
its place before it, and waits for its fields. Hence a walk leaves the listing of a tree, in which
places are numbers in discovery order.
-/
namespace TypedApi

namespace DeclarationTree

/-- The nodes of a tree that is listed from `start` on. -/
def nodesFrom (start : Nat) (t : DeclarationTree) : List ArenaNode :=
  List.zipWith ArenaNode.mk t.declarations (t.childPlacesFrom start)

def forestNodesFrom (start : Nat) (ts : List DeclarationTree) : List ArenaNode :=
  List.zipWith ArenaNode.mk (forestDeclarations ts) (forestChildPlaces start ts)

theorem nodesFrom_eq (start : Nat) (d : Declaration) (children : List DeclarationTree) :
    nodesFrom start ⟨d, children⟩ =
      ⟨d, placesFrom (start + 1) children⟩ :: forestNodesFrom (start + 1) children := rfl

theorem forestNodesFrom_nil (start : Nat) : forestNodesFrom start [] = [] := rfl

theorem forestNodesFrom_cons (start : Nat) (t : DeclarationTree) (ts : List DeclarationTree) :
    forestNodesFrom start (t :: ts) =
      t.nodesFrom start ++ forestNodesFrom (start + t.declarations.length) ts :=
  List.zipWith_append (length_childPlacesFrom start t).symm

theorem forestNodesFrom_append (start : Nat) (ts us : List DeclarationTree) :
    forestNodesFrom start (ts ++ us) =
      forestNodesFrom start ts ++ forestNodesFrom (start + (forestDeclarations ts).length) us := by
  rw [forestNodesFrom, forestDeclarations_append, forestChildPlaces_append,
    List.zipWith_append (length_forestChildPlaces start ts).symm]
  rfl

@[simp] theorem length_nodesFrom (start : Nat) (t : DeclarationTree) :
    (t.nodesFrom start).length = t.declarations.length := by
  rw [nodesFrom, List.length_zipWith, length_childPlacesFrom, Nat.min_self]

@[simp] theorem length_forestNodesFrom (start : Nat) (ts : List DeclarationTree) :
    (forestNodesFrom start ts).length = (forestDeclarations ts).length := by
  rw [forestNodesFrom, List.length_zipWith, length_forestChildPlaces, Nat.min_self]

end DeclarationTree

open DeclarationTree (placesFrom nodesFrom forestNodesFrom forestDeclarations declareProperties
  declareNested)

namespace DeclarationArena

/-- The listing of a tree. -/
def ofTree (t : DeclarationTree) : DeclarationArena := ⟨t.nodesFrom 0⟩

theorem declarations_ofTree (t : DeclarationTree) : (ofTree t).declarations = t.declarations := by
  have hlength := Nat.le_of_eq (t.length_childPlacesFrom 0).symm
  rw [declarations, ofTree, nodesFrom, ← List.map_uncurry_zip_eq_zipWith, List.map_map]
  exact List.map_fst_zip hlength

theorem childPlaces_ofTree (t : DeclarationTree) : (ofTree t).childPlaces = t.childPlaces := by
  have hlength := Nat.le_of_eq (t.length_childPlacesFrom 0)
  rw [childPlaces, ofTree, nodesFrom, ← List.map_uncurry_zip_eq_zipWith, List.map_map]
  exact List.map_snd_zip hlength

/-! Pushing -/

theorem modify_append {l : List ArenaNode} {place : Nat} (h : place < l.length)
    (f : ArenaNode → ArenaNode) (m : List ArenaNode) :
    (l ++ m).modify place f = l.modify place f ++ m := by
  obtain ⟨before, n, after, rfl, rfl, hmodify⟩ := List.exists_of_modify f h
  rw [hmodify, List.append_assoc, List.cons_append, List.modify_eq_take_cons_drop (by simp)]
  simp

theorem modify_length (l : List ArenaNode) (n : ArenaNode) (f : ArenaNode → ArenaNode)
    (m : List ArenaNode) : (l ++ n :: m).modify l.length f = l ++ f n :: m := by
  rw [List.modify_eq_take_cons_drop (by simp)]
  simp

/-- The arena with these trees at its end, which are nested in the declaration at the place. -/
def graft (a : DeclarationArena) (place : Nat) (ts : List DeclarationTree) : DeclarationArena :=
  ⟨a.nodes.modify place (·.addChildren (placesFrom a.nodes.length ts)) ++
    forestNodesFrom a.nodes.length ts⟩

variable {a : DeclarationArena} {place : Nat}

theorem graft_nil (a : DeclarationArena) (place : Nat) : a.graft place [] = a := by
  have hsame : (fun n : ArenaNode => n.addChildren []) = id :=
    funext fun n => by simp [ArenaNode.addChildren]
  rw [graft, placesFrom, hsame, List.modify_id]
  simp [DeclarationTree.forestNodesFrom_nil]

theorem length_graft (a : DeclarationArena) (place : Nat) (ts : List DeclarationTree) :
    (a.graft place ts).nodes.length = a.nodes.length + (forestDeclarations ts).length := by
  simp [graft]

theorem graft_graft (h : place < a.nodes.length) (ts us : List DeclarationTree) :
    (a.graft place ts).graft place us = a.graft place (ts ++ us) := by
  have hadd : (fun n : ArenaNode =>
      n.addChildren (placesFrom a.nodes.length (ts ++ us))) =
        (·.addChildren (placesFrom (a.nodes.length + (forestDeclarations ts).length) us)) ∘
          (·.addChildren (placesFrom a.nodes.length ts)) := by
    funext n
    simp [ArenaNode.addChildren, DeclarationTree.placesFrom_append]
  rw [graft, length_graft]
  simp only [graft]
  rw [hadd, ← List.modify_modify_eq, modify_append (by simpa using h),
    DeclarationTree.forestNodesFrom_append, List.append_assoc]

theorem length_push (a : DeclarationArena) (parent : Nat) (d : Declaration) :
    (a.push parent d).1.nodes.length = a.nodes.length + 1 := by
  simp [push]

/-- To push a declaration, to nest trees in it and to set its fields at last is to nest one tree in
its parent. -/
theorem setFields_graft_push {parent : Nat} (h : parent < a.nodes.length) (d : Declaration)
    (fields : List Field) (children : List DeclarationTree) :
    ((a.push parent d).1.graft (a.push parent d).2 children).setFields (a.push parent d).2 fields =
      a.graft parent [⟨{ d with fields }, children⟩] := by
  have hpush : (a.push parent d).1.nodes =
      a.nodes.modify parent (·.addChildren [a.nodes.length]) ++ [⟨d, []⟩] := by
    rw [push, modify_append h]
  have hplace : (a.push parent d).2 =
      (a.nodes.modify parent (·.addChildren [a.nodes.length])).length := by
    rw [List.length_modify]
    rfl
  have hnodes : (a.push parent d).1.nodes.length = a.nodes.length + 1 := length_push a parent d
  rw [setFields, graft, hnodes, hpush, hplace, modify_length, List.append_assoc,
    List.singleton_append, modify_length, graft, DeclarationTree.forestNodesFrom_cons,
    DeclarationTree.nodesFrom_eq]
  simp [ArenaNode.addChildren, ArenaNode.setFields, placesFrom,
    DeclarationTree.forestNodesFrom_nil]

/-! Walks -/

/-- Filling in the schema nests the trees that it declares. -/
def Grafts (s : Schema) : Prop :=
  ∀ (name : String) (a : DeclarationArena) (parent : Nat), parent < a.nodes.length →
    fillNested parent name s a =
      declareNested name s >>= fun trees => pure (a.graft parent trees)

/-- What is filled in at a place is what the properties declare, nested there. -/
theorem fillProperties_eq {ps : List (String × Schema)} (hps : ∀ p ∈ ps, Grafts p.2)
    (h : place < a.nodes.length) (owner : String) (required : List String) (i : Nat) :
    fillProperties place owner required i ps a =
      declareProperties owner required i ps >>= fun found =>
        pure (found.1, a.graft place found.2) := by
  induction ps generalizing i a with
  | nil => rw [fillProperties, declareProperties, Walk.pure_bind, graft_nil]
  | cons p ps ih =>
    obtain ⟨key, property⟩ := p
    obtain ⟨hproperty, hrest⟩ := List.forall_mem_cons.mp hps
    have hnext : ∀ trees, place < (a.graft place trees).nodes.length := by
      intro trees
      rw [length_graft]
      omega
    rw [fillProperties, declareProperties]
    simp only [Walk.bind_assoc, Walk.pure_bind]
    refine congrArg _ (funext fun nested => congrArg _ (funext fun _ => ?_))
    cases nested with
    | none => simp only [Walk.pure_bind, ih hrest h, Walk.bind_assoc, List.nil_append]
    | some name =>
      simp only [hproperty name a place h, Walk.bind_assoc, Walk.pure_bind, ih hrest (hnext _),
        graft_graft h]

theorem fillNested_unfold (parent : Nat) (name : String) (s : Schema) (a : DeclarationArena) :
    fillNested parent name s a = match s.kind with
      | .object => do
        let (arena, place) := a.push parent (({ name } : Declaration).documented s.description)
        let (fields, arena) ← fillProperties place name s.required 0 s.properties arena
        return arena.setFields place fields
      | .array =>
        match s.items with
        | some e => fillNested parent name e a
        | none => return a
      | _ => return a := by
  obtain ⟨_, _, _, _, _ | _, _, _⟩ := s
  · rw [fillNested]
    rfl
  · rw [fillNested]
    rfl

theorem grafts (s : Schema) : Grafts s := by
  induction s using Schema.induction with
  | node s hproperties hitems =>
    intro name a parent h
    rw [fillNested_unfold, DeclarationTree.declareNested_eq]
    cases s.kind with
    | object =>
      have hplace : (a.push parent (({ name } : Declaration).documented s.description)).2 <
          (a.push parent (({ name } : Declaration).documented s.description)).1.nodes.length := by
        rw [length_push]
        exact Nat.lt_succ_self _
      simp only [fillProperties_eq hproperties hplace, Walk.bind_assoc, Walk.pure_bind,
        setFields_graft_push h]
      rfl
    | array =>
      cases hi : s.items with
      | some e => exact hitems e hi name a parent h
      | none => simp only [Walk.pure_bind, graft_nil]
    | _ => simp only [Walk.pure_bind, graft_nil]

theorem ofTree_leaf (d : Declaration) : ofTree ⟨d, []⟩ = withRoot d := rfl

theorem setFields_graft_withRoot (d : Declaration) (fields : List Field)
    (children : List DeclarationTree) :
    ((withRoot d).graft rootPlace children).setFields rootPlace fields =
      ofTree ⟨{ d with fields }, children⟩ := rfl

theorem ofSchema_eq (schema : Schema) (candidate : String) :
    ofSchema schema candidate =
      DeclarationTree.ofSchema schema candidate >>= fun tree => pure (ofTree tree) := by
  rw [ofSchema, DeclarationTree.ofSchema]
  simp only [Walk.bind_assoc]
  refine congrArg _ (funext fun name => ?_)
  cases schema.kind with
  | object =>
    have hroot : rootPlace <
        (withRoot (({ name } : Declaration).documented schema.description)).nodes.length :=
      Nat.zero_lt_one
    simp only [fillProperties_eq (fun p _ => grafts p.2) hroot, Walk.bind_assoc, Walk.pure_bind,
      setFields_graft_withRoot]
    rfl
  | _ => simp only [Walk.bind_assoc, Walk.pure_bind, ofTree_leaf]

/-- Pushing declarations one by one leaves the listing of the tree that they make up. -/
theorem ofPayload_eq (payload : Payload) (candidate : String) :
    ofPayload payload candidate = ofTree <$> DeclarationTree.ofPayload payload candidate := by
  change _ = DeclarationTree.ofPayload payload candidate >>= fun tree => pure (ofTree tree)
  cases payload with
  | body schema => exact ofSchema_eq schema candidate
  | query parameters | form parameters =>
    simp only [ofPayload, DeclarationTree.ofPayload, ofParameters, DeclarationTree.ofParameters,
      Walk.bind_assoc, Walk.pure_bind, ofTree_leaf]
  | malformed reason =>
    simp only [ofPayload, DeclarationTree.ofPayload, Walk.bind_assoc, Walk.pure_bind, ofTree_leaf]
  | none =>
    simp only [ofPayload, DeclarationTree.ofPayload, Walk.bind_assoc, Walk.pure_bind, ofTree_leaf]

/-! Parts -/

/-- The tree is listed from this place on. -/
def Lists (a : DeclarationArena) (start : Nat) (t : DeclarationTree) : Prop :=
  ∃ before after, a.nodes = before ++ t.nodesFrom start ++ after ∧ before.length = start

def ListsAll (a : DeclarationArena) (start : Nat) (ts : List DeclarationTree) : Prop :=
  ∃ before after, a.nodes = before ++ forestNodesFrom start ts ++ after ∧ before.length = start

variable {start : Nat} {t : DeclarationTree} {ts : List DeclarationTree}

theorem lists_ofTree (t : DeclarationTree) : (ofTree t).Lists 0 t :=
  ⟨[], [], by simp [ofTree], rfl⟩

theorem Lists.node {d : Declaration} (h : a.Lists start ⟨d, ts⟩) :
    a.nodes[start]? = some ⟨d, placesFrom (start + 1) ts⟩ ∧ a.ListsAll (start + 1) ts := by
  obtain ⟨before, after, hnodes, rfl⟩ := h
  rw [DeclarationTree.nodesFrom_eq] at hnodes
  refine ⟨by simp [hnodes], before ++ [⟨d, placesFrom (before.length + 1) ts⟩], after, ?_, ?_⟩
  · simp [hnodes]
  · simp

theorem ListsAll.cons (h : a.ListsAll start (t :: ts)) :
    a.Lists start t ∧ a.ListsAll (start + t.declarations.length) ts := by
  obtain ⟨before, after, hnodes, rfl⟩ := h
  rw [DeclarationTree.forestNodesFrom_cons] at hnodes
  refine ⟨⟨before, forestNodesFrom (before.length + t.declarations.length) ts ++ after, ?_, rfl⟩,
    before ++ t.nodesFrom before.length, after, ?_, ?_⟩
  · simp [hnodes]
  · simp [hnodes]
  · simp

theorem Lists.length_le (h : a.Lists start t) : start + t.declarations.length ≤ a.nodes.length := by
  obtain ⟨before, after, hnodes, rfl⟩ := h
  simp [hnodes]

mutual

/-- A visit to where a tree is listed emits the tree. -/
theorem Lists.visit {start : Nat} {t : DeclarationTree} (h : a.Lists start t)
    (out : List Declaration) : a.visit start out = some (out ++ t.emissionOrder) := by
  match t with
  | ⟨d, ts⟩ =>
    obtain ⟨hnode, hall⟩ := h.node
    rw [DeclarationArena.visit, hnode]
    simp only [Option.bind_eq_bind, Option.bind_some, hall.visit out, Option.pure_def,
      DeclarationTree.emissionOrder, List.append_assoc]

theorem ListsAll.visit {start : Nat} {ts : List DeclarationTree} (h : a.ListsAll start ts)
    (out : List Declaration) :
    (placesFrom start ts).reverse.foldlM (fun out child => a.visit child out) out =
      some (out ++ DeclarationTree.forestEmissionOrder ts) := by
  match ts with
  | [] => simp [placesFrom, DeclarationTree.forestEmissionOrder]
  | t :: ts =>
    obtain ⟨hfirst, hrest⟩ := h.cons
    rw [placesFrom, List.reverse_cons, List.foldlM_append, hrest.visit out]
    simp [hfirst.visit, DeclarationTree.forestEmissionOrder]

end

/-- Emission of the listing of a tree comes to its end, with what the tree says. -/
theorem emissionOrder?_ofTree (t : DeclarationTree) :
    (ofTree t).emissionOrder? = some t.emissionOrder :=
  (lists_ofTree t).visit []

/-! Places -/

/-- The declaration at the second place is nested directly in that at the first. -/
def Child (a : DeclarationArena) (p q : Nat) : Prop :=
  ∃ node, a.nodes[p]? = some node ∧ q ∈ node.children

/-- Nested directly or not. -/
def Nested (a : DeclarationArena) : Nat → Nat → Prop := Relation.TransGen a.Child

theorem child_iff {p q : Nat} {node : ArenaNode} (h : a.nodes[p]? = some node) :
    a.Child p q ↔ q ∈ node.children := by
  simp [Child, h]

mutual

/-- What is nested in the root of a part is the rest of the part. -/
theorem Lists.nested_iff {start : Nat} {t : DeclarationTree} (h : a.Lists start t) (q : Nat) :
    a.Nested start q ↔ start < q ∧ q < start + t.declarations.length := by
  match t with
  | ⟨d, ts⟩ =>
    obtain ⟨hnode, hall⟩ := h.node
    have hlength : (DeclarationTree.declarations ⟨d, ts⟩).length =
        (forestDeclarations ts).length + 1 := by
      rw [DeclarationTree.declarations, List.length_cons]
    rw [Nested, Relation.TransGen.head'_iff]
    simp only [child_iff hnode]
    refine (hall.nested_iff q).trans ?_
    rw [hlength]
    omega

theorem ListsAll.nested_iff {start : Nat} {ts : List DeclarationTree} (h : a.ListsAll start ts)
    (q : Nat) : (∃ c, c ∈ placesFrom start ts ∧ Relation.ReflTransGen a.Child c q) ↔
      start ≤ q ∧ q < start + (forestDeclarations ts).length := by
  match ts with
  | [] =>
    simp [placesFrom, forestDeclarations]
  | t :: ts =>
    obtain ⟨hfirst, hrest⟩ := h.cons
    have hroot : 0 < t.declarations.length := by
      cases t
      simp [DeclarationTree.declarations]
    have hself : Relation.ReflTransGen a.Child start q ↔
        start ≤ q ∧ q < start + t.declarations.length := by
      rw [Relation.reflTransGen_iff_eq_or_transGen]
      have hbelow := hfirst.nested_iff q
      rw [Nested] at hbelow
      rw [hbelow]
      omega
    have hlength : (forestDeclarations (t :: ts)).length =
        t.declarations.length + (forestDeclarations ts).length := by
      rw [forestDeclarations, List.length_append]
    simp only [placesFrom, List.mem_cons, exists_eq_or_imp, hself, hrest.nested_iff q, hlength]
    omega

end

mutual

/-- At every place of a part there is a part. -/
theorem Lists.part {start : Nat} {t : DeclarationTree} (h : a.Lists start t) {p : Nat}
    (hp : start ≤ p ∧ p < start + t.declarations.length) :
    ∃ u, a.Lists p u := by
  match t with
  | ⟨d, ts⟩ =>
    obtain ⟨-, hall⟩ := h.node
    rw [DeclarationTree.declarations, List.length_cons] at hp
    rcases Nat.eq_or_lt_of_le hp.1 with rfl | hlt
    · exact ⟨_, h⟩
    · exact hall.part (by omega)

theorem ListsAll.part {start : Nat} {ts : List DeclarationTree} (h : a.ListsAll start ts) {p : Nat}
    (hp : start ≤ p ∧ p < start + (forestDeclarations ts).length) :
    ∃ u, a.Lists p u := by
  match ts with
  | [] =>
    rw [forestDeclarations, List.length_nil] at hp
    omega
  | t :: ts =>
    obtain ⟨hfirst, hrest⟩ := h.cons
    rw [forestDeclarations, List.length_append] at hp
    by_cases hlt : p < start + t.declarations.length
    · exact hfirst.part ⟨hp.1, hlt⟩
    · exact hrest.part (by omega)

end

/-- What is nested in a declaration follows it in one piece. -/
theorem nested_ofTree (t : DeclarationTree) {p : Nat} (hp : p < t.declarations.length) :
    ∃ stop ≤ t.declarations.length,
      ∀ q, (ofTree t).Nested p q ↔ p < q ∧ q < stop := by
  obtain ⟨u, hu⟩ := (lists_ofTree t).part ⟨Nat.zero_le p, by omega⟩
  refine ⟨p + u.declarations.length, ?_, hu.nested_iff⟩
  have hlength := hu.length_le
  simpa [ofTree] using hlength

end DeclarationArena
end TypedApi
