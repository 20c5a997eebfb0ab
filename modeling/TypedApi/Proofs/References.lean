import Mathlib.Data.List.Nodup
import Mathlib.Data.List.Perm.Basic
import TypedApi.Proofs.Mirror

/-!
Names and references over a session: any walks, one after the other, on one registry. Names are
only ever added, no two declarations share one, and a reference leads to the one declaration of
its tree that was made for it.
-/
namespace TypedApi

namespace DeclarationTree

@[elab_as_elim]
theorem induction {P : DeclarationTree → Prop}
    (node : ∀ t : DeclarationTree, (∀ child ∈ t.children, P child) → P t)
    (t : DeclarationTree) : P t :=
  DeclarationTree.rec (motive_1 := P) (motive_2 := fun ts => ∀ child ∈ ts, P child)
    (fun _ _ h => node _ h)
    (by simp)
    (fun _ _ hhead htail child hc => by
      rcases List.mem_cons.mp hc with rfl | hc
      · exact hhead
      · exact htail child hc)
    t

/-- The second tree is the first or stands somewhere below it. -/
inductive Contains : DeclarationTree → DeclarationTree → Prop
  | self (t : DeclarationTree) : Contains t t
  | nested {t child node : DeclarationTree} (hc : child ∈ t.children) (h : Contains child node) :
    Contains t node

theorem forestDeclarations_eq (ts : List DeclarationTree) :
    forestDeclarations ts = ts.flatMap declarations := by
  induction ts with
  | nil => rfl
  | cons t ts ih => rw [forestDeclarations, ih, List.flatMap_cons]

theorem declarations_eq (t : DeclarationTree) :
    t.declarations = t.declaration :: t.children.flatMap declarations := by
  cases t
  rw [declarations, forestDeclarations_eq]

theorem emissionOrder_eq_append (t : DeclarationTree) :
    t.emissionOrder = forestEmissionOrder t.children ++ [t.declaration] := by
  cases t
  rw [emissionOrder]

/-- A forest is emitted from its last tree to its first, and each tree from its end. -/
theorem forestEmissionOrder_eq {ts : List DeclarationTree}
    (h : ∀ t ∈ ts, t.emissionOrder = t.declarations.reverse) :
    forestEmissionOrder ts = (ts.flatMap declarations).reverse := by
  induction ts with
  | nil => rfl
  | cons t ts ih =>
    obtain ⟨ht, hts⟩ := List.forall_mem_cons.mp h
    rw [forestEmissionOrder, ih hts, ht, List.flatMap_cons, List.reverse_append]

theorem emissionOrder_eq (t : DeclarationTree) : t.emissionOrder = t.declarations.reverse := by
  induction t using DeclarationTree.induction with
  | node t ih =>
    rw [emissionOrder_eq_append, forestEmissionOrder_eq ih, declarations_eq, List.reverse_cons]

theorem mem_emissionOrder {t : DeclarationTree} {d : Declaration} :
    d ∈ t.emissionOrder ↔ d ∈ t.declarations := by
  rw [emissionOrder_eq, List.mem_reverse]

theorem names_eq (t : DeclarationTree) :
    t.names = t.rootName :: t.children.flatMap names := by
  rw [names, declarations_eq, List.map_cons, List.map_flatMap]
  rfl

theorem rootName_mem_names (t : DeclarationTree) : t.rootName ∈ t.names := by
  rw [names_eq]
  exact List.mem_cons_self ..

theorem Contains.names_subset {t node : DeclarationTree} (h : t.Contains node) :
    node.names ⊆ t.names := by
  induction h with
  | self t => exact fun _ hn => hn
  | nested hc h ih =>
    intro name hn
    rw [names_eq]
    exact List.mem_cons_of_mem _ (List.mem_flatMap.mpr ⟨_, hc, ih hn⟩)

/-- All fields of a tree, in the order of its declarations. -/
def fields (t : DeclarationTree) : List Field := t.declarations.flatMap (·.fields)

/-- The references of a declaration are, field by field, those to the trees nested in it. -/
def Linked (t : DeclarationTree) : Prop :=
  ∀ node, t.Contains node →
    node.declaration.fields.filterMap Field.reference? = node.children.map rootName

theorem Linked.child {t child : DeclarationTree} (h : t.Linked) (hc : child ∈ t.children) :
    child.Linked := fun node hn => h node (.nested hc hn)

theorem linked_of_children {t : DeclarationTree}
    (ht : t.declaration.fields.filterMap Field.reference? = t.children.map rootName)
    (hc : ∀ child ∈ t.children, child.Linked) : t.Linked := by
  intro node hn
  cases hn with
  | self => exact ht
  | nested hchild h => exact hc _ hchild node h

/-- A linked tree refers once to each of its declarations, the root apart. -/
theorem Linked.names_perm {t : DeclarationTree} (h : t.Linked) :
    t.names.Perm (t.rootName :: t.fields.filterMap Field.reference?) := by
  induction t using DeclarationTree.induction with
  | node t ih =>
    let references (t : DeclarationTree) := t.fields.filterMap Field.reference?
    have hroot : t.declaration.fields.filterMap Field.reference? = t.children.map rootName :=
      h t (.self t)
    have hall : references t = t.children.map rootName ++ t.children.flatMap references := by
      simp only [references, fields, declarations_eq t, List.flatMap_cons, hroot,
        List.flatMap_assoc, List.filterMap_flatMap]
    have hperm : (t.children.flatMap names).Perm
        (t.children.flatMap fun child => [child.rootName] ++ references child) :=
      List.Perm.flatMap_left _ fun child hc => ih child hc (h.child hc)
    rw [names_eq]
    apply List.Perm.cons
    calc
      (t.children.flatMap names).Perm
          (t.children.flatMap fun child => [child.rootName] ++ references child) := hperm
      List.Perm _ ((t.children.flatMap fun child => [child.rootName]) ++
          t.children.flatMap references) := (List.flatMap_append_perm ..).symm
      _ = references t := by rw [hall, List.map_eq_flatMap]

theorem Linked.reference_mem_names {t : DeclarationTree} (h : t.Linked) {f : Field}
    (hf : f ∈ t.fields) {name : String} (hname : f.reference? = some name) : name ∈ t.names :=
  h.names_perm.mem_iff.mpr
    (List.mem_cons_of_mem _ (List.mem_filterMap.mpr ⟨f, hf, hname⟩))

/-- References and declarations fit: no reference is open or leads to two declarations, and no
declaration but the root is without a reference or has two. -/
structure Resolved (t : DeclarationTree) : Prop where
  reference : ∀ node, t.Contains node → ∀ f ∈ node.declaration.fields, ∀ name,
    f.reference? = some name →
      (∃ child ∈ node.children, child.rootName = name) ∧ t.names.count name = 1
  referenced : ∀ d ∈ t.declarations.tail,
    t.fields.countP (fun f => f.reference? == some d.name) = 1

theorem Linked.resolved {t : DeclarationTree} (h : t.Linked) (hd : t.names.Nodup) :
    t.Resolved where
  reference node hnode f hf name hname := by
    have hm : name ∈ node.children.map rootName := by
      rw [← h node hnode]
      exact List.mem_filterMap.mpr ⟨f, hf, hname⟩
    obtain ⟨child, hc, rfl⟩ := List.mem_map.mp hm
    refine ⟨⟨child, hc, rfl⟩, List.count_eq_one_of_mem hd ?_⟩
    apply hnode.names_subset
    rw [names_eq]
    exact List.mem_cons_of_mem _ (List.mem_flatMap.mpr ⟨child, hc, child.rootName_mem_names⟩)
  referenced d hdecl := by
    have hperm := h.names_perm
    have hnodup := hperm.nodup_iff.mp hd
    rw [names_eq] at hperm
    have hm : d.name ∈ t.fields.filterMap Field.reference? := by
      rw [← (List.perm_cons _).mp hperm |>.mem_iff]
      rw [declarations_eq, List.tail_cons] at hdecl
      obtain ⟨child, hc, hdc⟩ := List.mem_flatMap.mp hdecl
      exact List.mem_flatMap.mpr ⟨child, hc, List.mem_map.mpr ⟨d, hdc, rfl⟩⟩
    have hone := List.count_eq_one_of_mem (List.nodup_cons.mp hnodup).2 hm
    rw [List.count_filterMap] at hone
    exact hone

variable {c : Convention}

/-- The trees of a mirrored object are linked, and their names are those of the allocations. -/
theorem MirrorsProperties.linked {owner : String} {required : List String} {i : Nat}
    {properties : List (String × Schema)} {fields : List Field} {trees : List DeclarationTree}
    {log : List Allocation}
    (h : MirrorsProperties c owner required i properties fields trees log) :
    fields.filterMap Field.reference? = trees.map rootName ∧
      (∀ tree ∈ trees, tree.Linked) ∧ trees.flatMap names = log.map (·.name) := by
  induction h with
  | nil => exact ⟨rfl, by simp, rfl⟩
  | plain _ ht _ ih =>
    obtain ⟨hr, hl, hn⟩ := ih
    refine ⟨?_, hl, hn⟩
    simp only [List.filterMap_cons, Field.reference?, ht, hr]
  | @nested owner key required i k p t child rest fields trees below log _ _ _ _ _ ihc ih =>
    obtain ⟨hcr, hcl, hcn⟩ := ihc
    obtain ⟨hr, hl, hn⟩ := ih
    refine ⟨?_, ?_, ?_⟩
    · simp only [List.filterMap_cons, Field.reference?, TypeRef.reference?_layered,
        TypeRef.reference?, hr, List.map_cons]
    · intro tree htree
      rcases List.mem_cons.mp htree with rfl | htree
      · exact linked_of_children hcr hcl
      · exact hl tree htree
    · simp only [List.flatMap_cons, names_eq child, hcn, hn, List.map_cons, List.map_append,
        List.cons_append]

/-- Whatever the payload is, its tree is linked, and a walk issues its names in discovery order
and no others. -/
theorem ofPayload_linked {payload : Payload} {candidate : String} {log : List Allocation}
    {ds : List Diagnostic} {tree : DeclarationTree}
    (h : (ofPayload payload candidate).Yields c log ds tree) :
    tree.Linked ∧ tree.names = log.map (·.name) := by
  rcases ofPayload_yields h with ⟨s, hm⟩ | ⟨rfl, hc, hf⟩
  · obtain ⟨below, rfl, hp⟩ := hm.properties
    obtain ⟨hr, hl, hn⟩ := hp.linked
    exact ⟨linked_of_children hr hl, by rw [names_eq, hn, List.map_cons]⟩
  · refine ⟨linked_of_children (by rw [hf, hc, List.map_nil]) (by simp [hc]), ?_⟩
    rw [names_eq, hc]
    rfl

end DeclarationTree

/-! Sessions -/

/-- One walk of a session, with the diagnostics it starts from. -/
structure Call where
  payload : Payload
  candidate : String
  diagnostics : List Diagnostic := []

def Call.walk (call : Call) : Walk DeclarationTree :=
  DeclarationTree.ofPayload call.payload call.candidate

def Call.run (call : Call) (r : Registry) : Except NamingError DeclarationTree × WalkState :=
  call.walk.run ⟨r, call.diagnostics⟩

/-- A registry with the trees of the walks that succeeded on it. -/
structure Session where
  registry : Registry
  trees : List DeclarationTree := []

namespace Session

/-- A walk that fails leaves no tree but may have issued names. -/
def next (s : Session) (call : Call) : Session where
  registry := (call.run s.registry).2.registry
  trees := s.trees ++ (call.run s.registry).1.toOption.toList

def run (s : Session) (calls : List Call) : Session := calls.foldl next s

structure Consistent (s : Session) : Prop where
  issued : s.registry.issued.Nodup
  names : (s.trees.flatMap DeclarationTree.names).Sublist s.registry.issued
  resolved : ∀ t ∈ s.trees, t.Resolved

/-- A walk only appends names, and a walk that succeeds just those of its tree. -/
theorem next_issued (s : Session) (call : Call) :
    ∃ names, (s.next call).registry.issued = s.registry.issued ++ names ∧
      ∀ tree, (call.run s.registry).1 = .ok tree → tree.Linked ∧ names = tree.names := by
  refine ⟨(call.walk.allocations s.registry).map (·.name), ?_, ?_⟩
  · rw [next, Call.run, Walk.run_registry, Registry.after_issued]
  · intro tree ht
    obtain ⟨ds, hy, -⟩ := Walk.yields_of_run (Prod.ext ht rfl)
    obtain ⟨hl, hn⟩ := DeclarationTree.ofPayload_linked hy
    exact ⟨hl, hn.symm⟩

theorem Consistent.next {s : Session} (h : s.Consistent) (call : Call) :
    (s.next call).Consistent := by
  have hissued : (s.next call).registry.issued.Nodup := by
    rw [Session.next, Call.run, Walk.run_registry]
    exact (call.walk.allocations_replay s.registry).nodup h.issued
  obtain ⟨names, hi, ht⟩ := s.next_issued call
  cases hr : (call.run s.registry).1 with
  | error e =>
    have htrees : (s.next call).trees = s.trees := by
      simp [Session.next, hr, Except.toOption]
    refine ⟨hissued, ?_, htrees ▸ h.resolved⟩
    rw [htrees, hi]
    exact h.names.trans (List.sublist_append_left ..)
  | ok tree =>
    have htrees : (s.next call).trees = s.trees ++ [tree] := by
      simp [Session.next, hr, Except.toOption]
    obtain ⟨hl, rfl⟩ := ht tree hr
    refine ⟨hissued, ?_, ?_⟩
    · rw [htrees, hi, List.flatMap_append, List.flatMap_singleton]
      exact h.names.append (List.Sublist.refl _)
    · intro t hmem
      rw [htrees] at hmem
      rcases List.mem_append.mp hmem with hmem | hmem
      · exact h.resolved t hmem
      · rw [List.mem_singleton.mp hmem]
        rw [hi] at hissued
        exact hl.resolved (List.nodup_append.mp hissued).2.1

theorem Consistent.run {s : Session} (h : s.Consistent) (calls : List Call) :
    (s.run calls).Consistent := by
  induction calls generalizing s with
  | nil => exact h
  | cons call calls ih => exact ih (h.next call)

/-- Whatever is walked on a registry, in whatever order, and whether or not single walks fail: its
names stay distinct, are never lost and keep their order, a walk that succeeds adds those of its
tree, and all trees together are consistent. -/
theorem names_of_session {r : Registry} (hr : r.issued.Nodup) (calls : List Call) :
    let s := ({ registry := r } : Session).run calls
    s.registry.issued.Nodup ∧
    (∀ call, ∃ names, (s.next call).registry.issued = s.registry.issued ++ names ∧
      ∀ tree, (call.run s.registry).1 = .ok tree → names = tree.names) ∧
    (s.trees.flatMap DeclarationTree.names).Nodup ∧
    ∀ tree ∈ s.trees, tree.Resolved := by
  intro s
  have start : ({ registry := r } : Session).Consistent := ⟨hr, List.nil_sublist _, by simp⟩
  have hs : s.Consistent := start.run calls
  refine ⟨hs.issued, ?_, hs.names.nodup hs.issued, hs.resolved⟩
  intro call
  obtain ⟨names, hi, ht⟩ := s.next_issued call
  exact ⟨names, hi, fun tree h => (ht tree h).2⟩

/-- The first walk is refused halfway and the second at once; what they issued stays. -/
theorem rejecting_session :
    let r : Registry := ⟨{ collisions := .reject }, TypeScript.convention, []⟩
    let calls : List Call := [⟨.body DeclarationTree.basket, "BasketRes", []⟩,
      ⟨.query [], "BasketResListItem", []⟩, ⟨.none, "BasketReq", []⟩]
    let s := ({ registry := r } : Session).run calls
    r.issued.Nodup ∧
    s.registry.issued = ["BasketRes", "BasketResListItem", "BasketReq"] ∧
    s.trees.map DeclarationTree.names = [["BasketReq"]] ∧
    (∀ call, ∃ names, (s.next call).registry.issued = s.registry.issued ++ names ∧
      ∀ tree, (call.run s.registry).1 = .ok tree → names = tree.names) ∧
    ∀ tree ∈ s.trees, tree.Resolved := by
  intro r calls s
  have hr : r.issued.Nodup := List.nodup_nil
  obtain ⟨-, hcalls, -, hresolved⟩ := names_of_session hr calls
  exact ⟨hr, by decide +kernel, by decide +kernel, hcalls, hresolved⟩

end Session
end TypedApi
