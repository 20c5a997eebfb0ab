import TypedApi.Proofs.Arenas
import TypedApi.Proofs.References
import TypedApi.Proofs.Rendering
import TypedApi.TypeScript.Convention
import TypedApi.TypeScript.Interface

/-!
The order in which declarations are written. An arena is emitted by visits to its places, where a
declaration comes after what is nested in it; it comes out as the listing from its end, so every
reference in the written text points at an interface further up.
-/
namespace TypedApi

namespace DeclarationTree

/-! Order -/

/-- What a walk declares has names of its own, whatever was issued before. -/
theorem ofPayload_nodup {payload : Payload} {candidate : String} {start final : WalkState}
    {tree : DeclarationTree} (h : (ofPayload payload candidate).run start = (.ok tree, final)) :
    tree.names.Nodup := by
  obtain ⟨ds, hy, -⟩ := Walk.yields_of_run h
  have hlog := (ofPayload payload candidate).allocations_replay start.registry
  rw [(ofPayload_linked hy).2]
  exact hlog.fresh.1

theorem names_emissionOrder (t : DeclarationTree) :
    t.emissionOrder.map (·.name) = t.names.reverse := by
  rw [emissionOrder_eq, List.map_reverse, names]

theorem getLast?_emissionOrder (t : DeclarationTree) :
    t.emissionOrder.getLast? = some t.declaration := by
  rw [emissionOrder_eq_append, List.getLast?_concat]

theorem forestEmissionOrder_of_mem {ts : List DeclarationTree} {t : DeclarationTree}
    (h : t ∈ ts) : ∃ above below, forestEmissionOrder ts = above ++ t.emissionOrder ++ below := by
  induction ts with
  | nil => simp at h
  | cons u ts ih =>
    rw [forestEmissionOrder]
    rcases List.mem_cons.mp h with rfl | h
    · exact ⟨forestEmissionOrder ts, [], by simp⟩
    · obtain ⟨above, below, he⟩ := ih h
      exact ⟨above, below ++ u.emissionOrder, by simp [he]⟩

/-- A part of a tree is emitted in one piece. -/
theorem Contains.emissionOrder {t node : DeclarationTree} (h : t.Contains node) :
    ∃ above below, t.emissionOrder = above ++ node.emissionOrder ++ below := by
  induction h with
  | self t => exact ⟨[], [], by simp⟩
  | @nested t child node hc h ih =>
    obtain ⟨above, below, he⟩ := ih
    obtain ⟨before, after, hf⟩ := forestEmissionOrder_of_mem hc
    refine ⟨before ++ above, below ++ after ++ [t.declaration], ?_⟩
    rw [emissionOrder_eq_append, hf, he]
    simp

theorem exists_contains_of_mem {t : DeclarationTree} {d : Declaration}
    (h : d ∈ t.declarations) : ∃ node, t.Contains node ∧ node.declaration = d := by
  induction t using DeclarationTree.induction with
  | node t ih =>
    rw [declarations_eq] at h
    rcases List.mem_cons.mp h with rfl | h
    · exact ⟨t, .self t, rfl⟩
    · obtain ⟨child, hc, hd⟩ := List.mem_flatMap.mp h
      obtain ⟨node, hn, rfl⟩ := ih child hc hd
      exact ⟨node, .nested hc hn, rfl⟩

/-- What is nested in a declaration, directly or not, is emitted before it. -/
theorem Contains.nested_above {t node : DeclarationTree} (h : t.Contains node) :
    ∃ above below, t.emissionOrder = above ++ node.declaration :: below ∧
      ∀ d ∈ node.declarations.tail, d ∈ above := by
  obtain ⟨before, after, he⟩ := h.emissionOrder
  refine ⟨before ++ forestEmissionOrder node.children, after, ?_, ?_⟩
  · rw [he, emissionOrder_eq_append]
    simp
  · intro d hd
    rw [declarations_eq, List.tail_cons] at hd
    rw [List.mem_append, forestEmissionOrder_eq fun child _ => child.emissionOrder_eq,
      List.mem_reverse]
    exact Or.inr hd

/-- A list of distinct names has only one place for a name. -/
theorem above_unique {order above below above' below' : List Declaration} {d : Declaration}
    (hd : (order.map (·.name)).Nodup) (h : order = above ++ d :: below)
    (h' : order = above' ++ d :: below') : above = above' := by
  have hnodup := List.Nodup.of_map _ hd
  have hnot : d ∉ above ∧ d ∉ below := by
    have hmiddle := List.nodup_middle.mp (h ▸ hnodup)
    simpa using (List.nodup_cons.mp hmiddle).1
  exact ((List.append_cons_inj_of_notMem hnot.1 hnot.2).mp (h.symm.trans h')).1

/-- A reference leads upwards. -/
theorem Linked.reference_above {t : DeclarationTree} (hl : t.Linked) (hn : t.names.Nodup)
    {above below : List Declaration} {d : Declaration}
    (h : t.emissionOrder = above ++ d :: below) {f : Field} (hf : f ∈ d.fields) {name : String}
    (hname : f.reference? = some name) : ∃ e ∈ above, e.name = name := by
  have hmem : d ∈ t.emissionOrder := by simp [h]
  obtain ⟨node, hnode, rfl⟩ := exists_contains_of_mem (mem_emissionOrder.mp hmem)
  obtain ⟨above', below', h', hnested⟩ := hnode.nested_above
  have hd : (t.emissionOrder.map (·.name)).Nodup := by
    rw [names_emissionOrder]
    exact List.nodup_reverse.mpr hn
  obtain rfl := above_unique hd h h'
  have hm : name ∈ node.children.map rootName := by
    rw [← hl node hnode]
    exact List.mem_filterMap.mpr ⟨f, hf, hname⟩
  obtain ⟨child, hc, rfl⟩ := List.mem_map.mp hm
  refine ⟨child.declaration, hnested _ ?_, rfl⟩
  rw [declarations_eq, List.tail_cons]
  refine List.mem_flatMap.mpr ⟨child, hc, ?_⟩
  rw [declarations_eq]
  exact List.mem_cons_self ..

end DeclarationTree

namespace TypeScript

open Code (Builder renderAll)

/-! Text -/

/-- What a builder in this state writes for a declaration. -/
def interfaceText (b : Builder) (d : Declaration) : String :=
  renderAll b.indent b.level (declarationFragments d)

/-- The text has the head of an interface of that name. -/
def Exports (text name : String) : Prop :=
  ∃ before after, text = before ++ ("export interface " ++ name ++ " \x7b") ++ after

theorem Exports.append {s name : String} (h : Exports s name) (before after : String) :
    Exports (before ++ s ++ after) name := by
  obtain ⟨u, v, rfl⟩ := h
  exact ⟨before ++ u, v ++ after, by simp [String.append_assoc]⟩

theorem interfaceText_exports (b : Builder) (d : Declaration) :
    Exports (interfaceText b d) d.name := by
  let margin := b.indent.margin b.level
  rw [interfaceText, declarationFragments, Interface.fragments, Code.renderAll_append]
  split
  · refine ⟨renderAll b.indent b.level (docFragments d.doc) ++ margin, "\x7d" ++ "\n", ?_⟩
    simp only [margin, renderAll, Code.Fragment.render, Interface.ofDeclaration,
      String.append_assoc, String.append_empty]
  · refine ⟨renderAll b.indent b.level (docFragments d.doc) ++ margin, "\n" ++
      renderAll b.indent (b.level + 1) ((Interface.ofDeclaration d).members.flatMap (·.fragments))
        ++ (margin ++ "\x7d" ++ "\n"), ?_⟩
    simp only [margin, renderAll, Code.Fragment.render, Interface.ofDeclaration,
      String.append_assoc, String.append_empty]

theorem emitDeclarations_text (b : Builder) (ds : List Declaration) :
    (emitDeclarations b ds).text = b.text ++ "\n".intercalate (ds.map (interfaceText b)) := by
  rw [emitDeclarations, Builder.applyGroups_eq, List.map_map]
  rfl

theorem emitTree_text (b : Builder) (t : DeclarationTree) :
    (emitTree b t).text =
      b.text ++ "\n".intercalate (t.emissionOrder.map (interfaceText b)) :=
  emitDeclarations_text b t.emissionOrder

theorem intercalate_of_mem (separator : String) {s : String} {texts : List String}
    (h : s ∈ texts) :
    ∃ before after, separator.intercalate texts = before ++ s ++ after := by
  induction texts with
  | nil => simp at h
  | cons t texts ih =>
    by_cases hempty : texts = []
    · subst hempty
      exact ⟨"", "", by simp [List.mem_singleton.mp h]⟩
    · rw [String.intercalate_cons_of_ne_nil hempty]
      rcases List.mem_cons.mp h with rfl | h
      · exact ⟨"", separator ++ separator.intercalate texts, by simp [String.append_assoc]⟩
      · obtain ⟨before, after, he⟩ := ih h
        exact ⟨t ++ separator ++ before, after, by simp [he, String.append_assoc]⟩

theorem intercalate_cons (separator s : String) (texts : List String) :
    ∃ after, separator.intercalate (s :: texts) = s ++ after := by
  by_cases hempty : texts = []
  · exact ⟨"", by simp [hempty]⟩
  · exact ⟨separator ++ separator.intercalate texts, by
      rw [String.intercalate_cons_of_ne_nil hempty, String.append_assoc]⟩

/-- What is emitted above a declaration is written above it. -/
theorem emitTree_around {t : DeclarationTree} {above below : List Declaration}
    {d e : Declaration} (h : t.emissionOrder = above ++ d :: below) (he : e ∈ above)
    (b : Builder) : ∃ before after,
      (emitTree b t).text = b.text ++ before ++ interfaceText b d ++ after ∧
        Exports before e.name := by
  have habove : above.map (interfaceText b) ≠ [] := by
    simpa using List.ne_nil_of_mem he
  obtain ⟨after, hafter⟩ :=
    intercalate_cons "\n" (interfaceText b d) (below.map (interfaceText b))
  obtain ⟨u, v, hu⟩ := intercalate_of_mem "\n" (List.mem_map_of_mem (f := interfaceText b) he)
  refine ⟨"\n".intercalate (above.map (interfaceText b)) ++ "\n", after, ?_, ?_⟩
  · rw [emitTree_text, h, List.map_append, List.map_cons,
      String.intercalate_append_of_ne_nil habove (List.cons_ne_nil _ _), hafter]
    simp only [String.append_assoc]
  · have hexports := (interfaceText_exports b e).append u (v ++ "\n")
    rwa [hu, String.append_assoc]

theorem emitArena?_ofTree (b : Builder) (t : DeclarationTree) :
    emitArena? b (.ofTree t) = some (emitTree b t) := by
  rw [emitArena?, DeclarationArena.emissionOrder?_ofTree, Option.map_some, emitTree]

/-- What stands later in a list stands earlier in its reverse. -/
theorem reverse_above {ds : List Declaration} {p q : Nat} {d e : Declaration} (hd : ds[p]? = some d)
    (he : ds[q]? = some e) (hlt : p < q) :
    ∃ above below, ds.reverse = above ++ d :: below ∧ e ∈ above := by
  obtain ⟨hp, rfl⟩ := List.getElem?_eq_some_iff.mp hd
  refine ⟨(ds.drop (p + 1)).reverse, (ds.take p).reverse, ?_, ?_⟩
  · simp
  · rw [List.mem_reverse, List.mem_iff_getElem?]
    exact ⟨q - (p + 1), by rw [List.getElem?_drop, ← he]; congr 1; omega⟩

/-- The visits to an arena come to their end, and emit what is nested before what it is nested in,
and nothing twice. -/
structure EmittedInOrder (a : DeclarationArena) (order : List Declaration) : Prop where
  visited : a.emissionOrder? = some order
  reversed : order = a.declarations.reverse
  distinct : (order.map (·.name)).Nodup
  /-- What is nested in a declaration, directly or not, has the places that follow its own. -/
  contiguous : ∀ p < a.declarations.length, ∃ stop ≤ a.declarations.length,
    ∀ q, a.Nested p q ↔ p < q ∧ q < stop
  nested : ∀ p q d e, a.Nested p q → a.declarations[p]? = some d → a.declarations[q]? = some e →
    ∃ above below, order = above ++ d :: below ∧ e ∈ above
  root : a.root?.isSome = true ∧ order.getLast? = a.root?
  /-- What a field refers to is emitted above the field, and so it is in the text. -/
  upward : ∀ above d below, order = above ++ d :: below →
    ∀ f ∈ d.fields, ∀ name, f.reference? = some name →
      (∃ e ∈ above, e.name = name) ∧
      ∀ b : Builder, ∃ written before after, emitArena? b a = some written ∧
        written.text = b.text ++ before ++ interfaceText b d ++ after ∧ Exports before name

/-- Whatever the payload is, and whatever was issued before, what a walk pushes is emitted in
order. -/
theorem emittedInOrder_of_payload {payload : Payload} {candidate : String}
    {start final : WalkState} {arena : DeclarationArena}
    (h : (DeclarationArena.ofPayload payload candidate).run start = (.ok arena, final)) :
    ∃ order, EmittedInOrder arena order := by
  obtain ⟨tree, htree, rfl⟩ : ∃ tree,
      (DeclarationTree.ofPayload payload candidate).run start = (.ok tree, final) ∧
        arena = .ofTree tree := by
    rw [DeclarationArena.ofPayload_eq] at h
    exact Walk.run_map_eq_ok.mp h
  obtain ⟨ds, hy, -⟩ := Walk.yields_of_run htree
  have hlinked := (DeclarationTree.ofPayload_linked hy).1
  have hnodup := DeclarationTree.ofPayload_nodup htree
  have hplaces := DeclarationArena.declarations_ofTree tree
  refine ⟨tree.emissionOrder, {
    visited := DeclarationArena.emissionOrder?_ofTree tree
    reversed := by rw [hplaces, tree.emissionOrder_eq]
    distinct := by
      rw [tree.names_emissionOrder]
      exact List.nodup_reverse.mpr hnodup
    contiguous := by
      intro p hp
      rw [hplaces] at hp ⊢
      exact DeclarationArena.nested_ofTree tree hp
    nested := by
      intro p q d e hnested hd he
      rw [hplaces] at hd he
      rw [tree.emissionOrder_eq]
      obtain ⟨hp, -⟩ := List.getElem?_eq_some_iff.mp hd
      obtain ⟨stop, -, hstop⟩ := DeclarationArena.nested_ofTree tree hp
      exact reverse_above hd he ((hstop q).mp hnested).1
    root := by
      have hroot : (DeclarationArena.ofTree tree).root? = some tree.declaration := by
        rw [DeclarationArena.root?, hplaces, DeclarationTree.declarations_eq]
        rfl
      rw [hroot]
      exact ⟨rfl, tree.getLast?_emissionOrder⟩
    upward := by
      intro above d below hsplit f hf name hname
      obtain ⟨e, he, rfl⟩ := hlinked.reference_above hnodup hsplit hf hname
      refine ⟨⟨e, he, rfl⟩, fun b => ?_⟩
      obtain ⟨before, after, htext, hexports⟩ := emitTree_around hsplit he b
      exact ⟨_, before, after, emitArena?_ofTree b tree, htext, hexports⟩ }⟩

/-- Objects on two levels, one of them under an array. -/
def shipment : Schema :=
  let leaf : Schema := { properties := [("city", { declaredType := some "string" })] }
  let route : Schema := { properties := [("from", leaf), ("stops", { items := some leaf })] }
  { properties := [("route", route), ("payer", leaf)] }

theorem shipment_emittedInOrder :
    let start : WalkState := ⟨⟨{}, convention, []⟩, []⟩
    ∃ arena final order,
      (DeclarationArena.ofPayload (.body shipment) "Shipment").run start = (.ok arena, final) ∧
      arena.childPlaces = [[1, 4], [2, 3], [], [], []] ∧
      order.map (·.name) = ["ShipmentPayer", "ShipmentRouteStopsItem", "ShipmentRouteFrom",
        "ShipmentRoute", "Shipment"] ∧
      EmittedInOrder arena order := by
  intro start
  obtain ⟨arena, final, hrun, hplaces, hnames⟩ : ∃ arena final,
      (DeclarationArena.ofPayload (.body shipment) "Shipment").run start = (.ok arena, final) ∧
      arena.childPlaces = [[1, 4], [2, 3], [], [], []] ∧
      arena.declarations.reverse.map (·.name) = ["ShipmentPayer", "ShipmentRouteStopsItem",
        "ShipmentRouteFrom", "ShipmentRoute", "Shipment"] :=
    ⟨_, _, rfl, by decide +kernel, by decide +kernel⟩
  obtain ⟨order, horder⟩ := emittedInOrder_of_payload hrun
  exact ⟨arena, final, order, hrun, hplaces, horder.reversed ▸ hnames, horder⟩

end TypeScript
end TypedApi
