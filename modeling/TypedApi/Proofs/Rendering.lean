import TypedApi.Proofs.Building

/-!
Fragments as texts. A builder is left as it was but for its text, to which a fragment adds what the
indentation and the fragment say and nothing else.
-/
namespace TypedApi.Code

mutual

/-- The text of a fragment at this level. -/
def Fragment.render (i : Indent) (level : Nat) : Fragment → String
  | .line s => i.margin level ++ s ++ "\n"
  | .doc s => commentChunk (i.margin level) (docComment s)
  | .docLines lines => commentChunk (i.margin level) (docLinesComment (i.margin level) lines)
  | .block header body close =>
    i.margin level ++ header ++ "\n" ++ renderAll i (level + 1) body ++
      match close with
      | some s => i.margin level ++ s ++ "\n"
      | none => ""

def renderAll (i : Indent) (level : Nat) : List Fragment → String
  | [] => ""
  | f :: fs => f.render i level ++ renderAll i level fs

end

theorem renderAll_append (i : Indent) (level : Nat) (fs gs : List Fragment) :
    renderAll i level (fs ++ gs) = renderAll i level fs ++ renderAll i level gs := by
  induction fs with
  | nil => simp [renderAll]
  | cons f fs ih => rw [List.cons_append, renderAll, renderAll, ih, String.append_assoc]

theorem renderAll_flatMap {α : Type} (i : Indent) (level : Nat) (g : α → List Fragment)
    (xs : List α) :
    renderAll i level (xs.flatMap g) = String.join (xs.map fun x => renderAll i level (g x)) := by
  induction xs with
  | nil => simp [renderAll]
  | cons x xs ih => rw [List.flatMap_cons, renderAll_append, ih, List.map_cons, String.join_cons]

namespace Builder

theorem line_eq (b : Builder) (s : String) :
    b.line s = b.append (b.indent.margin b.level ++ s ++ "\n") := rfl

theorem append_empty (b : Builder) : b.append "" = b := by
  simp [append]

mutual

theorem apply_eq (b : Builder) (f : Fragment) :
    b.apply f = b.append (f.render b.indent b.level) := by
  match f with
  | .line s => rw [apply, Fragment.render, line_eq]
  | .doc s =>
    rw [apply, Fragment.render, doc_text]
    rfl
  | .docLines lines =>
    rw [apply, Fragment.render, docLines_text]
    rfl
  | .block header body close =>
    have hbody := applyAll_eq (b.line header).deeper body
    simp only [apply, Fragment.render, hbody]
    cases close with
    | none => simp [line_eq, append, deeper, shallower, String.append_assoc]
    | some s => simp [line_eq, append, deeper, shallower, String.append_assoc]

theorem applyAll_eq (b : Builder) (fs : List Fragment) :
    b.applyAll fs = b.append (renderAll b.indent b.level fs) := by
  match fs with
  | [] => rw [applyAll, renderAll, append_empty]
  | f :: fs =>
    rw [applyAll, renderAll, apply_eq b f, applyAll_eq _ fs, append_append]
    rfl

end

theorem applyGroups_eq (b : Builder) (groups : List (List Fragment)) :
    b.applyGroups groups =
      b.append ("\n".intercalate (groups.map (renderAll b.indent b.level))) := by
  fun_induction applyGroups b groups with
  | case1 b => rw [List.map_nil, String.intercalate_nil, append_empty]
  | case2 b group => rw [applyAll_eq, List.map_singleton, String.intercalate_singleton]
  | case3 b group groups hne ih =>
    have hrest : groups.map (renderAll b.indent b.level) ≠ [] := by simpa using hne
    rw [ih, applyAll_eq, List.map_cons, String.intercalate_cons_of_ne_nil hrest, blank,
      append_append, append_append, String.append_assoc]
    rfl

end Builder
end TypedApi.Code
