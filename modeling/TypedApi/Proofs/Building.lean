import TypedApi.Proofs.Comments

/-!
The comments of built code. Each step of a builder adds text in which a reader finds the comments
of that step, so a reader of all that was built finds the comments of its fragments in their order.
-/
namespace TypedApi.Code

def Indent.margin (i : Indent) (level : Nat) : String := String.join (List.replicate level i.text)

theorem Indent.margin_succ (i : Indent) (level : Nat) :
    i.margin (level + 1) = i.margin level ++ i.text := by
  simp [margin, List.replicate_succ']

theorem Indent.isMargin (i : Indent) (level : Nat) : IsMargin (i.margin level) := by
  have htext : IsMargin i.text := by
    unfold text
    split
    · decide
    · decide
    · decide
    · decide
  induction level with
  | zero => simp [margin, IsMargin]
  | succ level ih =>
    rw [margin, List.replicate_succ, String.join_cons, IsMargin, String.toList_append]
    exact List.forall_mem_append.mpr ⟨htext, ih⟩

mutual

/-- The comments of a fragment at this level. -/
def Fragment.comments (i : Indent) (level : Nat) : Fragment → List String
  | .line _ => []
  | .doc s => [docComment s]
  | .docLines lines => [docLinesComment (i.margin level) lines]
  | .block _ body _ => bodyComments i (level + 1) body

def bodyComments (i : Indent) (level : Nat) : List Fragment → List String
  | [] => []
  | f :: fs => f.comments i level ++ bodyComments i level fs

end

mutual

/-- The code of the fragment, its comments apart, has no comment and no open literal. -/
def Fragment.IsPlain (strict : Bool) : Fragment → Prop
  | .line s => Reads strict s []
  | .doc _ | .docLines _ => True
  | .block header body close =>
    Reads strict header [] ∧ AllPlain strict body ∧ ∀ s ∈ close, Reads strict s []

def AllPlain (strict : Bool) : List Fragment → Prop
  | [] => True
  | f :: fs => f.IsPlain strict ∧ AllPlain strict fs

end

theorem bodyComments_append (i : Indent) (level : Nat) (fs gs : List Fragment) :
    bodyComments i level (fs ++ gs) = bodyComments i level fs ++ bodyComments i level gs := by
  induction fs with
  | nil => rfl
  | cons f fs ih => rw [List.cons_append, bodyComments, bodyComments, ih, List.append_assoc]

theorem bodyComments_flatMap {α : Type} (i : Indent) (level : Nat) (g : α → List Fragment)
    (xs : List α) :
    bodyComments i level (xs.flatMap g) = xs.flatMap fun x => bodyComments i level (g x) := by
  induction xs with
  | nil => rfl
  | cons x xs ih => rw [List.flatMap_cons, bodyComments_append, ih, List.flatMap_cons]

/-- Lines of code have no comments. -/
theorem bodyComments_lines (i : Indent) (level : Nat) (lines : List String) :
    bodyComments i level (lines.map .line) = [] := by
  induction lines with
  | nil => rfl
  | cons s lines ih => rw [List.map_cons, bodyComments, Fragment.comments, ih, List.append_nil]

theorem allPlain_iff {strict : Bool} {fs : List Fragment} :
    AllPlain strict fs ↔ ∀ f ∈ fs, f.IsPlain strict := by
  induction fs with
  | nil => simp [AllPlain]
  | cons f fs ih => rw [AllPlain, ih, List.forall_mem_cons]

namespace Builder

/-- The second builder is the first one with more text, in which these comments are found. -/
structure Adds (strict : Bool) (b b' : Builder) (cs : List String) : Prop where
  indent : b'.indent = b.indent
  level : b'.level = b.level
  text : ∃ t, b'.text = b.text ++ t ∧ Reads strict t cs

variable {strict : Bool} {b b₁ b₂ : Builder} {cs ds : List String}

theorem adds_append {s : String} (b : Builder) (h : Reads strict s cs) :
    b.Adds strict (b.append s) cs :=
  ⟨rfl, rfl, s, rfl, h⟩

theorem Adds.refl (b : Builder) : b.Adds strict b [] := ⟨rfl, rfl, "", by simp, fun _ => rfl⟩

theorem Adds.trans (h₁ : b.Adds strict b₁ cs) (h₂ : b₁.Adds strict b₂ ds) :
    b.Adds strict b₂ (cs ++ ds) := by
  obtain ⟨t, ht, hcs⟩ := h₁.text
  obtain ⟨u, hu, hds⟩ := h₂.text
  refine ⟨h₂.indent.trans h₁.indent, h₂.level.trans h₁.level, t ++ u, ?_, hcs.append hds⟩
  rw [hu, ht, String.append_assoc]

theorem Adds.reads (h : ({} : Builder).Adds strict b cs) : Reads strict b.text cs := by
  obtain ⟨t, ht, hcs⟩ := h.text
  rw [String.empty_append] at ht
  rwa [ht]

/-- What is added one level deeper is added. -/
theorem Adds.shallower (h : b.deeper.Adds strict b₁ cs) : b.Adds strict b₁.shallower cs where
  indent := h.indent
  level := by
    have hl : b₁.level = b.level + 1 := h.level
    rw [Builder.shallower, hl, Nat.add_sub_cancel]
  text := h.text

theorem isMargin (b : Builder) : IsMargin b.margin := b.indent.isMargin b.level

theorem isQuiet_newline : IsQuiet "\n" := by decide

theorem adds_line {s : String} (b : Builder) (h : Reads strict s []) :
    b.Adds strict (b.line s) [] := by
  have hr : Reads strict (b.margin ++ s ++ "\n") [] :=
    (b.isMargin.isQuiet.reads.append h).append isQuiet_newline.reads
  exact b.adds_append hr

theorem adds_blank (b : Builder) : b.Adds strict b.blank [] :=
  b.adds_append isQuiet_newline.reads

theorem doc_text (b : Builder) (s : String) :
    b.doc s = b.append (commentChunk b.margin (docComment s)) := by
  have hs : b.margin ++ "/** " ++ Text.mapChars escapeDoc s ++ " */\n" =
      commentChunk b.margin (docComment s) := by
    apply String.toList_injective
    simp [commentChunk, docComment]
  rw [doc, hs]

theorem append_append (b : Builder) (s t : String) : (b.append s).append t = b.append (s ++ t) := by
  simp [append, String.append_assoc]

theorem foldl_docLine (b : Builder) (lines : List String) :
    lines.foldl (fun b s => b.line (docLine s)) b =
      b.append (String.join (lines.map fun s => b.margin ++ docLine s ++ "\n")) := by
  induction lines generalizing b with
  | nil => simp [append]
  | cons s lines ih =>
    rw [List.foldl_cons, ih, List.map_cons, String.join_cons, ← append_append]
    rfl

theorem docLines_text (b : Builder) (lines : List String) :
    b.docLines lines = b.append (commentChunk b.margin (docLinesComment b.margin lines)) := by
  have hs : b.margin ++ "/**" ++ "\n" ++
      String.join (lines.map fun s => b.margin ++ docLine s ++ "\n") ++
        (b.margin ++ " */" ++ "\n") =
      commentChunk b.margin (docLinesComment b.margin lines) := by
    apply String.toList_injective
    simp [commentChunk, docLinesComment]
  rw [docLines, foldl_docLine, ← hs, ← append_append, ← append_append b (b.margin ++ "/**" ++ "\n")]
  rfl

/-! What one comment appends -/

theorem doc_closes (b : Builder) (s : String) :
    ∃ chunk, (b.doc s).text = b.text ++ chunk ∧ ClosesAtEnd chunk.toList := by
  refine ⟨commentChunk b.margin (docComment s), by rw [b.doc_text, append], ?_⟩
  exact closesAtEnd_commentChunk b.isMargin (by simp [docComment]) (not_hasTerminator_docComment s)

theorem docLines_closes (b : Builder) (lines : List String) :
    ∃ chunk, (b.docLines lines).text = b.text ++ chunk ∧ ClosesAtEnd chunk.toList := by
  refine ⟨commentChunk b.margin (docLinesComment b.margin lines),
    by rw [b.docLines_text, append], ?_⟩
  exact closesAtEnd_commentChunk b.isMargin (by simp [docLinesComment])
    (not_hasTerminator_docLinesComment b.isMargin lines)

theorem apply_ofDoc_closes (b : Builder) (s : String) :
    ∃ chunk, (b.apply (.ofDoc s)).text = b.text ++ chunk ∧ ClosesAtEnd chunk.toList := by
  rw [Fragment.ofDoc]
  split
  · rw [apply]
    exact b.docLines_closes _
  · rw [apply]
    exact b.doc_closes s

/-! What a reader finds in what is appended -/

theorem adds_doc (b : Builder) (s : String) : b.Adds strict (b.doc s) [docComment s] := by
  rw [doc_text]
  exact b.adds_append (reads_commentChunk b.isMargin (not_hasTerminator_docComment s))

theorem adds_docLines (b : Builder) (lines : List String) :
    b.Adds strict (b.docLines lines) [docLinesComment b.margin lines] := by
  rw [docLines_text]
  exact b.adds_append
    (reads_commentChunk b.isMargin (not_hasTerminator_docLinesComment b.isMargin lines))

mutual

theorem adds_apply (b : Builder) (f : Fragment) (h : f.IsPlain strict) :
    b.Adds strict (b.apply f) (f.comments b.indent b.level) := by
  match f with
  | .line s =>
    rw [Fragment.IsPlain] at h
    rw [apply, Fragment.comments]
    exact b.adds_line h
  | .doc s =>
    rw [apply, Fragment.comments]
    exact b.adds_doc s
  | .docLines lines =>
    rw [apply, Fragment.comments]
    exact b.adds_docLines lines
  | .block header body close =>
    rw [Fragment.IsPlain] at h
    obtain ⟨hheader, hbody, hclose⟩ := h
    simp only [apply, Fragment.comments]
    have hbelow := (adds_applyAll (b.line header).deeper body hbody).shallower
    have hblock := (b.adds_line hheader).trans hbelow
    cases close with
    | none => exact hblock
    | some s =>
      have hend := hblock.trans (adds_line _ (hclose s rfl))
      rwa [List.append_nil] at hend

theorem adds_applyAll (b : Builder) (fs : List Fragment) (h : AllPlain strict fs) :
    b.Adds strict (b.applyAll fs) (bodyComments b.indent b.level fs) := by
  match fs with
  | [] =>
    rw [applyAll, bodyComments]
    exact .refl b
  | f :: fs =>
    rw [AllPlain] at h
    rw [applyAll, bodyComments]
    have hf := adds_apply b f h.1
    have hfs := adds_applyAll (b.apply f) fs h.2
    rw [hf.indent, hf.level] at hfs
    exact hf.trans hfs

end

theorem adds_applyGroups (b : Builder) (groups : List (List Fragment))
    (h : ∀ fs ∈ groups, AllPlain strict fs) :
    b.Adds strict (b.applyGroups groups) (groups.flatMap (bodyComments b.indent b.level)) := by
  fun_induction applyGroups b groups with
  | case1 b => exact .refl b
  | case2 b group =>
    have hg := b.adds_applyAll group (h group (List.mem_singleton_self _))
    rwa [List.flatMap_singleton]
  | case3 b group groups hne ih =>
    obtain ⟨hgroup, hgroups⟩ := List.forall_mem_cons.mp h
    have hg := (b.adds_applyAll group hgroup).trans (adds_blank _)
    have hgs := ih hgroups
    rw [hg.indent, hg.level] at hgs
    have hboth := hg.trans hgs
    rwa [List.append_nil] at hboth

end Builder
end TypedApi.Code
