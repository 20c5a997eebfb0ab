import Mathlib.Data.List.SplitBy
import TypedApi.Proofs.Rendering

/-!
Deeper levels. A fragment comes to the same lines at every level, each after the margin of that
level; so as long as its strings have no line feeds, one level more puts one unit of indentation
before each line of its text.
-/
namespace TypedApi.Code

/-- The text with another one put before each of its lines, which end with their line feeds. -/
def indentLines (unit text : String) : String :=
  Text.mapChars (fun cs => (cs.splitBy fun c _ => c != '\n').flatMap (unit.toList ++ ·)) text

/-- The text of these lines, each after a margin. -/
def marginText (margin : String) (lines : List String) : String :=
  String.join (lines.map fun s => margin ++ s ++ "\n")

def IsUnbroken (s : String) : Prop := '\n' ∉ s.toList

instance (s : String) : Decidable (IsUnbroken s) := inferInstanceAs (Decidable ('\n' ∉ s.toList))

/-! Lines of a text -/

theorem marginText_append (margin : String) (ls ms : List String) :
    marginText margin (ls ++ ms) = marginText margin ls ++ marginText margin ms := by
  rw [marginText, List.map_append, String.join_append]
  rfl

theorem marginText_cons (margin s : String) (lines : List String) :
    marginText margin (s :: lines) = margin ++ s ++ "\n" ++ marginText margin lines := by
  rw [marginText, List.map_cons, String.join_cons]
  rfl

theorem marginText_map (margin unit : String) (lines : List String) :
    marginText margin (lines.map (unit ++ ·)) = marginText (margin ++ unit) lines := by
  rw [marginText, List.map_map, marginText]
  congr 2
  funext s
  simp [String.append_assoc]

theorem IsUnbroken.append {s t : String} (hs : IsUnbroken s) (ht : IsUnbroken t) :
    IsUnbroken (s ++ t) := by
  rw [IsUnbroken, String.toList_append, List.mem_append, not_or]
  exact ⟨hs, ht⟩

theorem splitBy_line {line : List Char} (h : '\n' ∉ line) (rest : List Char) :
    (line ++ '\n' :: rest).splitBy (fun c _ => c != '\n') =
      (line ++ ['\n']) :: rest.splitBy fun c _ => c != '\n' := by
  have hchain : (line ++ ['\n']).IsChain fun c _ => (c != '\n') = true := by
    induction line with
    | nil => exact .singleton _
    | cons c line ih =>
      rw [List.mem_cons, not_or] at h
      rw [List.cons_append, List.isChain_cons]
      exact ⟨fun _ _ => by simpa using Ne.symm h.1, ih h.2⟩
  rw [List.append_cons, List.splitBy_append (by simp),
    List.splitBy_of_isChain (by simp) hchain, List.singleton_append]

theorem indentLines_join (unit : String) {lines : List String}
    (h : ∀ s ∈ lines, IsUnbroken s) :
    indentLines unit (String.join (lines.map (· ++ "\n"))) = marginText unit lines := by
  apply String.toList_injective
  induction lines with
  | nil => simp [indentLines, marginText]
  | cons s lines ih =>
    obtain ⟨hs, hlines⟩ := List.forall_mem_cons.mp h
    have hrest := ih hlines
    have hfirst : (String.join ((s :: lines).map (· ++ "\n"))).toList =
        s.toList ++ '\n' :: (String.join (lines.map (· ++ "\n"))).toList := by
      simp
    rw [indentLines, Text.toList_mapChars] at hrest ⊢
    rw [hfirst, splitBy_line hs, List.flatMap_cons, hrest, marginText_cons]
    simp

theorem indentLines_marginText {margin : String} (hmargin : IsUnbroken margin) (unit : String)
    {lines : List String} (h : ∀ s ∈ lines, IsUnbroken s) :
    indentLines unit (marginText margin lines) = marginText (unit ++ margin) lines := by
  have hlines : ∀ s ∈ lines.map (margin ++ ·), IsUnbroken s :=
    List.forall_mem_map.mpr fun s hs => hmargin.append (h s hs)
  have hjoin := indentLines_join unit hlines
  rw [List.map_map] at hjoin
  exact hjoin.trans (marginText_map unit margin lines)

/-! Lines of a fragment -/

mutual

/-- The lines of a fragment, without the margin of its level. -/
def Fragment.lines (unit : String) : Fragment → List String
  | .line s => [s]
  | .doc s => ["/** " ++ Text.mapChars escapeDoc s ++ " */"]
  | .docLines lines => "/**" :: lines.map Builder.docLine ++ [" */"]
  | .block header body close => header :: (bodyLines unit body).map (unit ++ ·) ++ close.toList

def bodyLines (unit : String) : List Fragment → List String
  | [] => []
  | f :: fs => f.lines unit ++ bodyLines unit fs

end

mutual

/-- All that is given to a fragment as text. -/
def Fragment.strings : Fragment → List String
  | .line s | .doc s => [s]
  | .docLines lines => lines
  | .block header body close => header :: bodyStrings body ++ close.toList

def bodyStrings : List Fragment → List String
  | [] => []
  | f :: fs => f.strings ++ bodyStrings fs

end

mutual

/-- At any level a fragment is its lines, each after the margin. -/
theorem Fragment.render_eq (i : Indent) (level : Nat) (f : Fragment) :
    f.render i level = marginText (i.margin level) (f.lines i.text) := by
  match f with
  | .line s => simp [Fragment.render, Fragment.lines, marginText]
  | .doc s =>
    apply String.toList_injective
    simp [Fragment.render, Fragment.lines, marginText, commentChunk, docComment]
  | .docLines ls =>
    rw [Fragment.render, Fragment.lines, List.cons_append, marginText_cons, marginText_append]
    apply String.toList_injective
    simp [commentChunk, docLinesComment, marginText, Function.comp_def]
  | .block header body close =>
    have hbody := renderAll_eq i (level + 1) body
    rw [i.margin_succ, ← marginText_map] at hbody
    simp only [Fragment.render, Fragment.lines, List.cons_append, marginText_cons,
      marginText_append, hbody]
    cases close with
    | none => simp [marginText, String.append_assoc]
    | some s => simp [marginText, String.append_assoc]

theorem renderAll_eq (i : Indent) (level : Nat) (fs : List Fragment) :
    renderAll i level fs = marginText (i.margin level) (bodyLines i.text fs) := by
  match fs with
  | [] => simp [renderAll, bodyLines, marginText]
  | f :: fs =>
    rw [renderAll, bodyLines, marginText_append, Fragment.render_eq i level f,
      renderAll_eq i level fs]

end

/-! Line feeds -/

theorem mem_splitTerminators {c : Char} {s : List Char} (h : c ∈ splitTerminators s) :
    c ∈ s ∨ c = '\\' := by
  fun_induction splitTerminators s with
  | case1 rest ih =>
    simp only [List.mem_cons] at h ⊢
    tauto
  | case2 d rest hne ih =>
    rcases List.mem_cons.mp h with rfl | h
    · exact .inl (List.mem_cons_self ..)
    · exact (ih h).imp_left (List.mem_cons_of_mem d)
  | case3 => exact .inl h

theorem isUnbroken_escapeDoc {s : String} (h : IsUnbroken s) :
    IsUnbroken (Text.mapChars escapeDoc s) := by
  rw [IsUnbroken, Text.toList_mapChars, escapeDoc]
  intro hmem
  have htrimmed := (mem_splitTerminators hmem).resolve_right (by decide)
  rw [Text.trimEnd, List.mem_reverse] at htrimmed
  exact h (List.mem_reverse.mp ((List.dropWhile_sublist _).subset htrimmed))

theorem isUnbroken_docLine {s : String} (h : IsUnbroken s) : IsUnbroken (Builder.docLine s) := by
  rw [Builder.docLine]
  split
  · decide
  · have hstar : IsUnbroken " * " := by decide
    exact hstar.append (isUnbroken_escapeDoc h)

theorem Indent.isUnbroken_text (i : Indent) : IsUnbroken i.text := by
  unfold text
  split
  · decide
  · decide
  · decide
  · decide

theorem Indent.isUnbroken_margin (i : Indent) (level : Nat) : IsUnbroken (i.margin level) := by
  induction level with
  | zero => exact List.not_mem_nil
  | succ level ih =>
    rw [margin_succ]
    exact ih.append i.isUnbroken_text

mutual

theorem Fragment.isUnbroken_lines (i : Indent) (f : Fragment)
    (h : ∀ s ∈ f.strings, IsUnbroken s) : ∀ s ∈ f.lines i.text, IsUnbroken s := by
  match f with
  | .line s => exact h
  | .doc s =>
    have hopen : IsUnbroken "/** " := by decide
    rw [Fragment.lines, List.forall_mem_singleton]
    rw [Fragment.strings, List.forall_mem_singleton] at h
    exact (hopen.append (isUnbroken_escapeDoc h)).append (by decide)
  | .docLines ls =>
    rw [Fragment.lines, List.forall_mem_append, List.forall_mem_cons, List.forall_mem_map,
      List.forall_mem_singleton]
    exact ⟨⟨by decide, fun s hs => isUnbroken_docLine (h s hs)⟩, by decide⟩
  | .block header body close =>
    rw [Fragment.strings, List.forall_mem_append, List.forall_mem_cons] at h
    obtain ⟨⟨hheader, hbody⟩, hclose⟩ := h
    rw [Fragment.lines, List.forall_mem_append, List.forall_mem_cons, List.forall_mem_map]
    exact ⟨⟨hheader, fun s hs => i.isUnbroken_text.append (isUnbroken_bodyLines i body hbody s hs)⟩,
      hclose⟩

theorem isUnbroken_bodyLines (i : Indent) (fs : List Fragment)
    (h : ∀ s ∈ bodyStrings fs, IsUnbroken s) : ∀ s ∈ bodyLines i.text fs, IsUnbroken s := by
  match fs with
  | [] => exact h
  | f :: fs =>
    rw [bodyStrings, List.forall_mem_append] at h
    rw [bodyLines, List.forall_mem_append]
    exact ⟨Fragment.isUnbroken_lines i f h.1, isUnbroken_bodyLines i fs h.2⟩

end

/-! One level more -/

theorem Fragment.render_succ (i : Indent) (level : Nat) {f : Fragment}
    (h : ∀ s ∈ f.strings, IsUnbroken s) :
    f.render i (level + 1) = indentLines i.text (f.render i level) := by
  have hmargin : i.margin (level + 1) = i.text ++ i.margin level := by
    rw [Indent.margin, List.replicate_succ, String.join_cons, Indent.margin]
  rw [f.render_eq, f.render_eq, hmargin,
    indentLines_marginText (i.isUnbroken_margin level) i.text (f.isUnbroken_lines i h)]

/-- Only the unit of an indentation counts. -/
theorem Fragment.render_congr {i j : Indent} (h : i.text = j.text) (level : Nat) (f : Fragment) :
    f.render i level = f.render j level := by
  rw [f.render_eq, f.render_eq, Indent.margin, Indent.margin, h]

namespace Builder

/-- A fragment leaves a builder at its level and appends a text that only the unit of indentation,
the level and the fragment decide. Where no string of the fragment has a line feed, this text is
the one of the level above with one unit before each of its lines. -/
theorem apply_indents (f : Fragment) :
    (∀ b : Builder, b.apply f = { b with text := b.text ++ f.render b.indent b.level }) ∧
    (∀ i j : Indent, i.text = j.text → ∀ level, f.render i level = f.render j level) ∧
    ((∀ s ∈ f.strings, '\n' ∉ s.toList) → ∀ (i : Indent) (level : Nat),
      f.render i (level + 1) = indentLines i.text (f.render i level)) :=
  ⟨fun b => b.apply_eq f, fun _ _ h level => f.render_congr h level,
    fun h i level => f.render_succ i level h⟩

/-- A comment over two lines in a block in a block. -/
def parcelFragment : Fragment :=
  .block "export interface Parcel \x7b"
    [.ofDoc "Sent  ",
      .block "lines: \x7b" [.ofDoc "What is sent\n*/", .line "sku: string;"] (some "\x7d[];")]
    (some "\x7d")

theorem parcelFragment_indents :
    (∀ s ∈ parcelFragment.strings, '\n' ∉ s.toList) ∧
    ({ indent := .tab } : Builder).apply parcelFragment =
      { indent := .tab
        text := "export interface Parcel \x7b\n\t/** Sent */\n\tlines: \x7b\n" ++
          "\t\t/**\n\t\t * What is sent\n\t\t * *\\/\n\t\t */\n\t\tsku: string;\n\t\x7d[];\n\x7d\n" } ∧
    ∀ (i : Indent) (level : Nat), parcelFragment.render i (level + 1) =
      indentLines i.text (parcelFragment.render i level) := by
  have hunbroken : ∀ s ∈ parcelFragment.strings, '\n' ∉ s.toList := by decide
  obtain ⟨happly, -, hdeeper⟩ := apply_indents parcelFragment
  refine ⟨hunbroken, ?_, hdeeper hunbroken⟩
  rw [happly]
  rfl

end Builder
end TypedApi.Code
