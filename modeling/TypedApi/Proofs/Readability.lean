import TypedApi.Proofs.Emission
import TypedApi.Proofs.Literal
import TypedApi.Proofs.Words

/-!
Declarations can be read back from their text. Every piece of the text of a declaration tells where
it ends, whatever follows it, and tells what it was written for; so the texts of two lists are equal
only if the lists are, but for documentation and for what is written alike.
-/
namespace TypedApi

/-! Outlines -/

/-- Wide integers are written as numbers. -/
def TypeRef.plain : TypeRef → TypeRef
  | scalar .wideInteger => scalar .number
  | array element => array element.plain
  | t => t

/-- A field without its documentation. -/
def Field.outline (f : Field) : Field where
  name := f.name
  type := f.type.plain
  optional := f.optional

def Declaration.outline (d : Declaration) : Declaration where
  name := d.name
  fields := d.fields.map Field.outline

/-- An identifier that is no word for a type. -/
structure IsReference (name : String) : Prop where
  isIdentifier : Text.isIdentifier name.toList = true
  notWord : name ∉ ["string", "number", "boolean", "unknown"]

instance (name : String) : Decidable (IsReference name) :=
  decidable_of_iff (Text.isIdentifier name.toList = true ∧
    name ∉ ["string", "number", "boolean", "unknown"])
    ⟨fun h => ⟨h.1, h.2⟩, fun h => ⟨h.isIdentifier, h.notWord⟩⟩

/-- What a type refers to can be told from the words for types. -/
def TypeRef.IsReadable (t : TypeRef) : Prop := ∀ name, t.reference? = some name → IsReference name

instance (t : TypeRef) : Decidable t.IsReadable :=
  inferInstanceAs (Decidable (∀ name ∈ t.reference?, IsReference name))

/-- The name of the declaration is an identifier, and what its fields refer to can be told from the
words for types. -/
structure Declaration.IsReadable (d : Declaration) : Prop where
  name : Text.isIdentifier d.name.toList = true
  fields : ∀ f ∈ d.fields, f.type.IsReadable

instance (d : Declaration) : Decidable d.IsReadable :=
  decidable_of_iff (Text.isIdentifier d.name.toList = true ∧ ∀ f ∈ d.fields, f.type.IsReadable)
    ⟨fun h => ⟨h.1, h.2⟩, fun h => ⟨h.name, h.fields⟩⟩

namespace TypeScript

open Code (Indent renderAll commentChunk HasTerminator)

/-! Types -/

theorem arrayText_injective {s t : String} (h : arrayText s = arrayText t) : s = t := by
  have hbar : ∀ {s t : String}, '|' ∉ t.toList → "(" ++ s ++ ")[]" = t ++ "[]" →
      '|' ∉ s.toList := by
    intro s t ht he hs
    have hmem : '|' ∈ (t ++ "[]").toList := by simp [← he, hs]
    simp [ht] at hmem
  have hclose : ∀ {s t u : String}, s ++ u = t ++ u → s = t := fun h => by simpa using h
  simp only [arrayText, List.contains_iff_mem] at h
  split at h
  · next hs =>
    split at h
    · exact (String.append_right_inj "(").mp (hclose h)
    · next ht => exact absurd hs (hbar ht h)
  · next hs =>
    split at h
    · next ht => exact absurd ht (hbar hs h.symm)
    · exact hclose h

theorem arrayText_last (s : String) : (arrayText s).toList.getLast? = some ']' := by
  obtain ⟨body, hbody⟩ : ∃ body, (arrayText s).toList = body ++ [']'] := by
    rw [arrayText]
    split
    · exact ⟨'(' :: s.toList ++ [')', '['], by simp⟩
    · exact ⟨s.toList ++ ['['], by simp⟩
  rw [hbody, List.getLast?_concat]

/-- The types that are written with words of their own. -/
def wordTypes : List TypeRef :=
  [.scalar .string, .scalar .number, .scalar .wideInteger, .scalar .boolean,
    .scalar .stringOrNumber, .openMap, .unknown]

theorem mem_wordTypes {t : TypeRef} (hn : ∀ name, t ≠ .named name) (ha : ∀ e, t ≠ .array e) :
    t ∈ wordTypes := by
  cases t with
  | scalar s => cases s <;> decide
  | named name => exact absurd rfl (hn name)
  | array e => exact absurd rfl (ha e)
  | openMap | unknown => decide

theorem plain_of_words : ∀ t ∈ wordTypes, ∀ u ∈ wordTypes, typeText t = typeText u →
    t.plain = u.plain := by
  decide

theorem not_isReference_of_word : ∀ t ∈ wordTypes, ¬ IsReference (typeText t) := by decide

/-- What is not an array does not end in a bracket. -/
theorem typeText_last {t : TypeRef} (ht : t.IsReadable) (ha : ∀ e, t ≠ .array e) :
    (typeText t).toList.getLast? ≠ some ']' := by
  have hwords : ∀ t ∈ wordTypes, (typeText t).toList.getLast? ≠ some ']' := by decide
  by_cases hn : ∃ name, t = .named name
  · obtain ⟨name, rfl⟩ := hn
    intro hlast
    have hc := Text.isIdentChar_of_isIdentifier (ht name rfl).isIdentifier ']'
      (List.mem_of_getLast? hlast)
    exact absurd hc (by decide)
  · exact hwords t (mem_wordTypes (not_exists.mp hn) ha)

/-- The text of a type tells whether it is an array. -/
theorem isArray_of_typeText {t e : TypeRef} (ht : t.IsReadable)
    (h : typeText t = typeText (.array e)) : ∃ e', t = .array e' := by
  by_contra hne
  have hlast := typeText_last ht (not_exists.mp hne)
  rw [h, typeText, arrayText_last] at hlast
  exact hlast rfl

theorem plain_of_leaves {t u : TypeRef} (ht : t.IsReadable) (hu : u.IsReadable)
    (hta : ∀ e, t ≠ .array e) (hua : ∀ e, u ≠ .array e) (h : typeText t = typeText u) :
    t.plain = u.plain := by
  by_cases htn : ∃ name, t = .named name
  · obtain ⟨name, rfl⟩ := htn
    by_cases hun : ∃ name, u = .named name
    · obtain ⟨other, rfl⟩ := hun
      rw [typeText, typeText] at h
      rw [h]
    · have hword := not_isReference_of_word u (mem_wordTypes (not_exists.mp hun) hua)
      exact absurd (ht name rfl) (by rwa [← h] at hword)
  · have hword := mem_wordTypes (not_exists.mp htn) hta
    by_cases hun : ∃ name, u = .named name
    · obtain ⟨name, rfl⟩ := hun
      have hnot := not_isReference_of_word t hword
      exact absurd (hu name rfl) (by rwa [h] at hnot)
    · exact plain_of_words t hword u (mem_wordTypes (not_exists.mp hun) hua) h

/-- Only wide integers and numbers are written alike, under whatever array layers. -/
theorem typeText_injective {t u : TypeRef} (ht : t.IsReadable) (hu : u.IsReadable)
    (h : typeText t = typeText u) : t.plain = u.plain := by
  induction t generalizing u with
  | array e ih =>
    obtain ⟨e', rfl⟩ := isArray_of_typeText hu h.symm
    exact congrArg TypeRef.array (ih ht hu (arrayText_injective h))
  | scalar _ | named _ | openMap | unknown =>
    refine plain_of_leaves ht hu (by simp) (fun e he => ?_) h
    obtain ⟨e', hne⟩ := isArray_of_typeText ht (h.trans (by rw [he]))
    cases hne

theorem semicolon_not_mem_typeText {t : TypeRef} (ht : t.IsReadable) :
    ';' ∉ (typeText t).toList := by
  have hwords : ∀ t ∈ wordTypes, ';' ∉ (typeText t).toList := by decide
  induction t with
  | array e ih =>
    have he : ';' ∉ (typeText e).toList := ih ht
    rw [typeText, arrayText]
    split
    · simp [he]
    · simp [he]
  | named name =>
    intro hc
    have hi := Text.isIdentChar_of_isIdentifier (ht name rfl).isIdentifier ';' hc
    exact absurd hi (by decide)
  | scalar s => exact hwords _ (mem_wordTypes (by simp) (by simp))
  | openMap | unknown => exact hwords _ (by decide)

theorem typeText_append_inj {t u : TypeRef} (ht : t.IsReadable) (hu : u.IsReadable)
    {x y : List Char} (h : (typeText t).toList ++ ';' :: x = (typeText u).toList ++ ';' :: y) :
    t.plain = u.plain ∧ x = y := by
  have hother : ∀ {t : TypeRef}, t.IsReadable → ∀ c ∈ (typeText t).toList, (c != ';') = true := by
    intro t ht c hc
    rw [bne_iff_ne]
    rintro rfl
    exact semicolon_not_mem_typeText ht hc
  obtain ⟨htext, hrest⟩ := Text.append_inj_of_all (p := (· != ';')) (hother ht) (hother hu)
    (by simp) (by simp) h
  exact ⟨typeText_injective ht hu (String.toList_injective htext), (List.cons.inj hrest).2⟩

/-! Lines -/

/-- The line of a member, without its margin and its end. -/
def memberLine (f : Field) : String :=
  propertyKey f.name ++ (if f.optional then "?: " else ": ") ++ typeText f.type ++ ";"

theorem mark_append_inj {a b : Bool} {s t : List Char}
    (h : (if a then "?: " else ": ").toList ++ s = (if b then "?: " else ": ").toList ++ t) :
    a = b ∧ s = t := by
  cases a with
  | true => cases b with
    | true => exact ⟨rfl, List.append_cancel_left h⟩
    | false => simp at h
  | false => cases b with
    | true => simp at h
    | false => exact ⟨rfl, List.append_cancel_left h⟩

theorem mark_head (optional : Bool) (s : List Char) :
    ∀ c ∈ ((if optional then "?: " else ": ").toList ++ s).head?, Text.isIdentChar c = false := by
  cases optional with
  | true => simpa using (by decide : Text.isIdentChar '?' = false)
  | false => simpa using (by decide : Text.isIdentChar ':' = false)

theorem memberLine_append_inj {f g : Field} (hf : f.type.IsReadable) (hg : g.type.IsReadable)
    {s t : List Char} (h : (memberLine f).toList ++ s = (memberLine g).toList ++ t) :
    f.outline = g.outline ∧ s = t := by
  obtain ⟨name, type, optional, doc⟩ := f
  obtain ⟨name', type', optional', doc'⟩ := g
  have hsplit : ∀ (name : String) (type : TypeRef) (optional : Bool) (doc : Option String) s,
      (memberLine ⟨name, type, optional, doc⟩).toList ++ s = (propertyKey name).toList ++
        ((if optional then "?: " else ": ").toList ++ ((typeText type).toList ++ ';' :: s)) := by
    simp [memberLine]
  rw [hsplit, hsplit] at h
  obtain ⟨rfl, hmark⟩ := propertyKey_append_inj (mark_head _ _) (mark_head _ _) h
  obtain ⟨rfl, htext⟩ := mark_append_inj hmark
  obtain ⟨htype, hrest⟩ := typeText_append_inj hf hg htext
  exact ⟨by simp only [Field.outline, htype], hrest⟩

theorem memberLine_head (f : Field) :
    ∃ c rest, (memberLine f).toList = c :: rest ∧ c ≠ '/' := by
  obtain ⟨c, rest, hkey, hc⟩ := propertyKey_head f.name
  refine ⟨c, _, by simp [memberLine, hkey]; rfl, ?_⟩
  rintro rfl
  revert hc
  decide

end TypeScript

/-! Documentation -/

namespace Code

theorem eq_nil_of_terminator {d s t : List Char} (hd : ¬ HasTerminator d)
    (h : '*' :: '/' :: s = d ++ '*' :: '/' :: t) : d = [] := by
  cases d with
  | nil => rfl
  | cons x d =>
    exfalso
    cases d with
    | nil => simp at h
    | cons y d =>
      simp only [List.cons_append, List.cons.injEq] at h
      exact hd ⟨[], d, by rw [← h.1, ← h.2.1, List.nil_append]⟩

/-- The first terminator is the one behind the text. -/
theorem terminator_append_inj {c d s t : List Char} (hc : ¬ HasTerminator c)
    (hd : ¬ HasTerminator d) (h : c ++ '*' :: '/' :: s = d ++ '*' :: '/' :: t) : s = t := by
  induction c generalizing d with
  | nil =>
    rw [eq_nil_of_terminator hd h] at h
    exact (List.cons.inj (List.cons.inj h).2).2
  | cons x c ih =>
    cases d with
    | nil => cases eq_nil_of_terminator hc h.symm
    | cons y d =>
      have hrest : ¬ HasTerminator c := fun hn => hc (hasTerminator_cons.mpr (.inr hn))
      have hrest' : ¬ HasTerminator d := fun hn => hd (hasTerminator_cons.mpr (.inr hn))
      exact ih hrest hrest' (List.cons.inj h).2

/-- Nothing, or one comment with this margin. -/
def IsDocumentation (margin : String) (text : String) : Prop :=
  text = "" ∨ ∃ comment, ¬ HasTerminator comment.toList ∧ text = commentChunk margin comment

/-- What stands behind documentation is told from it, unless it begins with a slash. -/
theorem documentation_append_inj {margin x y : String} (hx : IsDocumentation margin x)
    (hy : IsDocumentation margin y) {s t : List Char} (hs : s.head? ≠ some '/')
    (ht : t.head? ≠ some '/')
    (h : x.toList ++ (margin.toList ++ s) = y.toList ++ (margin.toList ++ t)) : s = t := by
  -- Behind the margin a comment has a slash, and what follows has none.
  have hone : ∀ (comment : String) {s t : List Char}, s.head? ≠ some '/' →
      margin.toList ++ s ≠ (commentChunk margin comment).toList ++ t := by
    intro comment s t hs he
    simp only [commentChunk, String.toList_append, List.append_assoc,
      List.append_cancel_left_eq] at he
    simp [he] at hs
  rcases hx with rfl | ⟨c, hc, rfl⟩
  · rcases hy with rfl | ⟨d, hd, rfl⟩
    · simpa using h
    · exact absurd (by simpa using h) (hone d hs)
  · rcases hy with rfl | ⟨d, hd, rfl⟩
    · exact absurd (by simpa using h.symm) (hone c ht)
    · have hafter : c.toList ++ '*' :: '/' :: ('\n' :: (margin.toList ++ s)) =
          d.toList ++ '*' :: '/' :: ('\n' :: (margin.toList ++ t)) := by
        simpa [commentChunk] using h
      have hrest := terminator_append_inj hc hd hafter
      exact List.append_cancel_left (List.cons.inj hrest).2

end Code

namespace TypeScript

open Code

theorem isDocumentation_docFragments (i : Indent) (level : Nat) (doc : Option String) :
    IsDocumentation (i.margin level) (renderAll i level (docFragments doc)) := by
  cases doc with
  | none => exact .inl rfl
  | some s =>
    refine .inr ?_
    rw [docFragments, Fragment.ofDoc]
    split
    · exact ⟨_, not_hasTerminator_docLinesComment (i.isMargin level)
        ((Text.lines s.toList).map String.ofList), by simp [renderAll, Fragment.render]⟩
    · exact ⟨_, not_hasTerminator_docComment s, by simp [renderAll, Fragment.render]⟩

/-! Members -/

section

variable (i : Indent) (level : Nat)

/-- The text of a member with its documentation. -/
def memberText (f : Field) : String :=
  renderAll i level (docFragments f.doc) ++ (i.margin level ++ (memberLine f ++ "\n"))

theorem renderAll_member (f : Field) :
    renderAll i level (InterfaceMember.fragments ⟨f.name, typeText f.type, f.optional, f.doc⟩) =
      memberText i level f := by
  rw [InterfaceMember.fragments, renderAll_append]
  simp only [renderAll, Fragment.render, memberText, memberLine, String.append_assoc,
    String.append_empty]

theorem memberText_append_inj {f g : Field} (hf : f.type.IsReadable) (hg : g.type.IsReadable)
    {s t : List Char}
    (h : (memberText i level f).toList ++ s = (memberText i level g).toList ++ t) :
    f.outline = g.outline ∧ s = t := by
  have hhead : ∀ (f : Field) s, ((memberLine f).toList ++ s).head? ≠ some '/' := by
    intro f s
    obtain ⟨c, rest, hline, hc⟩ := memberLine_head f
    simpa [hline] using hc
  have hsplit : ∀ f s, (memberText i level f).toList ++ s =
      (renderAll i level (docFragments f.doc)).toList ++ ((i.margin level).toList ++
        ((memberLine f).toList ++ '\n' :: s)) := by
    simp [memberText]
  rw [hsplit, hsplit] at h
  have hlines := documentation_append_inj (isDocumentation_docFragments i level f.doc)
    (isDocumentation_docFragments i level g.doc) (hhead f _) (hhead g _) h
  obtain ⟨houtline, hrest⟩ := memberLine_append_inj hf hg hlines
  exact ⟨houtline, (List.cons.inj hrest).2⟩

theorem indent_head : ∃ c rest, i.text.toList = c :: rest ∧ c ≠ '\x7d' := by
  unfold Indent.text
  split
  · exact ⟨' ', "   ".toList, by simp, by decide⟩
  · exact ⟨' ', "       ".toList, by simp, by decide⟩
  · exact ⟨' ', " ".toList, by simp, by decide⟩
  · exact ⟨'\t', [], by simp, by decide⟩

/-- A member is deeper than the end of its block. -/
theorem memberText_head (f : Field) : ∃ c rest,
    (memberText i (level + 1) f).toList = (i.margin level).toList ++ c :: rest ∧ c ≠ '\x7d' := by
  obtain ⟨c, unit, hunit, hc⟩ := indent_head i
  obtain ⟨rest, hrest⟩ : ∃ rest, memberText i (level + 1) f = i.margin (level + 1) ++ rest := by
    rw [memberText]
    rcases isDocumentation_docFragments i (level + 1) f.doc with hdoc | ⟨comment, -, hdoc⟩
    · exact ⟨_, by rw [hdoc, String.empty_append]⟩
    · exact ⟨_, by rw [hdoc, commentChunk]; simp only [String.append_assoc]; rfl⟩
  exact ⟨c, unit ++ rest.toList, by simp [hrest, Indent.margin_succ, hunit], hc⟩

theorem members_append_inj {fs gs : List Field} (hfs : ∀ f ∈ fs, f.type.IsReadable)
    (hgs : ∀ g ∈ gs, g.type.IsReadable) {s t : List Char}
    (h : (String.join (fs.map (memberText i (level + 1)))).toList ++
        ((i.margin level).toList ++ '\x7d' :: s) =
      (String.join (gs.map (memberText i (level + 1)))).toList ++
        ((i.margin level).toList ++ '\x7d' :: t)) :
    fs.map Field.outline = gs.map Field.outline ∧ s = t := by
  -- The end of a block stands where the next member has more of its margin.
  have hend : ∀ (f : Field) (s t : List Char), (i.margin level).toList ++ '\x7d' :: s ≠
      (memberText i (level + 1) f).toList ++ t := by
    intro f s t he
    obtain ⟨c, rest, hf, hc⟩ := memberText_head i level f
    rw [hf, List.append_assoc, List.append_cancel_left_eq] at he
    exact hc (List.cons.inj he).1.symm
  induction fs generalizing gs with
  | nil =>
    cases gs with
    | nil => exact ⟨rfl, by simpa using h⟩
    | cons g gs => exact absurd (by simpa using h) (hend g s _)
  | cons f fs ih =>
    obtain ⟨hf, hfs⟩ := List.forall_mem_cons.mp hfs
    cases gs with
    | nil => exact absurd (by simpa using h.symm) (hend f t _)
    | cons g gs =>
      obtain ⟨hg, hgs⟩ := List.forall_mem_cons.mp hgs
      simp only [List.map_cons, String.join_cons, String.toList_append, List.append_assoc] at h
      obtain ⟨hfirst, hrest⟩ := memberText_append_inj i (level + 1) hf hg h
      obtain ⟨hmore, hst⟩ := ih hfs hgs hrest
      exact ⟨by rw [List.map_cons, List.map_cons, hfirst, hmore], hst⟩

/-! Declarations -/

/-- What stands behind the name of a declaration: an empty block, or one with its members. -/
def blockText (fields : List Field) : String :=
  if fields.isEmpty then "\x7d\n"
  else "\n" ++ (String.join (fields.map (memberText i (level + 1))) ++ (i.margin level ++ "\x7d\n"))

theorem blockText_append_inj {fs gs : List Field} (hfs : ∀ f ∈ fs, f.type.IsReadable)
    (hgs : ∀ g ∈ gs, g.type.IsReadable) {s t : List Char}
    (h : (blockText i level fs).toList ++ s = (blockText i level gs).toList ++ t) :
    fs.map Field.outline = gs.map Field.outline ∧ s = t := by
  cases fs with
  | nil =>
    cases gs with
    | nil => exact ⟨rfl, List.append_cancel_left h⟩
    | cons g gs => simp [blockText] at h
  | cons f fs =>
    cases gs with
    | nil => simp [blockText] at h
    | cons g gs =>
      have hsplit : ∀ (f : Field) fs s, (blockText i level (f :: fs)).toList ++ s =
          '\n' :: ((String.join ((f :: fs).map (memberText i (level + 1)))).toList ++
            ((i.margin level).toList ++ '\x7d' :: '\n' :: s)) := by
        simp [blockText]
      rw [hsplit, hsplit] at h
      obtain ⟨houtlines, hrest⟩ := members_append_inj i level hfs hgs (List.cons.inj h).2
      exact ⟨houtlines, (List.cons.inj hrest).2⟩

end

theorem interfaceText_eq (b : Builder) (d : Declaration) :
    interfaceText b d = renderAll b.indent b.level (docFragments d.doc) ++
      (b.indent.margin b.level ++ ("export interface " ++ (d.name ++ (" \x7b" ++
        blockText b.indent b.level d.fields)))) := by
  have hmembers : renderAll b.indent (b.level + 1)
      ((Interface.ofDeclaration d).members.flatMap (·.fragments)) =
        String.join (d.fields.map (memberText b.indent (b.level + 1))) := by
    rw [renderAll_flatMap, Interface.ofDeclaration, List.map_map]
    exact congrArg String.join (List.map_congr_left fun f _ => renderAll_member _ _ f)
  rw [interfaceText, declarationFragments, Interface.fragments, renderAll_append, blockText]
  have hempty : (Interface.ofDeclaration d).members.isEmpty = d.fields.isEmpty :=
    List.isEmpty_map
  rw [hempty]
  split
  · simp only [renderAll, Fragment.render, Interface.ofDeclaration, String.append_assoc,
      String.append_empty]
    rfl
  · simp only [renderAll, Fragment.render, hmembers, String.append_assoc, String.append_empty]
    rfl

theorem interfaceText_append_inj {d e : Declaration} (hd : d.IsReadable) (he : e.IsReadable)
    (b : Builder) {s t : List Char}
    (h : (interfaceText b d).toList ++ s = (interfaceText b e).toList ++ t) :
    d.outline = e.outline ∧ s = t := by
  have hsplit : ∀ (d : Declaration) s, (interfaceText b d).toList ++ s =
      (renderAll b.indent b.level (docFragments d.doc)).toList ++
        ((b.indent.margin b.level).toList ++ ("export interface ".toList ++ (d.name.toList ++
          (" \x7b".toList ++ ((blockText b.indent b.level d.fields).toList ++ s))))) := by
    intro d s
    rw [interfaceText_eq]
    simp only [String.toList_append, List.append_assoc]
  have hhead : ∀ s : List Char, ("export interface ".toList ++ s).head? ≠ some '/' := by simp
  have hspace : ∀ s : List Char, ∀ c ∈ (" \x7b".toList ++ s).head?, Text.isIdentChar c = false := by
    intro s
    simpa using (by decide : Text.isIdentChar ' ' = false)
  rw [hsplit, hsplit] at h
  have hexport := documentation_append_inj (isDocumentation_docFragments ..)
    (isDocumentation_docFragments ..) (hhead _) (hhead _) h
  obtain ⟨hname, hblock⟩ := Text.append_inj_of_all (Text.isIdentChar_of_isIdentifier hd.name)
    (Text.isIdentChar_of_isIdentifier he.name) (hspace _) (hspace _)
    (List.append_cancel_left hexport)
  obtain ⟨hfields, hrest⟩ := blockText_append_inj b.indent b.level hd.fields he.fields
    (List.append_cancel_left hblock)
  exact ⟨by rw [Declaration.outline, Declaration.outline, hfields, String.toList_injective hname],
    hrest⟩

/-! Lists of declarations -/

/-- The declarations after the first, each behind a blank line. -/
def furtherText (b : Builder) (ds : List Declaration) : String :=
  String.join (ds.map fun d => "\n" ++ interfaceText b d)

theorem furtherText_cons (b : Builder) (d : Declaration) (ds : List Declaration) :
    furtherText b (d :: ds) = "\n" ++ (interfaceText b d ++ furtherText b ds) := by
  rw [furtherText, List.map_cons, String.join_cons, String.append_assoc, furtherText]

theorem emitDeclarations_cons (b : Builder) (d : Declaration) (ds : List Declaration) :
    (emitDeclarations b (d :: ds)).text = b.text ++ (interfaceText b d ++ furtherText b ds) := by
  rw [emitDeclarations_text]
  congr 1
  induction ds generalizing d with
  | nil => simp [furtherText]
  | cons e ds ih =>
    rw [List.map_cons, String.intercalate_cons_of_ne_nil (by simp), ih e, furtherText_cons,
      String.append_assoc]

theorem furtherText_injective (b : Builder) {ds es : List Declaration}
    (hds : ∀ d ∈ ds, d.IsReadable) (hes : ∀ e ∈ es, e.IsReadable)
    (h : furtherText b ds = furtherText b es) :
    ds.map Declaration.outline = es.map Declaration.outline := by
  induction ds generalizing es with
  | nil =>
    cases es with
    | nil => rfl
    | cons e es => simp [furtherText] at h
  | cons d ds ih =>
    cases es with
    | nil => simp [furtherText] at h
    | cons e es =>
      obtain ⟨hd, hds⟩ := List.forall_mem_cons.mp hds
      obtain ⟨he, hes⟩ := List.forall_mem_cons.mp hes
      have hfirst : (interfaceText b d).toList ++ (furtherText b ds).toList =
          (interfaceText b e).toList ++ (furtherText b es).toList := by
        simpa [furtherText_cons] using congrArg String.toList h
      obtain ⟨houtline, hrest⟩ := interfaceText_append_inj hd he b hfirst
      rw [List.map_cons, List.map_cons, houtline, ih hds hes (String.toList_injective hrest)]

theorem emitDeclarations_nil (b : Builder) : (emitDeclarations b []).text = b.text := by
  rw [emitDeclarations_text, List.map_nil, String.intercalate_nil, String.append_empty]

theorem emitDeclarations_ne_nil (b : Builder) (d : Declaration) (ds : List Declaration) :
    (emitDeclarations b (d :: ds)).text ≠ b.text := by
  rw [emitDeclarations_cons, interfaceText_eq]
  intro h
  have hlength := congrArg (List.length ∘ String.toList) h
  simp at hlength

/-- Equal texts are written for equal declarations: as many, with the same names in the same order,
and with the same fields in the same order, each with its key, its mark and its type, wide integers
being numbers. Neither documentation nor keys can imitate what is read so. -/
theorem emitDeclarations_injective {ds es : List Declaration} (hds : ∀ d ∈ ds, d.IsReadable)
    (hes : ∀ e ∈ es, e.IsReadable) (b : Builder)
    (h : (emitDeclarations b ds).text = (emitDeclarations b es).text) :
    ds.map Declaration.outline = es.map Declaration.outline := by
  cases ds with
  | nil =>
    cases es with
    | nil => rfl
    | cons e es =>
      rw [emitDeclarations_nil] at h
      exact absurd h.symm (emitDeclarations_ne_nil b e es)
  | cons d ds =>
    cases es with
    | nil =>
      rw [emitDeclarations_nil] at h
      exact absurd h (emitDeclarations_ne_nil b d ds)
    | cons e es =>
      obtain ⟨hd, hds⟩ := List.forall_mem_cons.mp hds
      obtain ⟨he, hes⟩ := List.forall_mem_cons.mp hes
      rw [emitDeclarations_cons, emitDeclarations_cons, String.append_right_inj,
        ← String.toList_inj, String.toList_append, String.toList_append] at h
      obtain ⟨houtline, hrest⟩ := interfaceText_append_inj hd he b h
      rw [List.map_cons, List.map_cons, houtline,
        furtherText_injective b hds hes (String.toList_injective hrest)]

/-- Declarations whose documentation reads like one, with a key that has a quote in it. -/
def invoices (id : Scalar) (note : String) : List Declaration :=
  [{ name := "Line", doc := some ("*/\n\x7d\n\nexport interface Fake \x7b\x7d\n" ++ note),
     fields :=
      [{ name := "id", type := .array (.scalar id), doc := some note },
       { name := "it's: string;", type := .array (.scalar .stringOrNumber), optional := true }] },
    { name := "Blank" },
    { name := "Invoice", fields := [{ name := "lines", type := .array (.named "Line") }] }]

theorem invoices_alike :
    let one := invoices .wideInteger "see below  "
    let other := invoices .number "see below"
    (∀ d ∈ one, d.IsReadable) ∧ (∀ d ∈ other, d.IsReadable) ∧ one ≠ other ∧
      (emitDeclarations {} one).text = (emitDeclarations {} other).text ∧
      one.map Declaration.outline = other.map Declaration.outline := by
  intro one other
  have hone : ∀ d ∈ one, d.IsReadable := by decide +kernel
  have hother : ∀ d ∈ other, d.IsReadable := by decide +kernel
  have htext : (emitDeclarations {} one).text = (emitDeclarations {} other).text := by
    decide +kernel
  exact ⟨hone, hother, by decide +kernel, htext,
    emitDeclarations_injective hone hother {} htext⟩

end TypeScript
end TypedApi
