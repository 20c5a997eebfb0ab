import TypedApi.Proofs.Readability

/-!
The grammar of types. The brackets of an array bind tighter than a bar, parentheses group, and a
word that is none of the words for types is a reference. No text has two readings, because a bar or
a comma belongs to the innermost brackets around it; and the text of a type has one, which denotes
the type.
-/
namespace TypedApi

/-- The type of a word: that of a word for a type, else the declaration of that name. -/
def TypeRef.ofWord : String → TypeRef
  | "string" => scalar .string
  | "number" => scalar .number
  | "boolean" => scalar .boolean
  | "unknown" => unknown
  | name => named name

theorem TypeRef.ofWord_of_isReference {name : String} (h : IsReference name) :
    ofWord name = named name := by
  have hword := h.notWord
  simp only [List.mem_cons, List.not_mem_nil, or_false, not_or] at hword
  obtain ⟨hstring, hnumber, hboolean, hunknown⟩ := hword
  unfold ofWord
  split <;> first | contradiction | rfl

namespace TypeScript

/-! Tokens -/

inductive Token
  | word (w : String)
  | mark (c : Char)
deriving DecidableEq, Repr

def marks : List Char := ['|', '[', ']', '(', ')', '<', '>', ',']

/-- The word that ends here, if one has begun. -/
def pending (word : List Char) : List Token :=
  if word = [] then [] else [.word (String.ofList word)]

/-- The tokens of a text before which a word has begun. A word is as long as it can be, and spaces
only keep words apart. -/
def tokensAfter : List Char → List Char → Option (List Token)
  | word, [] => some (pending word)
  | word, c :: rest =>
    if Text.isIdentChar c then tokensAfter (word ++ [c]) rest
    else if c = ' ' then (tokensAfter [] rest).map (pending word ++ ·)
    else if c ∈ marks then (tokensAfter [] rest).map (pending word ++ .mark c :: ·)
    else none

def tokens (text : String) : Option (List Token) := tokensAfter [] text.toList

theorem isIdentChar_of_mem_marks : ∀ c ∈ marks, Text.isIdentChar c = false ∧ c ≠ ' ' := by
  have hall : marks.all (fun c => !Text.isIdentChar c && c != ' ') = true := by decide
  intro c hc
  simpa using List.all_eq_true.mp hall c hc

theorem tokensAfter_word {s : List Char} (h : ∀ c ∈ s, Text.isIdentChar c = true)
    (word : List Char) : tokensAfter word s = some (pending (word ++ s)) := by
  induction s generalizing word with
  | nil => rw [tokensAfter, List.append_nil]
  | cons c s ih =>
    obtain ⟨hc, hs⟩ := List.forall_mem_cons.mp h
    rw [tokensAfter, if_pos hc, ih hs, List.append_assoc, List.singleton_append]

/-- A mark ends whatever stands before it. -/
theorem tokensAfter_mark {c : Char} (hc : c ∈ marks) (s rest word : List Char) :
    tokensAfter word (s ++ c :: rest) =
      (tokensAfter word s).bind fun ts => (tokensAfter [] rest).map (ts ++ .mark c :: ·) := by
  obtain ⟨hident, hspace⟩ := isIdentChar_of_mem_marks c hc
  induction s generalizing word with
  | nil =>
    simp [tokensAfter, hident, hspace, hc]
  | cons d s ih =>
    rw [List.cons_append, tokensAfter, tokensAfter, ih, ih]
    split
    · rfl
    · split
      · cases tokensAfter [] s <;> cases tokensAfter [] rest <;> simp
      · split
        · cases tokensAfter [] s <;> cases tokensAfter [] rest <;> simp
        · rfl

theorem tokens_word {name : String} (h : Text.isIdentifier name.toList = true) :
    tokens name = some [.word name] := by
  have hne : name.toList ≠ [] := by
    obtain ⟨c, rest, hs, -⟩ := (Text.isIdentifier_iff _).mp h
    rw [hs]
    exact List.cons_ne_nil c rest
  rw [tokens, tokensAfter_word (Text.isIdentChar_of_isIdentifier h), List.nil_append, pending,
    if_neg hne, String.ofList_toList]

theorem tokens_brackets {s : String} {ts : List Token} (h : tokens s = some ts) :
    tokens (s ++ "[]") = some (ts ++ [.mark '[', .mark ']']) := by
  have hlist : (s ++ "[]").toList = s.toList ++ '[' :: [']'] := by simp
  have hclose : tokensAfter [] [']'] = some [.mark ']'] := by decide
  rw [tokens] at h ⊢
  rw [hlist, tokensAfter_mark (by decide), h, hclose]
  rfl

theorem tokens_group {s : String} {ts : List Token} (h : tokens s = some ts) :
    tokens ("(" ++ s ++ ")") = some (.mark '(' :: ts ++ [.mark ')']) := by
  have hlist : ("(" ++ s ++ ")").toList = ('(' :: s.toList) ++ ')' :: [] := by simp
  have hopen : tokensAfter [] ('(' :: s.toList) = some (.mark '(' :: ts) := by
    rw [← List.nil_append ('(' :: s.toList), tokensAfter_mark (by decide)]
    rw [tokens] at h
    rw [h]
    rfl
  rw [tokens, hlist, tokensAfter_mark (by decide), hopen]
  rfl

/-! The grammar -/

/-- What a type may be without parentheses around it. -/
inductive Strength
  | union | array | primary

inductive TypeExpr
  | word (w : String)
  /-- A word applied to two types. -/
  | applied (w : String) (key value : TypeExpr)
  | array (element : TypeExpr)
  | union (left right : TypeExpr)
deriving DecidableEq, Repr

/-- The tokens spell the type expression. -/
inductive Spells : Strength → List Token → TypeExpr → Prop
  | word {w : String} (hw : Text.isIdentifier w.toList = true) :
    Spells .primary [.word w] (.word w)
  | applied {w : String} {ks vs : List Token} {key value : TypeExpr}
      (hw : Text.isIdentifier w.toList = true) (hkey : Spells .union ks key)
      (hvalue : Spells .union vs value) :
    Spells .primary (.word w :: .mark '<' :: (ks ++ .mark ',' :: vs ++ [.mark '>']))
      (.applied w key value)
  | group {ts : List Token} {e : TypeExpr} (h : Spells .union ts e) :
    Spells .primary (.mark '(' :: ts ++ [.mark ')']) e
  | ofPrimary {ts : List Token} {e : TypeExpr} (h : Spells .primary ts e) : Spells .array ts e
  | array {ts : List Token} {e : TypeExpr} (h : Spells .array ts e) :
    Spells .array (ts ++ [.mark '[', .mark ']']) (.array e)
  | ofArray {ts : List Token} {e : TypeExpr} (h : Spells .array ts e) : Spells .union ts e
  | union {ls rs : List Token} {left right : TypeExpr} (hleft : Spells .union ls left)
      (hright : Spells .array rs right) :
    Spells .union (ls ++ .mark '|' :: rs) (.union left right)

/-- The text is read as that type expression. -/
def IsReading (text : String) (e : TypeExpr) : Prop :=
  ∃ ts, tokens text = some ts ∧ Spells .union ts e

/-- The type that an expression denotes, if it is one of those that types are written with. -/
def TypeExpr.type? : TypeExpr → Option TypeRef
  | word w => some (.ofWord w)
  | applied w key value =>
    if w = "Record" ∧ key.type? = some (.scalar .string) ∧ value = .word "any" then some .openMap
    else none
  | array element => element.type?.map .array
  | union left right =>
    match left.type?, right.type? with
    | some (.scalar .string), some (.scalar .number) => some (.scalar .stringOrNumber)
    | some (.scalar .number), some (.scalar .string) => some (.scalar .stringOrNumber)
    | _, _ => none

/-! Brackets -/

/-- By how much a token goes deeper into brackets. -/
def Token.step : Token → Int
  | .mark c => if c ∈ ['(', '[', '<'] then 1 else if c ∈ [')', ']', '>'] then -1 else 0
  | .word _ => 0

/-- How many brackets are open after the tokens. -/
def depth : List Token → Int
  | [] => 0
  | t :: ts => t.step + depth ts

@[simp] theorem depth_nil : depth [] = 0 := rfl

@[simp] theorem depth_cons (t : Token) (ts : List Token) :
    depth (t :: ts) = t.step + depth ts := rfl

@[simp] theorem depth_append (ts us : List Token) : depth (ts ++ us) = depth ts + depth us := by
  induction ts with
  | nil => simp
  | cons t ts ih =>
    rw [List.cons_append, depth_cons, depth_cons, ih]
    omega

/-- Every bracket is closed, and none before it is opened. -/
structure Balanced (ts : List Token) : Prop where
  closed : depth ts = 0
  opened : ∀ before after, ts = before ++ after → 0 ≤ depth before

/-- The mark stands only between brackets. -/
def Enclosed (c : Char) (ts : List Token) : Prop :=
  ∀ before after, ts = before ++ .mark c :: after → 0 < depth before

section Brackets

variable {c opening closing : Char} {t : Token} {ts us : List Token}

theorem balanced_singleton (h : t.step = 0) : Balanced [t] := by
  refine ⟨by simp [h], fun before after hsplit => ?_⟩
  rcases List.singleton_eq_append_iff.mp hsplit with ⟨rfl, -⟩ | ⟨rfl, -⟩
  · simp
  · simp [h]

theorem balanced_nil : Balanced [] := by
  refine ⟨rfl, fun before after hsplit => ?_⟩
  have hbefore : before = [] := (List.nil_eq_append_iff.mp hsplit).1
  simp [hbefore]

theorem Balanced.append (h : Balanced ts) (h' : Balanced us) : Balanced (ts ++ us) := by
  refine ⟨by rw [depth_append, h.closed, h'.closed, Int.add_zero], fun before after hsplit => ?_⟩
  rcases List.append_eq_append_iff.mp hsplit with ⟨as, rfl, hus⟩ | ⟨bs, hts, -⟩
  · have has := h'.opened as after hus
    rw [depth_append, h.closed]
    omega
  · exact h.opened before bs hts

/-- Before the closing bracket the depth is at least that of the opening one. -/
theorem Balanced.enclosed_depth (h : Balanced ts) (ho : (Token.mark opening).step = 1)
    {before after : List Token}
    (hsplit : .mark opening :: ts ++ [.mark closing] = before ++ after) (hbefore : before ≠ [])
    (hafter : after ≠ []) : 0 < depth before := by
  obtain ⟨t, before, rfl⟩ := List.exists_cons_of_ne_nil hbefore
  obtain ⟨after, u, rfl⟩ := List.eq_nil_or_concat after |>.resolve_left hafter
  rw [List.concat_eq_append, ← List.append_assoc] at hsplit
  obtain ⟨hinner, -⟩ := List.append_inj' hsplit rfl
  obtain ⟨rfl, hts⟩ := List.cons.inj hinner
  have hdepth := h.opened before after hts
  rw [depth_cons, ho]
  omega

theorem Balanced.between (h : Balanced ts) (ho : (Token.mark opening).step = 1)
    (hc : (Token.mark closing).step = -1) :
    Balanced (.mark opening :: ts ++ [.mark closing]) := by
  have hclosed : depth (.mark opening :: ts ++ [.mark closing]) = 0 := by
    simp [ho, hc, h.closed]
  refine ⟨hclosed, fun before after hsplit => ?_⟩
  by_cases hbefore : before = []
  · simp [hbefore]
  by_cases hafter : after = []
  · rw [hafter, List.append_nil] at hsplit
    simp only [← hsplit, hclosed, Int.le_refl]
  · have hdepth := h.enclosed_depth ho hsplit hbefore hafter
    omega

theorem enclosed_singleton (h : t ≠ .mark c) : Enclosed c [t] := by
  intro before after hsplit
  have hmem : Token.mark c ∈ [t] := by simp [hsplit]
  exact absurd (List.mem_singleton.mp hmem).symm h

theorem Enclosed.append (h : Enclosed c ts) (hts : Balanced ts) (h' : Enclosed c us) :
    Enclosed c (ts ++ us) := by
  intro before after hsplit
  rcases List.append_eq_append_iff.mp hsplit with ⟨as, rfl, hus⟩ | ⟨bs, htbs, hbs⟩
  · have has := h' as after hus
    rw [depth_append, hts.closed]
    omega
  · cases bs with
    | nil =>
      rw [List.append_nil] at htbs
      have hzero := h' [] after hbs.symm
      simp at hzero
    | cons b bs =>
      rw [List.cons_append] at hbs
      exact h before bs (by rw [htbs, (List.cons.inj hbs).1])

theorem Balanced.enclosed_between (h : Balanced ts) (ho : (Token.mark opening).step = 1)
    (hopening : opening ≠ c) :
    Enclosed c (.mark opening :: ts ++ [.mark closing]) := by
  intro before after hsplit
  refine h.enclosed_depth ho hsplit ?_ (List.cons_ne_nil _ _)
  rintro rfl
  rw [List.nil_append, List.cons_append] at hsplit
  exact hopening (Token.mark.inj (List.cons.inj hsplit).1)

/-- Tokens have one place where the mark stands outside of all brackets and only between brackets
after it. -/
theorem split_unique {ts us ts' us' : List Token} (hc : (Token.mark c).step = 0)
    (hts : depth ts = 0) (hts' : depth ts' = 0) (hus : Enclosed c us) (hus' : Enclosed c us')
    (h : ts ++ .mark c :: us = ts' ++ .mark c :: us') : ts = ts' ∧ us = us' := by
  -- If one place comes before the other, then what lies between them closes all that it opens.
  have hlater : ∀ {ts us ts' us' as : List Token}, depth ts = 0 → depth ts' = 0 → Enclosed c us →
      ts' = ts ++ as → .mark c :: us = as ++ .mark c :: us' → ts = ts' ∧ us = us' := by
    intro ts us ts' us' as hts hts' hus htas has
    cases as with
    | nil =>
      rw [List.append_nil] at htas
      exact ⟨htas.symm, (List.cons.inj has).2⟩
    | cons a as =>
      obtain ⟨rfl, hrest⟩ := List.cons.inj has
      have hpos := hus as us' hrest
      rw [htas, depth_append, depth_cons, hts, hc] at hts'
      omega
  rcases List.append_eq_append_iff.mp h with ⟨as, htas, has⟩ | ⟨bs, htbs, hbs⟩
  · exact hlater hts hts' hus htas has
  · obtain ⟨rfl, rfl⟩ := hlater hts' hts hus' htbs hbs
    exact ⟨rfl, rfl⟩

end Brackets

/-! One reading -/

section Reading

variable {l : Strength} {ts : List Token} {e f : TypeExpr}

theorem Spells.balanced (h : Spells l ts e) : Balanced ts := by
  induction h with
  | word hw => exact balanced_singleton rfl
  | @applied w ks vs key value hw hkey hvalue ihkey ihvalue =>
    have harguments : Balanced (ks ++ ([.mark ','] ++ vs)) :=
      ihkey.append ((balanced_singleton rfl).append ihvalue)
    exact (balanced_singleton (t := .word w) rfl).append (harguments.between rfl rfl)
  | group h ih => exact ih.between rfl rfl
  | ofPrimary h ih => exact ih
  | array h ih => exact ih.append (balanced_nil.between rfl rfl)
  | ofArray h ih => exact ih
  | union hleft hright ihleft ihright =>
    exact ihleft.append ((balanced_singleton (t := .mark '|') rfl).append ihright)

/-- A comma stands between brackets, and so does a bar unless it is one of the type itself. -/
theorem Spells.enclosed {c : Char} (h : Spells l ts e) (hc : c = ',' ∨ c = '|' ∧ l ≠ .union) :
    Enclosed c ts := by
  have hne : '(' ≠ c ∧ '<' ≠ c ∧ '[' ≠ c := by
    rcases hc with rfl | ⟨rfl, -⟩
    · decide
    · decide
  obtain ⟨hparen, hangle, hbracket⟩ := hne
  induction h with
  | word hw => exact enclosed_singleton (by simp)
  | @applied w ks vs key value hw hkey hvalue ihkey ihvalue =>
    have harguments : Balanced (ks ++ ([.mark ','] ++ vs)) :=
      hkey.balanced.append ((balanced_singleton rfl).append hvalue.balanced)
    exact (enclosed_singleton (t := .word w) (by simp)).append (balanced_singleton rfl)
      (harguments.enclosed_between rfl hangle)
  | group h ih => exact h.balanced.enclosed_between rfl hparen
  | ofPrimary h ih => exact ih (hc.imp_right fun hbar => ⟨hbar.1, by simp⟩)
  | array h ih => exact (ih hc).append h.balanced (balanced_nil.enclosed_between rfl hbracket)
  | ofArray h ih => exact ih (hc.imp_right fun hbar => ⟨hbar.1, by simp⟩)
  | union hleft hright ihleft ihright =>
    have hcomma : c = ',' := hc.resolve_right fun hbar => hbar.2 rfl
    have hbar : Enclosed c [.mark '|'] := enclosed_singleton (by simp [hcomma])
    exact (ihleft hc).append hleft.balanced
      (hbar.append (balanced_singleton rfl) (ihright (.inl hcomma)))

/-- What is not an array does not end in a bracket. -/
theorem Spells.primary_last (h : Spells .primary ts e) : ts.getLast? ≠ some (.mark ']') := by
  cases h with
  | word hw => simp
  | applied hw hkey hvalue => simp [List.getLast?_cons]
  | group h => simp [List.getLast?_cons]

theorem Spells.primary_cases (h : Spells .primary ts e) :
    (∃ w, ts = [.word w] ∧ e = .word w) ∨
    (∃ w ks vs key value, ts = .word w :: .mark '<' :: (ks ++ .mark ',' :: vs ++ [.mark '>']) ∧
      e = .applied w key value ∧ Spells .union ks key ∧ Spells .union vs value) ∨
    (∃ us, ts = .mark '(' :: us ++ [.mark ')'] ∧ Spells .union us e) := by
  cases h with
  | word hw => exact .inl ⟨_, rfl, rfl⟩
  | applied hw hkey hvalue => exact .inr (.inl ⟨_, _, _, _, _, rfl, rfl, hkey, hvalue⟩)
  | group h => exact .inr (.inr ⟨_, rfl, h⟩)

theorem Spells.array_cases (h : Spells .array ts e) :
    Spells .primary ts e ∨
      ∃ us f, ts = us ++ [.mark '[', .mark ']'] ∧ e = .array f ∧ Spells .array us f := by
  cases h with
  | ofPrimary h => exact .inl h
  | array h => exact .inr ⟨_, _, rfl, rfl, h⟩

theorem Spells.union_cases (h : Spells .union ts e) :
    Spells .array ts e ∨ ∃ ls rs left right, ts = ls ++ .mark '|' :: rs ∧
      e = .union left right ∧ Spells .union ls left ∧ Spells .array rs right := by
  cases h with
  | ofArray h => exact .inl h
  | union hleft hright => exact .inr ⟨_, _, _, _, rfl, rfl, hleft, hright⟩

/-- An array has no bar of its own, so it is no union. -/
theorem Spells.array_ne_union {ls rs : List Token} {left : TypeExpr}
    (h : Spells .array (ls ++ .mark '|' :: rs) e) (hleft : Spells .union ls left) : False := by
  have hdepth := h.enclosed (.inr ⟨rfl, by simp⟩) ls rs rfl
  rw [hleft.balanced.closed] at hdepth
  omega

/-- The grammar is unambiguous. -/
theorem Spells.unique (h : Spells l ts e) (h' : Spells l ts f) : e = f := by
  induction h generalizing f with
  | @word w hw =>
    rcases h'.primary_cases with ⟨w', hts, rfl⟩ | ⟨_, _, _, _, _, hts, -⟩ | ⟨us, hts, -⟩
    · cases hts
      rfl
    · simp at hts
    · simp at hts
  | applied hw hkey hvalue ihkey ihvalue =>
    rcases h'.primary_cases with
      ⟨w', hts, -⟩ | ⟨w', ks', vs', key', value', hts, rfl, hkey', hvalue'⟩ | ⟨us, hts, -⟩
    · simp at hts
    · obtain ⟨hw', hts⟩ := List.cons.inj hts
      obtain ⟨harguments, -⟩ := List.append_inj' (List.cons.inj hts).2 rfl
      obtain ⟨rfl, rfl⟩ := split_unique rfl hkey.balanced.closed hkey'.balanced.closed
        (hvalue.enclosed (.inl rfl)) (hvalue'.enclosed (.inl rfl)) harguments
      rw [Token.word.inj hw', ihkey hkey', ihvalue hvalue']
    · simp at hts
  | group h ih =>
    rcases h'.primary_cases with ⟨w', hts, -⟩ | ⟨_, _, _, _, _, hts, -⟩ | ⟨us, hts, hus⟩
    · simp at hts
    · simp at hts
    · obtain ⟨rfl, -⟩ := List.append_inj' (List.cons.inj hts).2 rfl
      exact ih hus
  | ofPrimary h ih =>
    rcases h'.array_cases with h' | ⟨us, f', rfl, -⟩
    · exact ih h'
    · exact absurd (by simp) h.primary_last
  | array h ih =>
    rcases h'.array_cases with h' | ⟨us, f', hts, rfl, hus⟩
    · exact absurd (by simp) h'.primary_last
    · obtain ⟨rfl, -⟩ := List.append_inj' hts rfl
      rw [ih hus]
  | ofArray h ih =>
    rcases h'.union_cases with h' | ⟨ls, rs, left, right, rfl, -, hleft, -⟩
    · exact ih h'
    · exact (h.array_ne_union hleft).elim
  | union hleft hright ihleft ihright =>
    rcases h'.union_cases with h' | ⟨ls, rs, left, right, hts, rfl, hleft', hright'⟩
    · exact (h'.array_ne_union hleft).elim
    · obtain ⟨rfl, rfl⟩ := split_unique rfl hleft.balanced.closed hleft'.balanced.closed
        (hright.enclosed (.inr ⟨rfl, by simp⟩)) (hright'.enclosed (.inr ⟨rfl, by simp⟩)) hts
      rw [ihleft hleft', ihright hright']

theorem IsReading.unique {text : String} (h : IsReading text e) (h' : IsReading text f) :
    e = f := by
  obtain ⟨ts, hts, hspells⟩ := h
  obtain ⟨us, hus, hspells'⟩ := h'
  obtain rfl : ts = us := Option.some.inj (hts.symm.trans hus)
  exact hspells.unique hspells'

end Reading

/-! The text of a type -/

def scalarExpr : Scalar → TypeExpr
  | .string => .word "string"
  | .number | .wideInteger => .word "number"
  | .boolean => .word "boolean"
  | .stringOrNumber => .union (.word "string") (.word "number")

/-- The expression that a type is written as. -/
def typeExpr : TypeRef → TypeExpr
  | .scalar s => scalarExpr s
  | .named name => .word name
  | .array element => .array (typeExpr element)
  | .openMap => .applied "Record" (.word "string") (.word "any")
  | .unknown => .word "unknown"

theorem typeExpr_type? {t : TypeRef} (ht : t.IsReadable) : (typeExpr t).type? = some t.plain := by
  induction t with
  | scalar s => cases s <;> rfl
  | named name =>
    rw [typeExpr, TypeExpr.type?, TypeRef.ofWord_of_isReference (ht name rfl)]
    rfl
  | array element ih =>
    have helement := ih ht
    rw [typeExpr, TypeExpr.type?, helement]
    rfl
  | openMap => rfl
  | unknown => rfl

theorem spells_word {w : String} (hw : Text.isIdentifier w.toList = true) :
    Spells .array [.word w] (.word w) :=
  .ofPrimary (.word hw)

/-- What is written without a bar holds together as tightly as an array. -/
theorem typeText_spells {t : TypeRef} (ht : t.IsReadable) :
    ∃ ts, tokens (typeText t) = some ts ∧ Spells .union ts (typeExpr t) ∧
      ('|' ∉ (typeText t).toList → Spells .array ts (typeExpr t)) := by
  have hword : ∀ w : String, Text.isIdentifier w.toList = true →
      ∃ ts, tokens w = some ts ∧ Spells .union ts (.word w) ∧
        ('|' ∉ w.toList → Spells .array ts (.word w)) :=
    fun w hw => ⟨[.word w], tokens_word hw, .ofArray (spells_word hw), fun _ => spells_word hw⟩
  induction t with
  | scalar s =>
    cases s with
    | string => exact hword "string" (by decide)
    | number | wideInteger => exact hword "number" (by decide)
    | boolean => exact hword "boolean" (by decide)
    | stringOrNumber =>
      refine ⟨[.word "string"] ++ .mark '|' :: [.word "number"], by decide, ?_, ?_⟩
      · exact .union (.ofArray (spells_word (by decide))) (spells_word (by decide))
      · intro hbar
        exact absurd (by decide) hbar
  | named name => exact hword name (ht name rfl).isIdentifier
  | unknown => exact hword "unknown" (by decide)
  | openMap =>
    have hmap : Spells .array
        (.word "Record" :: .mark '<' :: ([.word "string"] ++ .mark ',' :: [.word "any"] ++
          [.mark '>'])) (typeExpr .openMap) :=
      .ofPrimary (.applied (by decide) (.ofArray (spells_word (by decide)))
        (.ofArray (spells_word (by decide))))
    exact ⟨_, by decide, .ofArray hmap, fun _ => hmap⟩
  | array element ih =>
    obtain ⟨ts, hts, hunion, harray⟩ := ih ht
    have hspells : ∃ us, tokens (arrayText (typeText element)) = some us ∧
        Spells .array us (.array (typeExpr element)) := by
      rw [arrayText]
      split
      · have htext : "(" ++ typeText element ++ ")[]" =
            ("(" ++ typeText element ++ ")") ++ "[]" := by
          apply String.toList_injective
          simp
        rw [htext]
        exact ⟨_, tokens_brackets (tokens_group hts), .array (.ofPrimary (.group hunion))⟩
      · next hbar =>
        rw [List.contains_iff_mem] at hbar
        exact ⟨_, tokens_brackets hts, .array (harray hbar)⟩
    obtain ⟨us, hus, hspells⟩ := hspells
    exact ⟨us, hus, .ofArray hspells, fun _ => hspells⟩

/-- As long as what it refers to is an identifier and none of the words for types, the text of a
type has exactly one reading, and what is read denotes the type, with wide integers as numbers. -/
theorem typeText_denotes {t : TypeRef} (ht : t.IsReadable) :
    ∃ e, IsReading (typeText t) e ∧ (∀ f, IsReading (typeText t) f → f = e) ∧
      e.type? = some t.plain := by
  obtain ⟨ts, hts, hspells, -⟩ := typeText_spells ht
  have hreading : IsReading (typeText t) (typeExpr t) := ⟨ts, hts, hspells⟩
  exact ⟨typeExpr t, hreading, fun f hf => hf.unique hreading, typeExpr_type? ht⟩

/-- Parentheses at both levels, and a name that a map begins with. -/
theorem doubleLists_denote :
    let codes : TypeRef := .array (.array (.scalar .stringOrNumber))
    let records : TypeRef := .array (.array (.named "Record"))
    codes.IsReadable ∧ records.IsReadable ∧
    typeText codes = "((string | number)[])[]" ∧ typeText records = "Record[][]" ∧
    (∃ e, IsReading "((string | number)[])[]" e ∧
      (∀ f, IsReading "((string | number)[])[]" f → f = e) ∧ e.type? = some codes) ∧
    ∃ e, IsReading "Record[][]" e ∧ (∀ f, IsReading "Record[][]" f → f = e) ∧
      e.type? = some records := by
  intro codes records
  have hcodes : codes.IsReadable := by decide
  have hrecords : records.IsReadable := by decide
  exact ⟨hcodes, hrecords, rfl, rfl, typeText_denotes hcodes, typeText_denotes hrecords⟩

end TypeScript
end TypedApi
