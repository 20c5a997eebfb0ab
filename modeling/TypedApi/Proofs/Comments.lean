import Mathlib.Data.List.Basic
import TypedApi.Proofs.Literal
import TypedApi.Code.Builder

/-!
Comments and what may stand in them. Escaped text holds no terminator and makes none with what is
written around it. So a reader of the whole text, who also knows literals, leaves a comment where
it was meant to end.
-/
namespace TypedApi.Code

/-! Terminators -/

/-- The two characters that end a comment stand somewhere in the text. -/
def HasTerminator (s : List Char) : Prop := ∃ before after, s = before ++ '*' :: '/' :: after

/-- They stand there once, in front of a line break at the end. -/
def ClosesAtEnd (chunk : List Char) : Prop :=
  ∃ body, chunk = body ++ ['*', '/', '\n'] ∧
    ∀ before after, chunk = before ++ '*' :: '/' :: after → before = body

theorem not_hasTerminator_nil : ¬ HasTerminator [] := by
  rintro ⟨before, after, h⟩
  simp at h

theorem hasTerminator_cons {c : Char} {s : List Char} :
    HasTerminator (c :: s) ↔ (c = '*' ∧ s.head? = some '/') ∨ HasTerminator s := by
  constructor
  · rintro ⟨before, after, h⟩
    cases before with
    | nil =>
      simp only [List.nil_append, List.cons.injEq] at h
      exact Or.inl ⟨h.1, by rw [h.2, List.head?_cons]⟩
    | cons d before =>
      simp only [List.cons_append, List.cons.injEq] at h
      exact Or.inr ⟨before, after, h.2⟩
  · rintro (⟨rfl, hs⟩ | ⟨before, after, rfl⟩)
    · obtain ⟨after, rfl⟩ := List.head?_eq_some_iff.mp hs
      exact ⟨[], after, rfl⟩
    · exact ⟨c :: before, after, rfl⟩

theorem hasTerminator_cons_of_ne {c : Char} {s : List Char} (hc : c ≠ '*') :
    HasTerminator (c :: s) ↔ HasTerminator s := by
  simp [hasTerminator_cons, hc]

/-- No terminator reaches over a character that is neither a star nor a slash. -/
theorem hasTerminator_append_cons {c : Char} (hstar : c ≠ '*') (hslash : c ≠ '/')
    {s t : List Char} :
    HasTerminator (s ++ c :: t) ↔ HasTerminator s ∨ HasTerminator t := by
  induction s with
  | nil => simp [hasTerminator_cons_of_ne hstar, not_hasTerminator_nil]
  | cons d s ih =>
    have hhead : (s ++ c :: t).head? = some '/' ↔ s.head? = some '/' := by
      cases s with
      | nil => simp [hslash]
      | cons e s => simp
    rw [List.cons_append, hasTerminator_cons, hasTerminator_cons, ih, hhead, or_assoc]

theorem closesAtEnd_of_not_hasTerminator {body : List Char} (h : ¬ HasTerminator body) :
    ClosesAtEnd (body ++ ['*', '/', '\n']) := by
  refine ⟨body, rfl, ?_⟩
  induction body with
  | nil =>
    intro before after he
    cases before with
    | nil => rfl
    | cons c before =>
      have hlen := congrArg List.length he
      simp only [List.nil_append, List.length_append, List.length_cons, List.length_nil] at hlen
      cases before with
      | nil => simp at he
      | cons d before =>
        simp only [List.length_cons] at hlen
        omega
  | cons c body ih =>
    obtain ⟨hc, hbody⟩ := not_or.mp (mt hasTerminator_cons.mpr h)
    intro before after he
    cases before with
    | nil =>
      -- A terminator at the very start would be one of the body, or begin with its last character.
      exfalso
      simp only [List.cons_append, List.nil_append, List.cons.injEq] at he
      obtain ⟨rfl, he⟩ := he
      cases body with
      | nil => simp at he
      | cons d body =>
        simp only [List.cons_append, List.cons.injEq] at he
        exact hc ⟨rfl, by rw [he.1, List.head?_cons]⟩
    | cons d before =>
      simp only [List.cons_append, List.cons.injEq] at he
      rw [he.1, ih hbody before after he.2]

theorem head?_splitTerminators (s : List Char) : (splitTerminators s).head? = s.head? := by
  fun_cases splitTerminators s with
  | case1 rest => rfl
  | case2 c rest h => rfl
  | case3 => rfl

theorem not_hasTerminator_splitTerminators (s : List Char) :
    ¬ HasTerminator (splitTerminators s) := by
  fun_induction splitTerminators s with
  | case1 rest ih =>
    simp [hasTerminator_cons, ih]
  | case2 c rest hne ih =>
    rw [hasTerminator_cons, head?_splitTerminators]
    rintro (⟨rfl, hs⟩ | h)
    · obtain ⟨after, rfl⟩ := List.head?_eq_some_iff.mp hs
      exact hne after rfl rfl
    · exact ih h
  | case3 => exact not_hasTerminator_nil

theorem not_hasTerminator_escapeDoc (s : List Char) : ¬ HasTerminator (escapeDoc s) :=
  not_hasTerminator_splitTerminators _

/-- The text of a comment on one line, from its second star to the terminator. -/
def docComment (s : String) : String := "* " ++ Text.mapChars escapeDoc s ++ " "

/-- The text of a comment over several lines, all with the same margin. -/
def docLinesComment (margin : String) (lines : List String) : String :=
  "*\n" ++ String.join (lines.map fun s => margin ++ Builder.docLine s ++ "\n") ++ margin ++ " "

/-- A comment with its margin, on lines of its own. -/
def commentChunk (margin comment : String) : String := margin ++ "/*" ++ comment ++ "*/\n"

theorem not_hasTerminator_docComment (s : String) : ¬ HasTerminator (docComment s).toList := by
  have he := not_hasTerminator_escapeDoc s.toList
  simp [docComment, hasTerminator_cons, hasTerminator_append_cons, not_hasTerminator_nil, he]

theorem not_hasTerminator_docLine (s : String) : ¬ HasTerminator (Builder.docLine s).toList := by
  have he := not_hasTerminator_escapeDoc s.toList
  rw [Builder.docLine]
  split
  · simp [hasTerminator_cons, not_hasTerminator_nil]
  · simp [hasTerminator_cons, he]

/-- What margins are made of. -/
def IsMargin (margin : String) : Prop := ∀ c ∈ margin.toList, c = ' ' ∨ c = '\t'

instance (margin : String) : Decidable (IsMargin margin) :=
  decidable_of_iff (margin.toList.all (fun c => c == ' ' || c == '\t') = true) (by simp [IsMargin])

theorem hasTerminator_margin {margin : String} (hm : IsMargin margin) (s : List Char) :
    HasTerminator (margin.toList ++ s) ↔ HasTerminator s := by
  rw [IsMargin] at hm
  generalize margin.toList = blanks at hm ⊢
  induction blanks with
  | nil => rfl
  | cons c rest ih =>
    obtain ⟨hc, hrest⟩ := List.forall_mem_cons.mp hm
    have hne : c ≠ '*' := by
      rcases hc with rfl | rfl
      · decide
      · decide
    rw [List.cons_append, hasTerminator_cons_of_ne hne, ih hrest]

theorem not_hasTerminator_docLinesComment {margin : String} (hm : IsMargin margin)
    (lines : List String) : ¬ HasTerminator (docLinesComment margin lines).toList := by
  have hlines : ¬ HasTerminator
      ((String.join (lines.map fun s => margin ++ Builder.docLine s ++ "\n")).toList ++
        (margin.toList ++ [' '])) := by
    induction lines with
    | nil => simp [hasTerminator_margin hm, hasTerminator_cons, not_hasTerminator_nil]
    | cons s rest ih =>
      have hs := not_hasTerminator_docLine s
      have hsplit :
          (String.join ((s :: rest).map fun s => margin ++ Builder.docLine s ++ "\n")).toList ++
          (margin.toList ++ [' ']) = margin.toList ++ ((Builder.docLine s).toList ++ '\n' ::
            ((String.join (rest.map fun s => margin ++ Builder.docLine s ++ "\n")).toList ++
              (margin.toList ++ [' ']))) := by
        simp
      rw [hsplit, hasTerminator_margin hm, hasTerminator_append_cons (by decide) (by decide)]
      exact not_or.mpr ⟨hs, ih⟩
  simpa [docLinesComment, hasTerminator_cons] using hlines

theorem closesAtEnd_commentChunk {margin comment : String} (hm : IsMargin margin)
    (hstar : comment.toList.head? = some '*') (hc : ¬ HasTerminator comment.toList) :
    ClosesAtEnd (commentChunk margin comment).toList := by
  have hbody : ¬ HasTerminator (margin.toList ++ ('/' :: '*' :: comment.toList)) := by
    rw [hasTerminator_margin hm]
    simp [hasTerminator_cons, hstar, hc]
  have hchunk : (commentChunk margin comment).toList =
      margin.toList ++ ('/' :: '*' :: comment.toList) ++ ['*', '/', '\n'] := by
    simp [commentChunk]
  rw [hchunk]
  exact closesAtEnd_of_not_hasTerminator hbody

/-! Reading -/

/-- Where a reader of code stands. -/
inductive Mode
  | code
  /-- In a literal with this quote. -/
  | literal (quote : Char)
  | lineComment
  /-- In a comment of which this has been read. -/
  | comment (held : List Char)

def isQuote (c : Char) : Bool := c == '\'' || c == '"' || c == '\x60'

/-- A literal ends at the next such quote. For strict readers, as those of the language are, a line
break ends it as well, a template apart; lenient ones read on. -/
def endsLiteral (strict : Bool) (quote c : Char) : Bool :=
  c == quote || (strict && quote != '\x60' && TypeScript.Literal.isLineBreak c)

/-- The comments that a reader finds, each without its two marks. -/
def comments (strict : Bool) : Mode → List Char → List String
  | .code, '/' :: '*' :: rest => comments strict (.comment []) rest
  | .code, '/' :: '/' :: rest => comments strict .lineComment rest
  | .code, c :: rest => comments strict (if isQuote c then .literal c else .code) rest
  | .literal quote, '\\' :: _ :: rest => comments strict (.literal quote) rest
  | .literal quote, c :: rest =>
    comments strict (if endsLiteral strict quote c then .code else .literal quote) rest
  | .lineComment, c :: rest => comments strict (if c = '\n' then .code else .lineComment) rest
  | .comment held, '*' :: '/' :: rest => String.ofList held :: comments strict .code rest
  | .comment held, c :: rest => comments strict (.comment (held ++ [c])) rest
  | _, [] => []

/-- From code to code, a reader of the text finds these comments. -/
def Reads (strict : Bool) (s : String) (cs : List String) : Prop :=
  ∀ rest, comments strict .code (s.toList ++ rest) = cs ++ comments strict .code rest

/-- No line break stands in the text. -/
def OnOneLine (s : String) : Prop := ∀ c ∈ s.toList, TypeScript.Literal.isLineBreak c = false

instance (s : String) : Decidable (OnOneLine s) := List.decidableBAll _ s.toList

variable {strict : Bool}

theorem Reads.comments_eq {s : String} {cs : List String} (h : Reads strict s cs) :
    comments strict .code s.toList = cs := by
  have hs := h []
  simpa [comments] using hs

theorem Reads.append {s t : String} {cs ds : List String} (hs : Reads strict s cs)
    (ht : Reads strict t ds) : Reads strict (s ++ t) (cs ++ ds) := by
  intro rest
  rw [String.toList_append, List.append_assoc, hs, ht, List.append_assoc]

/-- Code that neither begins a comment nor a literal. -/
def IsQuiet (s : String) : Prop := ∀ c ∈ s.toList, c ≠ '/' ∧ isQuote c = false

instance (s : String) : Decidable (IsQuiet s) :=
  decidable_of_iff (s.toList.all (fun c => c != '/' && !isQuote c) = true) (by simp [IsQuiet])

theorem IsQuiet.append {s t : String} (hs : IsQuiet s) (ht : IsQuiet t) : IsQuiet (s ++ t) := by
  rw [IsQuiet, String.toList_append]
  exact List.forall_mem_append.mpr ⟨hs, ht⟩

theorem comments_code_cons {c : Char} (hc : c ≠ '/') (rest : List Char) :
    comments strict .code (c :: rest) =
      comments strict (if isQuote c then .literal c else .code) rest := by
  apply comments.eq_3
  · exact fun _ h _ => hc h
  · exact fun _ h _ => hc h

theorem IsQuiet.reads {s : String} (h : IsQuiet s) : Reads strict s [] := by
  intro rest
  rw [IsQuiet] at h
  generalize s.toList = cs at h ⊢
  induction cs with
  | nil => rfl
  | cons c cs ih =>
    obtain ⟨⟨hslash, hquote⟩, hcs⟩ := List.forall_mem_cons.mp h
    rw [List.cons_append, comments_code_cons hslash, hquote]
    exact ih hcs

/-- No escaped character ends a literal, but for line breaks, which are not escaped. -/
theorem comments_escapeChar {c : Char}
    (h : strict = true → TypeScript.Literal.isLineBreak c = false) (rest : List Char) :
    comments strict (.literal '\'') (TypeScript.escapeChar c ++ rest) =
      comments strict (.literal '\'') rest := by
  by_cases hb : c = '\\'
  · subst hb
    simp [TypeScript.escapeChar, comments.eq_4]
  by_cases hq : c = '\''
  · subst hq
    simp [TypeScript.escapeChar, comments.eq_4]
  have hinside : endsLiteral strict '\'' c = false := by
    cases strict with
    | true => simp [endsLiteral, hq, h rfl]
    | false => simp [endsLiteral, hq]
  have hstep := comments.eq_5 strict '\'' c rest fun _ _ h _ => hb h
  simpa [TypeScript.escapeChar, hb, hq, hinside] using hstep

theorem comments_escaped {cs : List Char}
    (h : strict = true → ∀ c ∈ cs, TypeScript.Literal.isLineBreak c = false) (rest : List Char) :
    comments strict (.literal '\'') (cs.flatMap TypeScript.escapeChar ++ rest) =
      comments strict (.literal '\'') rest := by
  induction cs with
  | nil => rfl
  | cons c cs ih =>
    have hc := fun hs => List.forall_mem_cons.mp (h hs)
    rw [List.flatMap_cons, List.append_assoc, comments_escapeChar fun hs => (hc hs).1,
      ih fun hs => (hc hs).2]

theorem reads_stringLiteral {s : String} (h : strict = true → OnOneLine s) :
    Reads strict (TypeScript.stringLiteral s) [] := by
  intro rest
  have hopen : comments strict .code
      ('\'' :: (s.toList.flatMap TypeScript.escapeChar ++ '\'' :: rest)) =
      comments strict (.literal '\'') (s.toList.flatMap TypeScript.escapeChar ++ '\'' :: rest) := by
    rw [comments_code_cons (by decide)]
    rfl
  have hclose : comments strict (.literal '\'') ('\'' :: rest) = comments strict .code rest := by
    have hstep := comments.eq_5 strict '\'' '\'' rest fun _ _ h _ => absurd h (by decide)
    simpa [endsLiteral] using hstep
  rw [comments_escaped h, hclose] at hopen
  simpa [TypeScript.toList_stringLiteral] using hopen

/-- A comment goes on to the first terminator. -/
theorem comments_comment {body : List Char} (h : ¬ HasTerminator body) (held rest : List Char) :
    comments strict (.comment held) (body ++ '*' :: '/' :: rest) =
      String.ofList (held ++ body) :: comments strict .code rest := by
  induction body generalizing held with
  | nil => rw [List.nil_append, comments.eq_7, List.append_nil]
  | cons c body ih =>
    obtain ⟨hc, hbody⟩ := not_or.mp (mt hasTerminator_cons.mpr h)
    have hstep := comments.eq_8 strict held c (body ++ '*' :: '/' :: rest) fun after hstar he => by
      cases body with
      | nil => simp at he
      | cons d body =>
        simp only [List.cons_append, List.cons.injEq] at he
        exact hc ⟨hstar, by rw [he.1, List.head?_cons]⟩
    rw [List.cons_append, hstep, ih hbody, List.append_assoc, List.singleton_append]

theorem IsMargin.isQuiet {margin : String} (h : IsMargin margin) : IsQuiet margin := by
  intro c hc
  rcases h c hc with rfl | rfl
  · decide
  · decide

theorem reads_commentChunk {margin comment : String} (hm : IsMargin margin)
    (hc : ¬ HasTerminator comment.toList) :
    Reads strict (commentChunk margin comment) [comment] := by
  have hcomment : Reads strict ("/*" ++ comment ++ "*/") [comment] := by
    intro rest
    have hbody : comments strict (.comment []) (comment.toList ++ '*' :: '/' :: rest) = _ :=
      comments_comment hc [] rest
    rw [List.nil_append, String.ofList_toList] at hbody
    rw [List.singleton_append, ← hbody]
    simp [comments.eq_1]
  have hend : IsQuiet "\n" := by decide
  have hchunk : commentChunk margin comment = margin ++ ("/*" ++ comment ++ "*/" ++ "\n") := by
    simp [commentChunk, String.append_assoc]
  rw [hchunk]
  exact hm.isQuiet.reads.append (hcomment.append hend.reads)

end TypedApi.Code
