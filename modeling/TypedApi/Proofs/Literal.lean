import TypedApi.Proofs.Words
import TypedApi.Text.Digit
import TypedApi.TypeScript.ClientFile

/-!
What the literals of a file stand for. A reader in the sense of ECMAScript is put beside the writer:
the escapes that are written stand for the characters that were escaped, and the quote that ends a
literal is the one behind the text. Line breaks are not escaped, so a literal is well-formed only
if its text has none.
-/
namespace TypedApi

namespace Text

/-- A character in UTF-16. -/
def units (c : Char) : List Nat :=
  if c.toNat < 0x10000 then [c.toNat]
  else [0xD800 + (c.toNat - 0x10000) / 0x400, 0xDC00 + (c.toNat - 0x10000) % 0x400]

def utf16 (s : List Char) : List Nat := s.flatMap units

theorem toNat_valid (c : Char) :
    c.toNat < 0xD800 ∨ (0xDFFF < c.toNat ∧ c.toNat < 0x110000) := c.valid

theorem units_ne_nil (c : Char) : units c ≠ [] := by
  unfold units
  split
  · simp
  · simp

/-- The first of two units is no character of its own, so the units of a character do not begin
those of another. -/
theorem units_append_inj {c d : Char} {s t : List Nat} (h : units c ++ s = units d ++ t) :
    c = d ∧ s = t := by
  have hc := toNat_valid c
  have hd := toNat_valid d
  unfold units at h
  split at h
  · split at h
    · simp only [List.cons_append, List.nil_append, List.cons.injEq] at h
      exact ⟨Char.toNat_inj.mp h.1, h.2⟩
    · simp only [List.cons_append, List.nil_append, List.cons.injEq] at h
      omega
  · split at h
    · simp only [List.cons_append, List.nil_append, List.cons.injEq] at h
      omega
    · simp only [List.cons_append, List.nil_append, List.cons.injEq] at h
      obtain ⟨hhigh, hlow, hrest⟩ := h
      exact ⟨Char.toNat_inj.mp (by omega), hrest⟩

theorem utf16_injective {s t : List Char} (h : utf16 s = utf16 t) : s = t := by
  induction s generalizing t with
  | nil =>
    cases t with
    | nil => rfl
    | cons d t => simp [utf16, units_ne_nil] at h
  | cons c s ih =>
    cases t with
    | nil => simp [utf16, units_ne_nil] at h
    | cons d t =>
      obtain ⟨rfl, hrest⟩ := units_append_inj h
      rw [ih hrest]

end Text

namespace TypeScript

/-- What both replacements make of a character. The backslashes that the second one adds are not
escaped again. -/
def escapeChar (c : Char) : List Char :=
  if c = '\\' then ['\\', '\\'] else if c = '\'' then ['\\', '\''] else [c]

theorem toList_stringLiteral (s : String) :
    (stringLiteral s).toList = '\'' :: (s.toList.flatMap escapeChar ++ ['\'']) := by
  have hchar : ∀ c, replaceChar '\'' ['\\', '\''] (if c = '\\' then ['\\', '\\'] else [c]) =
      escapeChar c := by
    intro c
    by_cases hc : c = '\\'
    · subst hc
      rfl
    · simp [escapeChar, replaceChar, hc]
  have hboth : replaceChar '\'' ['\\', '\''] (replaceChar '\\' ['\\', '\\'] s.toList) =
      s.toList.flatMap escapeChar := by
    rw [replaceChar, replaceChar, List.flatMap_assoc]
    exact congrArg s.toList.flatMap (funext hchar)
  rw [stringLiteral, hboth, String.toList_ofList, List.cons_append]

/-- A literal as it is read. -/
structure Literal where
  /-- What it stands for, in UTF-16. -/
  units : List Nat := []
  /-- The line breaks that stand in it as they are. -/
  lineBreaks : List Char := []
deriving DecidableEq, Repr

namespace Literal

/-- The line breaks that end a line inside a literal; those outside ASCII do not. -/
def isLineBreak (c : Char) : Bool := c == '\n' || c == '\r'

def IsWellFormed (l : Literal) : Prop := l.lineBreaks = []

instance (l : Literal) : Decidable l.IsWellFormed := inferInstanceAs (Decidable (_ = _))

def ofText (s : String) : Literal := ⟨Text.utf16 s.toList, s.toList.filter isLineBreak⟩

/-- The literal with an escape in front. -/
def behind (us : List Nat) (l : Literal) : Literal := { l with units := us ++ l.units }

/-- The literal with a character in front that stands for itself. -/
def cons (c : Char) (l : Literal) : Literal where
  units := Text.units c ++ l.units
  lineBreaks := if isLineBreak c then c :: l.lineBreaks else l.lineBreaks

/-- The control characters that an escape calls by a letter. -/
def control? : Char → Option Nat
  | 'b' => some 0x8
  | 't' => some 0x9
  | 'n' => some 0xA
  | 'v' => some 0xB
  | 'f' => some 0xC
  | 'r' => some 0xD
  | _ => none

/-- What the escape behind a backslash stands for, and its length. An escaped line break stands for
nothing; digits are refused, a single zero apart. -/
def escape? : List Char → Option (List Nat × Nat)
  | 'u' :: '{' :: rest => do
    let digits := rest.takeWhile (· ≠ '}')
    let n ← Text.hexNumber? digits
    if digits.isEmpty || n ≥ 0x110000 then none
    else if n < 0x10000 then return ([n], digits.length + 3)
    else return (Text.units (Char.ofNat n), digits.length + 3)
  | 'u' :: a :: b :: c :: d :: _ => (Text.hexNumber? [a, b, c, d]).map fun n => ([n], 5)
  | 'x' :: a :: b :: _ => (Text.hexNumber? [a, b]).map fun n => ([n], 3)
  | '\r' :: '\n' :: _ => some ([], 2)
  | '0' :: rest => if rest.head?.any Char.isDigit then none else some ([0], 1)
  | c :: _ =>
    if c ∈ ['\n', '\r', '\u2028', '\u2029'] then some ([], 1)
    else if c.isDigit || c == 'x' || c == 'u' then none
    else some ((control? c).elim (Text.units c) ([·]), 1)
  | [] => none

/-- Reads a literal after its opening quote, up to and with the closing one. The first `skipped`
characters belong to an escape that has been read already. -/
def readFrom : Nat → List Char → Option (Literal × List Char)
  | _, [] => none
  | skipped + 1, _ :: rest => readFrom skipped rest
  | 0, c :: rest =>
    if c = '\'' then some ({}, rest)
    else if c = '\\' then
      match escape? rest with
      | some (us, length) => (readFrom length rest).map fun r => (r.1.behind us, r.2)
      | none => none
    else (readFrom 0 rest).map fun r => (r.1.cons c, r.2)

/-- Reads the literal that a text begins with, and returns what follows it. -/
def read? : List Char → Option (Literal × List Char)
  | '\'' :: rest => readFrom 0 rest
  | _ => none

/-- An escaped character stands for itself; one that is not escaped does so anyway. -/
theorem readFrom_escapeChar (c : Char) (rest : List Char) :
    readFrom 0 (escapeChar c ++ rest) = (readFrom 0 rest).map fun r => (r.1.cons c, r.2) := by
  by_cases hb : c = '\\'
  · subst hb
    have he : escape? ('\\' :: rest) = some (Text.units '\\', 1) := by simp [escape?, control?]
    simp [escapeChar, readFrom, he, cons, behind, isLineBreak]
  by_cases hq : c = '\''
  · subst hq
    have he : escape? ('\'' :: rest) = some (Text.units '\'', 1) := by simp [escape?, control?]
    simp [escapeChar, readFrom, he, cons, behind, isLineBreak]
  simp [escapeChar, hb, hq, readFrom]

theorem readFrom_escaped (s rest : List Char) :
    readFrom 0 (s.flatMap escapeChar ++ '\'' :: rest) =
      some (⟨Text.utf16 s, s.filter isLineBreak⟩, rest) := by
  induction s with
  | nil => simp [readFrom, Text.utf16]
  | cons c s ih =>
    have hcons : cons c ⟨Text.utf16 s, s.filter isLineBreak⟩ =
        ⟨Text.utf16 (c :: s), (c :: s).filter isLineBreak⟩ := by
      simp only [cons, Text.utf16, List.flatMap_cons, List.filter_cons]
    rw [List.flatMap_cons, List.append_assoc, readFrom_escapeChar, ih, Option.map_some, hcons]

theorem read?_stringLiteral (s : String) (rest : List Char) :
    read? ((stringLiteral s).toList ++ rest) = some (ofText s, rest) := by
  have h := readFrom_escaped s.toList rest
  simpa [toList_stringLiteral, read?, ofText] using h

theorem ofText_isWellFormed (s : String) :
    (ofText s).IsWellFormed ↔ '\n' ∉ s.toList ∧ '\r' ∉ s.toList := by
  rw [IsWellFormed, ofText, List.filter_eq_nil_iff]
  constructor
  · intro h
    exact ⟨fun hn => h _ hn (by decide), fun hr => h _ hr (by decide)⟩
  · rintro ⟨hn, hr⟩ c hc hbreak
    rw [isLineBreak, Bool.or_eq_true, beq_iff_eq, beq_iff_eq] at hbreak
    rcases hbreak with rfl | rfl
    · exact hn hc
    · exact hr hc

end Literal

/-- Whatever follows them, two literals are equal only if their texts are. -/
theorem stringLiteral_append_inj {a b : String} {s t : List Char}
    (h : (stringLiteral a).toList ++ s = (stringLiteral b).toList ++ t) : a = b ∧ s = t := by
  have ha := Literal.read?_stringLiteral a s
  rw [h, Literal.read?_stringLiteral b t, Option.some.injEq, Prod.mk.injEq] at ha
  have hu : Text.utf16 b.toList = Text.utf16 a.toList := congrArg Literal.units ha.1
  exact ⟨String.toList_injective (Text.utf16_injective hu.symm), ha.2.symm⟩

theorem propertyKey_of_isIdentifier {name : String} (h : Text.isIdentifier name.toList = true) :
    propertyKey name = name := by
  rw [propertyKey, if_pos h]

theorem propertyKey_of_not_isIdentifier {name : String}
    (h : Text.isIdentifier name.toList = false) : propertyKey name = stringLiteral name := by
  rw [propertyKey, h, if_neg Bool.false_ne_true]

/-- A key begins with a quote or like an identifier. -/
theorem propertyKey_head (name : String) :
    ∃ c rest, (propertyKey name).toList = c :: rest ∧ (c = '\'' ∨ Text.isIdentChar c = true) := by
  cases h : Text.isIdentifier name.toList with
  | true =>
    obtain ⟨c, rest, hname, -, hall⟩ := (Text.isIdentifier_iff _).mp h
    rw [propertyKey_of_isIdentifier h]
    exact ⟨c, rest, hname, .inr (hall c (by simp [hname]))⟩
  | false =>
    rw [propertyKey_of_not_isIdentifier h]
    exact ⟨'\'', name.toList.flatMap escapeChar ++ ['\''], toList_stringLiteral name, .inl rfl⟩

/-- Identifiers end where no identifier character follows, and literals at their quote. -/
theorem propertyKey_append_inj {a b : String} {s t : List Char}
    (hs : ∀ c ∈ s.head?, Text.isIdentChar c = false)
    (ht : ∀ c ∈ t.head?, Text.isIdentChar c = false)
    (h : (propertyKey a).toList ++ s = (propertyKey b).toList ++ t) : a = b ∧ s = t := by
  have hquote : Text.isIdentChar '\'' = false := by decide
  -- A literal begins with a quote, which no identifier does.
  have hmixed : ∀ {a b : String} {s t : List Char}, Text.isIdentifier a.toList = true →
      a.toList ++ s ≠ (stringLiteral b).toList ++ t := by
    intro a b s t ha he
    obtain ⟨c, rest, hname, -, hall⟩ := (Text.isIdentifier_iff _).mp ha
    have hc : Text.isIdentChar c = true := hall c (by simp [hname])
    simp only [hname, toList_stringLiteral, List.cons_append, List.cons.injEq] at he
    rw [he.1, hquote] at hc
    cases hc
  cases ha : Text.isIdentifier a.toList with
  | true =>
    rw [propertyKey_of_isIdentifier ha] at h
    cases hb : Text.isIdentifier b.toList with
    | true =>
      rw [propertyKey_of_isIdentifier hb] at h
      obtain ⟨hab, hst⟩ := Text.append_inj_of_all (Text.isIdentChar_of_isIdentifier ha)
        (Text.isIdentChar_of_isIdentifier hb) hs ht h
      exact ⟨String.toList_injective hab, hst⟩
    | false =>
      rw [propertyKey_of_not_isIdentifier hb] at h
      exact absurd h (hmixed ha)
  | false =>
    rw [propertyKey_of_not_isIdentifier ha] at h
    cases hb : Text.isIdentifier b.toList with
    | true =>
      rw [propertyKey_of_isIdentifier hb] at h
      exact absurd h.symm (hmixed hb)
    | false =>
      rw [propertyKey_of_not_isIdentifier hb] at h
      exact stringLiteral_append_inj h

theorem propertyKey_injective {a b : String} (h : propertyKey a = propertyKey b) : a = b :=
  (propertyKey_append_inj (s := []) (t := []) (by simp) (by simp) (by rw [h])).1

/-- The call begins with the literal of its address. -/
theorem callArguments_eq (file : ClientFile) :
    ∃ rest, file.callArguments = stringLiteral file.url ++ rest := by
  rw [ClientFile.callArguments]
  split
  · exact ⟨"", by simp⟩
  · split
    · exact ⟨_, rfl⟩
    · exact ⟨_, rfl⟩
  · exact ⟨_, rfl⟩

/-- Whatever follows it, the literal of a text ends behind the text and stands for it; it is
well-formed if and only if the text has no line break. Addresses of calls are written so, and keys
that are no identifiers. -/
theorem stringLiteral_reads (s : String) :
    (∀ rest, Literal.read? ((stringLiteral s).toList ++ rest) = some (.ofText s, rest)) ∧
    ((Literal.ofText s).IsWellFormed ↔ '\n' ∉ s.toList ∧ '\r' ∉ s.toList) ∧
    (∀ file : ClientFile, ∃ arguments,
      Literal.read? file.callArguments.toList = some (.ofText file.url, arguments)) ∧
    (Text.isIdentifier s.toList = true ∧ propertyKey s = s ∨
      Literal.read? (propertyKey s).toList = some (.ofText s, [])) := by
  refine ⟨Literal.read?_stringLiteral s, Literal.ofText_isWellFormed s, ?_, ?_⟩
  · intro file
    obtain ⟨arguments, ha⟩ := callArguments_eq file
    refine ⟨arguments.toList, ?_⟩
    rw [ha, String.toList_append, Literal.read?_stringLiteral]
  · cases hs : Text.isIdentifier s.toList with
    | true => exact Or.inl ⟨rfl, propertyKey_of_isIdentifier hs⟩
    | false =>
      have hread := Literal.read?_stringLiteral s []
      rw [List.append_nil] at hread
      exact Or.inr (by rw [propertyKey_of_not_isIdentifier hs, hread])

/-- A line feed stays in the literal as it is. -/
theorem stringLiteral_line_feed :
    ∃ l, Literal.read? (stringLiteral "a\nb").toList = some (l, []) ∧ ¬ l.IsWellFormed :=
  ⟨⟨[0x61, 0xA, 0x62], ['\n']⟩, by decide +kernel, by decide⟩

end TypeScript
end TypedApi
