import Mathlib.Data.List.Basic
import TypedApi.Text.Words

/-!
The characters that are left once the words of a text are put together. The splitting keeps only
ASCII, whatever the text is, so that no letter changes its case beyond ASCII.
-/
namespace TypedApi.Text

/-- A finite check settles a property of ASCII characters. -/
theorem forall_ascii {P : Char → Prop} (h : ∀ n < 0x80, P (Char.ofNat n)) {c : Char}
    (hc : c.toNat < 0x80) : P c := by
  rw [← Char.ofNat_toNat c]
  exact h c.toNat hc

theorem isIdentChar_ascii {c : Char} (h : isIdentChar c = true) : c.toNat < 0x80 := by
  unfold isIdentChar Char.isAlphanum Char.isAlpha Char.isUpper Char.isLower Char.isDigit at h
  simp only [Bool.or_eq_true, Bool.and_eq_true, decide_eq_true_eq, beq_iff_eq,
    UInt32.le_iff_toNat_le, ge_iff_le] at h
  change ((((65 ≤ c.toNat ∧ c.toNat ≤ 90) ∨ (97 ≤ c.toNat ∧ c.toNat ≤ 122)) ∨
    (48 ≤ c.toNat ∧ c.toNat ≤ 57)) ∨ c = '_') ∨ c = '$' at h
  rcases h with ((((h | h) | h) | rfl) | rfl)
  · omega
  · omega
  · omega
  · decide
  · decide

theorem isIdentChar_of_isAlphanum {c : Char} (h : c.isAlphanum = true) :
    isIdentChar c = true := by
  simp [isIdentChar, h]

theorem isAlphanum_of_isUpper {c : Char} (h : c.isUpper = true) : c.isAlphanum = true := by
  show (c.isUpper || c.isLower || c.isDigit) = true
  rw [h, Bool.true_or, Bool.true_or]

theorem isIdentChar_toUpper {c : Char} (h : isIdentChar c = true) :
    isIdentChar c.toUpper = true :=
  forall_ascii (P := fun c => isIdentChar c = true → isIdentChar c.toUpper = true)
    (by decide +kernel) (isIdentChar_ascii h) h

theorem isAlphanum_toUpper {c : Char} (h : c.isAlphanum = true) : c.toUpper.isAlphanum = true :=
  forall_ascii (P := fun c => c.isAlphanum = true → c.toUpper.isAlphanum = true)
    (by decide +kernel) (isIdentChar_ascii (isIdentChar_of_isAlphanum h)) h

theorem isAlphanum_toLower {c : Char} (h : c.isAlphanum = true) : c.toLower.isAlphanum = true :=
  forall_ascii (P := fun c => c.isAlphanum = true → c.toLower.isAlphanum = true)
    (by decide +kernel) (isIdentChar_ascii (isIdentChar_of_isAlphanum h)) h

/-- On ASCII a letter is mapped to one letter. -/
theorem capitalizeFirst_ascii {c : Char} (hc : c.toNat < 0x80) (rest : List Char) :
    capitalizeFirst (c :: rest) = c.toUpper :: rest := by
  simp [capitalizeFirst, upperChar, hc]

theorem lowercaseFirst_ascii {c : Char} (hc : c.toNat < 0x80) (rest : List Char) :
    lowercaseFirst (c :: rest) = c.toLower :: rest := by
  simp [lowercaseFirst, lowerChar, hc]

/-- A class of ASCII characters that holds both cases of its letters keeps its words. -/
theorem forall_mem_capitalizeFirst {P : Char → Prop} (hascii : ∀ c, P c → c.toNat < 0x80)
    (hupper : ∀ c, P c → P c.toUpper) {word : List Char} (h : ∀ c ∈ word, P c) :
    ∀ c ∈ capitalizeFirst word, P c := by
  cases word with
  | nil => exact h
  | cons c rest =>
    obtain ⟨hc, hrest⟩ := List.forall_mem_cons.mp h
    rw [capitalizeFirst_ascii (hascii c hc)]
    exact List.forall_mem_cons.mpr ⟨hupper c hc, hrest⟩

theorem forall_mem_lowercaseFirst {P : Char → Prop} (hascii : ∀ c, P c → c.toNat < 0x80)
    (hlower : ∀ c, P c → P c.toLower) {word : List Char} (h : ∀ c ∈ word, P c) :
    ∀ c ∈ lowercaseFirst word, P c := by
  cases word with
  | nil => exact h
  | cons c rest =>
    obtain ⟨hc, hrest⟩ := List.forall_mem_cons.mp h
    rw [lowercaseFirst_ascii (hascii c hc)]
    exact List.forall_mem_cons.mpr ⟨hlower c hc, hrest⟩

theorem pieces_ne_nil (isSeparator : Char → Bool) (s : List Char) : pieces isSeparator s ≠ [] := by
  cases s with
  | nil => simp [pieces]
  | cons c rest =>
    unfold pieces
    split
    · simp
    · split
      · simp
      · simp

theorem pieces_append_cons {isSeparator : Char → Bool} {c : Char} (hc : isSeparator c = true)
    (a b : List Char) :
    pieces isSeparator (a ++ c :: b) = pieces isSeparator a ++ pieces isSeparator b := by
  induction a with
  | nil => simp [pieces, hc]
  | cons d a ih =>
    rw [List.cons_append, pieces, pieces, ih]
    cases hd : isSeparator d with
    | true => simp
    | false =>
      cases ha : pieces isSeparator a with
      | nil => exact absurd ha (pieces_ne_nil _ a)
      | cons word words => simp

theorem pieces_of_none {isSeparator : Char → Bool} {s : List Char}
    (h : ∀ c ∈ s, isSeparator c = false) : pieces isSeparator s = [s] := by
  induction s with
  | nil => rfl
  | cons c rest ih =>
    obtain ⟨hc, hrest⟩ := List.forall_mem_cons.mp h
    simp [pieces, hc, ih hrest]

/-- No piece holds a separator. -/
theorem mem_pieces {isSeparator : Char → Bool} {s word : List Char}
    (h : word ∈ pieces isSeparator s) : ∀ c ∈ word, isSeparator c = false := by
  induction s generalizing word with
  | nil => simp_all [pieces]
  | cons d rest ih =>
    rw [pieces] at h
    cases hd : isSeparator d with
    | true =>
      simp only [hd, if_true, List.mem_cons] at h
      rcases h with rfl | h
      · simp
      · exact ih h
    | false =>
      simp only [hd, Bool.false_eq_true, if_false] at h
      cases hp : pieces isSeparator rest with
      | nil =>
        simp only [hp, List.mem_singleton] at h
        simp [h, hd]
      | cons first others =>
        simp only [hp, List.mem_cons] at h
        rcases h with rfl | h
        · exact List.forall_mem_cons.mpr ⟨hd, ih (hp ▸ List.mem_cons_self ..)⟩
        · exact ih (hp ▸ List.mem_cons_of_mem _ h)

theorem flatMap_filter_not_isEmpty {α : Type} {f : List Char → List α} (hf : f [] = [])
    (parts : List (List Char)) : (parts.filter (!·.isEmpty)).flatMap f = parts.flatMap f := by
  induction parts with
  | nil => rfl
  | cons part parts ih =>
    rw [List.filter_cons, List.flatMap_cons, ← ih]
    cases part with
    | nil => simp [hf]
    | cons c part => simp

theorem isAlphanum_ascii {c : Char} (h : c.isAlphanum = true) : c.toNat < 0x80 :=
  isIdentChar_ascii (isIdentChar_of_isAlphanum h)

/-! Words with a capital in front -/

/-- A class of ASCII characters that has the capitals of its letters. -/
structure IsWordClass (keeps : Char → Bool) : Prop where
  ascii : ∀ c, keeps c = true → c.toNat < 0x80
  upper : ∀ c, keeps c = true → keeps c.toUpper = true

/-- The words that a class of characters leaves of a text, each with a capital in front. -/
def capitalized (keeps : Char → Bool) (s : List Char) : List Char :=
  (pieces (fun c => !keeps c) s).flatMap capitalizeFirst

theorem keeps_of_mem_pieces {keeps : Char → Bool} {s word : List Char}
    (h : word ∈ pieces (fun c => !keeps c) s) : ∀ c ∈ word, keeps c = true := by
  intro c hc
  simpa using mem_pieces h c hc

/-- A change of case does not lead out of the class. -/
theorem IsWordClass.keeps_capitalized {keeps : Char → Bool} (hk : IsWordClass keeps)
    (s : List Char) : ∀ c ∈ capitalized keeps s, keeps c = true := by
  intro c hc
  obtain ⟨word, hw, hc⟩ := List.mem_flatMap.mp hc
  exact forall_mem_capitalizeFirst hk.ascii hk.upper (keeps_of_mem_pieces hw) c hc

theorem IsWordClass.ascii_of_mem_pieces {keeps : Char → Bool} (hk : IsWordClass keeps)
    {s : List Char} : ∀ word ∈ pieces (fun c => !keeps c) s, ∀ c ∈ word, c.toNat < 0x80 :=
  fun _ hword c hc => hk.ascii c (keeps_of_mem_pieces hword c hc)

/-- The characters that a segment leaves in a type name. -/
def isWordChar (c : Char) : Bool := c.isAlphanum || c == '$'

theorem isWordChar_eq (c : Char) : isWordChar c = (isIdentChar c && c != '_') := by
  by_cases hc : c = '_'
  · subst hc
    decide
  · have hb : (c == '_') = false := beq_eq_false_iff_ne.mpr hc
    simp [isWordChar, isIdentChar, bne, hb]

theorem isIdentChar_of_isWordChar {c : Char} (h : isWordChar c = true) : isIdentChar c = true := by
  rw [isWordChar_eq, Bool.and_eq_true] at h
  exact h.1

theorem isWordChar_ascii {c : Char} (h : isWordChar c = true) : c.toNat < 0x80 :=
  isIdentChar_ascii (isIdentChar_of_isWordChar h)

theorem isWordChar_toUpper {c : Char} (h : c.toNat < 0x80) :
    isWordChar c.toUpper = isWordChar c :=
  forall_ascii (P := fun c => isWordChar c.toUpper = isWordChar c) (by decide +kernel) h

theorem isWordChar_toLower {c : Char} (h : c.toNat < 0x80) :
    isWordChar c.toLower = isWordChar c :=
  forall_ascii (P := fun c => isWordChar c.toLower = isWordChar c) (by decide +kernel) h

theorem isWordClass_isIdentChar : IsWordClass isIdentChar where
  ascii _ := isIdentChar_ascii
  upper _ := isIdentChar_toUpper

theorem isWordClass_isAlphanum : IsWordClass Char.isAlphanum where
  ascii _ := isAlphanum_ascii
  upper _ := isAlphanum_toUpper

theorem isWordClass_isWordChar : IsWordClass isWordChar where
  ascii _ := isWordChar_ascii
  upper c h := by rw [isWordChar_toUpper (isWordChar_ascii h), h]

/-- In Pascal case a text is what all other characters leave of it, put together. -/
theorem pascalCase_eq (s : List Char) : pascalCase s = capitalized isWordChar s := by
  have hsep : ∀ c, (c == '-' || c == '_' || !isIdentChar c) = !isWordChar c := by
    intro c
    rw [isWordChar_eq]
    by_cases hc : c = '-'
    · subst hc
      decide
    · have hb : (c == '-') = false := beq_eq_false_iff_ne.mpr hc
      simp [hb, bne, Bool.or_comm]
  rw [pascalCase, capitalized, funext hsep]

theorem capitalizeWords_eq (s : List Char) : capitalizeWords s = capitalized isIdentChar s := rfl

theorem pascalCase_isIdentChar (s : List Char) : ∀ c ∈ pascalCase s, isIdentChar c = true := by
  rw [pascalCase_eq]
  exact fun c hc => isIdentChar_of_isWordChar (isWordClass_isWordChar.keeps_capitalized s c hc)

theorem capitalizeWords_isIdentChar (s : List Char) :
    ∀ c ∈ capitalizeWords s, isIdentChar c = true := by
  rw [capitalizeWords_eq]
  exact isWordClass_isIdentChar.keeps_capitalized s

theorem camelCase_isAlphanum (s : List Char) : ∀ c ∈ camelCase s, c.isAlphanum = true := by
  have hpieces : ∀ word ∈ (pieces (fun c => !c.isAlphanum) s).filter (!·.isEmpty),
      ∀ c ∈ word, c.isAlphanum = true :=
    fun word hw => keeps_of_mem_pieces (List.mem_filter.mp hw).1
  rw [camelCase]
  split
  · simp
  · next word words heq =>
    rw [heq] at hpieces
    obtain ⟨hword, hwords⟩ := List.forall_mem_cons.mp hpieces
    intro c hc
    rcases List.mem_append.mp hc with hc | hc
    · exact forall_mem_lowercaseFirst (fun _ => isAlphanum_ascii) (fun _ => isAlphanum_toLower)
        hword c hc
    · obtain ⟨w, hw, hc⟩ := List.mem_flatMap.mp hc
      exact forall_mem_capitalizeFirst (fun _ => isAlphanum_ascii) (fun _ => isAlphanum_toUpper)
        (hwords w hw) c hc

theorem isIdentifier_iff (s : List Char) :
    isIdentifier s = true ↔ ∃ c rest, s = c :: rest ∧ c.isDigit = false ∧
      ∀ d ∈ s, isIdentChar d = true := by
  cases s with
  | nil => simp [isIdentifier]
  | cons c rest => simp [isIdentifier, and_comm, and_assoc]

theorem isIdentChar_of_isIdentifier {s : List Char} (h : isIdentifier s = true) :
    ∀ c ∈ s, isIdentChar c = true := by
  obtain ⟨_, _, _, _, hall⟩ := (isIdentifier_iff s).mp h
  exact hall

/-- Characters of one kind end where another kind begins. -/
theorem append_inj_of_all {p : Char → Bool} {a b s t : List Char} (ha : ∀ c ∈ a, p c = true)
    (hb : ∀ c ∈ b, p c = true) (hs : ∀ c ∈ s.head?, p c = false)
    (ht : ∀ c ∈ t.head?, p c = false) (h : a ++ s = b ++ t) : a = b ∧ s = t := by
  have htake : ∀ {a s : List Char}, (∀ c ∈ a, p c = true) → (∀ c ∈ s.head?, p c = false) →
      (a ++ s).takeWhile p = a := by
    intro a s ha hs
    rw [List.takeWhile_append_of_pos ha]
    cases s with
    | nil => simp
    | cons c s => simp [hs c rfl]
  have hab : a = b := by rw [← htake ha hs, h, htake hb ht]
  subst hab
  exact ⟨rfl, List.append_cancel_left h⟩

theorem isIdentifier_append {s t : List Char} (hs : isIdentifier s = true)
    (ht : ∀ c ∈ t, isIdentChar c = true) : isIdentifier (s ++ t) = true := by
  obtain ⟨c, rest, rfl, hc, hall⟩ := (isIdentifier_iff s).mp hs
  refine (isIdentifier_iff _).mpr ⟨c, rest ++ t, rfl, hc, ?_⟩
  intro d hd
  rcases List.mem_append.mp hd with hd | hd
  · exact hall d hd
  · exact ht d hd

/-- The guard against a digit in front is all that a text of identifier characters lacks. -/
theorem guardDigit_isIdentifier {s : List Char} (hne : s ≠ [])
    (hs : ∀ c ∈ s, isIdentChar c = true) : isIdentifier (guardDigit s) = true := by
  obtain ⟨c, rest, rfl⟩ := List.exists_cons_of_ne_nil hne
  rw [guardDigit]
  cases hc : c.isDigit with
  | true =>
    refine (isIdentifier_iff _).mpr ⟨'_', c :: rest, by simp, by decide, ?_⟩
    exact List.forall_mem_cons.mpr ⟨by decide, hs⟩
  | false => exact (isIdentifier_iff _).mpr ⟨c, rest, by simp, hc, hs⟩

theorem sublist_guardDigit (s : List Char) : s.Sublist (guardDigit s) := by
  cases s with
  | nil => exact List.Sublist.refl _
  | cons c rest =>
    rw [guardDigit]
    split
    · exact List.sublist_cons_self ..
    · exact List.Sublist.refl _

theorem mem_guardDigit {s : List Char} {c : Char} (h : c ∈ s) : c ∈ guardDigit s :=
  (sublist_guardDigit s).subset h

/-! How much of a text its words keep -/

/-- Word characters are neither lost nor gained when a name is put together, up to the few that a
change of case can add. -/
def weight (s : List Char) : Nat := s.countP isWordChar

theorem weight_append (s t : List Char) : weight (s ++ t) = weight s + weight t :=
  List.countP_append

theorem weight_capitalizeFirst {word : List Char} (h : ∀ c ∈ word, c.toNat < 0x80) :
    weight (capitalizeFirst word) = weight word := by
  cases word with
  | nil => rfl
  | cons c rest =>
    have hc : c.toNat < 0x80 := h c (List.mem_cons_self ..)
    rw [capitalizeFirst_ascii hc, weight, weight, List.countP_cons, List.countP_cons,
      isWordChar_toUpper hc]

theorem weight_lowercaseFirst {word : List Char} (h : ∀ c ∈ word, c.toNat < 0x80) :
    weight (lowercaseFirst word) = weight word := by
  cases word with
  | nil => rfl
  | cons c rest =>
    have hc : c.toNat < 0x80 := h c (List.mem_cons_self ..)
    rw [lowercaseFirst_ascii hc, weight, weight, List.countP_cons, List.countP_cons,
      isWordChar_toLower hc]

theorem weight_flatMap_capitalizeFirst {words : List (List Char)}
    (h : ∀ word ∈ words, ∀ c ∈ word, c.toNat < 0x80) :
    weight (words.flatMap capitalizeFirst) = weight words.flatten := by
  induction words with
  | nil => rfl
  | cons word words ih =>
    obtain ⟨hword, hwords⟩ := List.forall_mem_cons.mp h
    rw [List.flatMap_cons, List.flatten_cons, weight_append, weight_append,
      weight_capitalizeFirst hword, ih hwords]

/-- The pieces of a text are what its separators leave. -/
theorem flatten_pieces (isSeparator : Char → Bool) (s : List Char) :
    (pieces isSeparator s).flatten = s.filter fun c => !isSeparator c := by
  induction s with
  | nil => rfl
  | cons c rest ih =>
    rw [pieces]
    cases hc : isSeparator c with
    | true => simpa [hc] using ih
    | false =>
      cases hp : pieces isSeparator rest with
      | nil => simpa [hc, hp] using ih
      | cons word words => simpa [hc, hp] using ih

theorem weight_pascalCase (s : List Char) : weight (pascalCase s) = weight s := by
  have hascii := isWordClass_isWordChar.ascii_of_mem_pieces (s := s)
  rw [pascalCase_eq, capitalized, weight_flatMap_capitalizeFirst hascii, flatten_pieces, weight,
    weight, List.countP_filter]
  simp only [Bool.not_not, Bool.and_self]

theorem weight_camelCase_le (s : List Char) : weight (camelCase s) ≤ weight s := by
  let words := (pieces (fun c => !c.isAlphanum) s).filter (!·.isEmpty)
  have hascii : ∀ word ∈ words, ∀ c ∈ word, c.toNat < 0x80 := fun word hw =>
    isWordClass_isAlphanum.ascii_of_mem_pieces word (List.mem_filter.mp hw).1
  have hcamel : weight (camelCase s) = weight words.flatten := by
    rw [camelCase]
    split
    · next heq => rw [show words = [] from heq, List.flatten_nil]
    · next word rest heq =>
      rw [show words = word :: rest from heq] at hascii ⊢
      obtain ⟨hword, hrest⟩ := List.forall_mem_cons.mp hascii
      rw [weight_append, weight_lowercaseFirst hword, weight_flatMap_capitalizeFirst hrest,
        List.flatten_cons, weight_append]
  rw [hcamel, List.flatten_filter_not_isEmpty, flatten_pieces]
  exact List.Sublist.countP_le List.filter_sublist

theorem length_lowerChar_le (c : Char) : (lowerChar c).length ≤ 2 := by
  rw [lowerChar]
  split
  · simp
  · rw [mapped]
    cases h : lowerExpansions.lookup c.toNat with
    | none => simp
    | some cs =>
      have htable : ∀ entry ∈ lowerExpansions, entry.2.length ≤ 2 := by decide
      obtain ⟨before, after, heq, -⟩ := List.lookup_eq_some_iff.mp h
      have hmem : (c.toNat, cs) ∈ lowerExpansions := by simp [heq]
      simpa using htable _ hmem

theorem weight_lowercaseFirst_le (s : List Char) : weight (lowercaseFirst s) ≤ weight s + 2 := by
  cases s with
  | nil => simp [lowercaseFirst, weight]
  | cons c rest =>
    have hhead : weight (lowerChar c) ≤ 2 :=
      Nat.le_trans List.countP_le_length (length_lowerChar_le c)
    have hrest : weight rest ≤ weight (c :: rest) := (List.sublist_cons_self c rest).countP_le
    rw [lowercaseFirst, weight_append]
    omega

theorem weight_guardDigit (s : List Char) : weight (guardDigit s) = weight s := by
  cases s with
  | nil => rfl
  | cons c rest =>
    rw [guardDigit]
    split
    · rw [weight, List.countP_cons_of_neg (by decide), weight]
    · rfl

end TypedApi.Text
