import Mathlib
import TypedApi.Proofs.Words

/-!
The three forms of a text, put together from its words. A word is what a class of ASCII characters
leaves of the text in one piece, and all that is done to it is to change the case of its first
letter. So a form consists of the characters of its class, it is its own form, it is empty only if
the text has none of them, and a text may be cut at any other character.
-/
namespace TypedApi.Text

theorem toUpper_ascii {c : Char} (h : c.toNat < 0x80) : c.toUpper.toNat < 0x80 :=
  forall_ascii (P := fun c => c.toUpper.toNat < 0x80) (by decide +kernel) h

theorem toLower_ascii {c : Char} (h : c.toNat < 0x80) : c.toLower.toNat < 0x80 :=
  forall_ascii (P := fun c => c.toLower.toNat < 0x80) (by decide +kernel) h

/-! Words of ASCII characters -/

section Word

variable {word : List Char} (h : ∀ c ∈ word, c.toNat < 0x80)
include h

theorem map_toLower_capitalizeFirst :
    (capitalizeFirst word).map Char.toLower = word.map Char.toLower := by
  cases word with
  | nil => rfl
  | cons c rest =>
    rw [capitalizeFirst_ascii (h c (List.mem_cons_self ..)), List.map_cons, List.map_cons,
      Char.toLower_toUpper_eq_toLower]

theorem lowercaseFirst_lowercaseFirst :
    lowercaseFirst (lowercaseFirst word) = lowercaseFirst word := by
  cases word with
  | nil => rfl
  | cons c rest =>
    have hc := h c (List.mem_cons_self ..)
    rw [lowercaseFirst_ascii hc, lowercaseFirst_ascii (toLower_ascii hc),
      Char.toLower_toLower_eq_toLower]

theorem lowercaseFirst_eq_nil_iff : lowercaseFirst word = [] ↔ word = [] := by
  cases word with
  | nil => simp [lowercaseFirst]
  | cons c rest => simp [lowercaseFirst_ascii (h c (List.mem_cons_self ..))]

/-- The capital in front of a word goes when the word is the first one of a text in camel case. -/
theorem lowercaseFirst_capitalizeFirst_append (hne : word ≠ []) (rest : List Char) :
    lowercaseFirst (capitalizeFirst word ++ rest) = lowercaseFirst word ++ rest := by
  obtain ⟨c, tail, rfl⟩ := List.exists_cons_of_ne_nil hne
  have hc := h c (List.mem_cons_self ..)
  rw [capitalizeFirst_ascii hc, lowercaseFirst_ascii hc, List.cons_append, List.cons_append,
    lowercaseFirst_ascii (toUpper_ascii hc), Char.toLower_toUpper_eq_toLower]

end Word

/-- What words with capitals give together has a capital in front as well. -/
theorem capitalizeFirst_flatMap {words : List (List Char)}
    (h : ∀ word ∈ words, ∀ c ∈ word, c.toNat < 0x80) :
    capitalizeFirst (words.flatMap capitalizeFirst) = words.flatMap capitalizeFirst := by
  induction words with
  | nil => rfl
  | cons word words ih =>
    obtain ⟨hword, hwords⟩ := List.forall_mem_cons.mp h
    rw [List.flatMap_cons]
    cases word with
    | nil => exact ih hwords
    | cons c rest =>
      have hc := hword c (List.mem_cons_self ..)
      rw [capitalizeFirst_ascii hc, List.cons_append, capitalizeFirst_ascii (toUpper_ascii hc),
        Char.toUpper_toUpper_eq_toUpper]

/-! Words with a capital in front -/

section Capitalized

variable {keeps : Char → Bool}

theorem capitalized_append_cons {c : Char} (hc : keeps c = false) (a b : List Char) :
    capitalized keeps (a ++ c :: b) = capitalized keeps a ++ capitalized keeps b := by
  rw [capitalized, pieces_append_cons (by simpa using hc), List.flatMap_append]
  rfl

theorem capitalized_of_all {s : List Char} (hs : ∀ c ∈ s, keeps c = true) :
    capitalized keeps s = capitalizeFirst s := by
  rw [capitalized, pieces_of_none (by simpa using hs), List.flatMap_singleton]

variable (hk : IsWordClass keeps)
include hk

theorem IsWordClass.capitalized_capitalized (s : List Char) :
    capitalized keeps (capitalized keeps s) = capitalized keeps s := by
  rw [capitalized_of_all (hk.keeps_capitalized s)]
  exact capitalizeFirst_flatMap hk.ascii_of_mem_pieces

/-- Up to the case of letters, nothing of the class is lost or moved, and nothing else is left. -/
theorem IsWordClass.map_toLower_capitalized (s : List Char) :
    (capitalized keeps s).map Char.toLower = (s.filter keeps).map Char.toLower := by
  have hword : ∀ word ∈ pieces (fun c => !keeps c) s,
      (capitalizeFirst word).map Char.toLower = word.map Char.toLower :=
    fun word hw => map_toLower_capitalizeFirst (hk.ascii_of_mem_pieces word hw)
  calc (capitalized keeps s).map Char.toLower
    _ = (pieces (fun c => !keeps c) s).flatMap fun word => word.map Char.toLower := by
      rw [capitalized, List.map_flatMap, List.flatMap_congr hword]
    _ = (pieces (fun c => !keeps c) s).flatten.map Char.toLower := by
      rw [List.map_flatten, List.flatMap_def]
    _ = (s.filter keeps).map Char.toLower := by
      simp only [flatten_pieces, Bool.not_not]

theorem IsWordClass.capitalized_eq_nil_iff {s : List Char} :
    capitalized keeps s = [] ↔ ∀ c ∈ s, keeps c = false := by
  rw [← List.map_eq_nil_iff (f := Char.toLower), hk.map_toLower_capitalized, List.map_eq_nil_iff,
    List.filter_eq_nil_iff]
  simp only [Bool.not_eq_true]

end Capitalized

/-! Pascal case -/

theorem pascalCase_append_cons {c : Char} (hc : isWordChar c = false) (a b : List Char) :
    pascalCase (a ++ c :: b) = pascalCase a ++ pascalCase b := by
  rw [pascalCase_eq, pascalCase_eq, pascalCase_eq, capitalized_append_cons hc]

theorem pascalCase_pascalCase (s : List Char) : pascalCase (pascalCase s) = pascalCase s := by
  rw [pascalCase_eq, pascalCase_eq, isWordClass_isWordChar.capitalized_capitalized]

theorem pascalCase_eq_nil_iff {s : List Char} :
    pascalCase s = [] ↔ ∀ c ∈ s, isWordChar c = false := by
  rw [pascalCase_eq, isWordClass_isWordChar.capitalized_eq_nil_iff]

/-! Camel case -/

/-- In camel case only the first of all capitals is missing. -/
theorem camelCase_eq (s : List Char) :
    camelCase s = lowercaseFirst (capitalized Char.isAlphanum s) := by
  let words := (pieces (fun c => !c.isAlphanum) s).filter (!·.isEmpty)
  have hwords : capitalized Char.isAlphanum s = words.flatMap capitalizeFirst :=
    (flatMap_filter_not_isEmpty rfl _).symm
  rw [hwords, camelCase]
  split
  · next heq =>
    rw [show words = [] from heq]
    rfl
  · next word rest heq =>
    have hfirst : word ∈ words := by
      rw [show words = word :: rest from heq]
      exact List.mem_cons_self ..
    obtain ⟨hmem, hne⟩ := List.mem_filter.mp hfirst
    have hascii := isWordClass_isAlphanum.ascii_of_mem_pieces word hmem
    rw [show words = word :: rest from heq, List.flatMap_cons,
      lowercaseFirst_capitalizeFirst_append hascii (by simpa using hne)]

theorem camelCase_of_all {s : List Char} (hs : ∀ c ∈ s, c.isAlphanum = true) :
    camelCase s = lowercaseFirst s := by
  cases s with
  | nil => rfl
  | cons c rest =>
    have hascii : ∀ d ∈ c :: rest, d.toNat < 0x80 := fun d hd => isAlphanum_ascii (hs d hd)
    have hfirst := lowercaseFirst_capitalizeFirst_append hascii (List.cons_ne_nil c rest) []
    rw [camelCase_eq, capitalized_of_all hs]
    rwa [List.append_nil, List.append_nil] at hfirst

theorem ascii_capitalized_isAlphanum (s : List Char) :
    ∀ c ∈ capitalized Char.isAlphanum s, c.toNat < 0x80 :=
  fun c hc => isAlphanum_ascii (isWordClass_isAlphanum.keeps_capitalized s c hc)

theorem camelCase_camelCase (s : List Char) : camelCase (camelCase s) = camelCase s := by
  rw [camelCase_of_all (camelCase_isAlphanum s), camelCase_eq,
    lowercaseFirst_lowercaseFirst (ascii_capitalized_isAlphanum s)]

theorem camelCase_eq_nil_iff {s : List Char} :
    camelCase s = [] ↔ ∀ c ∈ s, c.isAlphanum = false := by
  rw [camelCase_eq, lowercaseFirst_eq_nil_iff (ascii_capitalized_isAlphanum s),
    isWordClass_isAlphanum.capitalized_eq_nil_iff]

/-! Forms -/

/-- The laws of a form over all texts: it leaves characters of one class only, it is the form of
itself, and it is empty just if the text has no character of the class. -/
structure IsForm (keeps : Char → Bool) (form : String → String) : Prop where
  kept : ∀ s, ∀ c ∈ (form s).toList, keeps c = true
  settled : ∀ s, form (form s) = form s
  eq_empty_iff : ∀ s, form s = "" ↔ ∀ c ∈ s.toList, keeps c = false

variable {keeps : Char → Bool} {f : List Char → List Char}

theorem isForm_mapChars (hkept : ∀ s, ∀ c ∈ f s, keeps c = true) (hsettled : ∀ s, f (f s) = f s)
    (hnil : ∀ s, f s = [] ↔ ∀ c ∈ s, keeps c = false) : IsForm keeps (mapChars f) where
  kept s := by
    rw [toList_mapChars]
    exact hkept s.toList
  settled s := by
    apply String.toList_inj.mp
    rw [toList_mapChars, toList_mapChars, hsettled]
  eq_empty_iff s := by
    rw [mapChars, String.ofList_eq_empty_iff, hnil]

theorem mapChars_append_singleton {c : Char} (hf : ∀ a b, f (a ++ c :: b) = f a ++ f b)
    (a b : String) :
    mapChars f (a ++ String.singleton c ++ b) = mapChars f a ++ mapChars f b := by
  apply String.toList_inj.mp
  simp only [toList_mapChars, String.toList_append, String.toList_singleton, List.append_assoc,
    List.singleton_append, hf]

theorem isForm_pascalCase : IsForm isWordChar (mapChars pascalCase) := by
  refine isForm_mapChars ?_ pascalCase_pascalCase fun _ => pascalCase_eq_nil_iff
  intro s
  rw [pascalCase_eq]
  exact isWordClass_isWordChar.keeps_capitalized s

theorem isForm_capitalizeWords : IsForm isIdentChar (mapChars capitalizeWords) := by
  refine isForm_mapChars capitalizeWords_isIdentChar ?_ ?_
  · exact isWordClass_isIdentChar.capitalized_capitalized
  · exact fun _ => isWordClass_isIdentChar.capitalized_eq_nil_iff

theorem isForm_camelCase : IsForm Char.isAlphanum (mapChars camelCase) :=
  isForm_mapChars camelCase_isAlphanum camelCase_camelCase fun _ => camelCase_eq_nil_iff

/-- Whatever a text holds, its three forms have only characters that may stand in an identifier,
without underscores in Pascal case and with letters and digits alone in camel case. To take a form
again changes nothing, and at a separator the first two forms fall into those of both sides. -/
theorem wordForms_of_text :
    IsForm (fun c => isIdentChar c && c != '_') (mapChars pascalCase) ∧
    IsForm isIdentChar (mapChars capitalizeWords) ∧
    IsForm Char.isAlphanum (mapChars camelCase) ∧
    (∀ a c b, c = '-' ∨ c = '_' ∨ isIdentChar c = false →
      mapChars pascalCase (a ++ String.singleton c ++ b) =
        mapChars pascalCase a ++ mapChars pascalCase b) ∧
    ∀ a c b, isIdentChar c = false →
      mapChars capitalizeWords (a ++ String.singleton c ++ b) =
        mapChars capitalizeWords a ++ mapChars capitalizeWords b := by
  refine ⟨?_, isForm_capitalizeWords, isForm_camelCase, ?_, ?_⟩
  · rw [← funext isWordChar_eq]
    exact isForm_pascalCase
  · intro a c b hc
    have hword : isWordChar c = false := by
      rcases hc with rfl | rfl | hc
      · decide
      · decide
      · rw [isWordChar_eq, hc, Bool.false_and]
    exact mapChars_append_singleton (pascalCase_append_cons hword) a b
  · intro a c b hc
    exact mapChars_append_singleton (capitalized_append_cons hc) a b

/-- Letters beyond ASCII have a capital too, but none of them gets into a form. -/
theorem wordForms_of_street :
    isIdentChar 'ß' = false ∧ mapChars pascalCase "ǆ_straße-2nd" = "StraE2nd" ∧
    mapChars pascalCase "StraE2nd" = "StraE2nd" ∧
    mapChars capitalizeWords "ǆ_straße-2nd" = "_straE2nd" ∧
    mapChars camelCase "StraE2nd" = "straE2nd" ∧ mapChars camelCase "ǆ_ß-" = "" := by
  obtain ⟨hpascal, -, hcamel, hcut, hcutWords⟩ := wordForms_of_text
  have hsharp : isIdentChar 'ß' = false := by decide
  have hform : mapChars pascalCase "ǆ_straße-2nd" = "StraE2nd" := by
    calc mapChars pascalCase "ǆ_straße-2nd"
      _ = mapChars pascalCase "ǆ_stra" ++ mapChars pascalCase "e-2nd" :=
        hcut "ǆ_stra" 'ß' "e-2nd" (.inr (.inr hsharp))
      _ = mapChars pascalCase "ǆ_stra" ++ (mapChars pascalCase "e" ++ mapChars pascalCase "2nd") :=
        congrArg _ (hcut "e" '-' "2nd" (.inl rfl))
      _ = "StraE2nd" := by decide +kernel
  have hwords : mapChars capitalizeWords "ǆ_straße-2nd" = "_straE2nd" := by
    calc mapChars capitalizeWords "ǆ_straße-2nd"
      _ = mapChars capitalizeWords "ǆ_stra" ++ mapChars capitalizeWords "e-2nd" :=
        hcutWords "ǆ_stra" 'ß' "e-2nd" hsharp
      _ = "_straE2nd" := by decide +kernel
  refine ⟨hsharp, hform, ?_, hwords, by decide +kernel, ?_⟩
  · rw [← hform, hpascal.settled]
  · refine (hcamel.eq_empty_iff "ǆ_ß-").mpr ?_
    intro c hc
    fin_cases hc <;> decide

end TypedApi.Text
