import TypedApi.Proofs.Trimming
import TypedApi.Proofs.WordForms

/-!
Texts put together from their words, cut at characters that belong to no word. What is put together
from the parts is what is put together from the whole, so it does not matter which of these
characters are taken away first, nor where.
-/
namespace TypedApi.Text

/-- What is made of a text one part after the other is made of all pieces in turn. -/
theorem flatMap_pieces {α : Type} {f : List Char → List α} {isSeparator : Char → Bool}
    (hf : ∀ c, isSeparator c = true → ∀ a b, f (a ++ c :: b) = f a ++ f b) (s : List Char) :
    (pieces isSeparator s).flatMap f = f s := by
  -- On the text from the last separator on.
  suffices h : ∀ word, (∀ c ∈ word, isSeparator c = false) →
      (pieces isSeparator (word ++ s)).flatMap f = f (word ++ s) by
    exact h [] (by simp)
  induction s with
  | nil =>
    intro word hword
    rw [List.append_nil, pieces_of_none hword, List.flatMap_singleton]
  | cons c s ih =>
    intro word hword
    cases hc : isSeparator c with
    | true =>
      have hs := ih [] (by simp)
      rw [List.nil_append] at hs
      rw [pieces_append_cons hc, pieces_of_none hword, List.flatMap_append,
        List.flatMap_singleton, hs, hf c hc]
    | false =>
      have hlonger := ih (word ++ [c]) (List.forall_mem_append.mpr ⟨hword, by simpa using hc⟩)
      rwa [List.append_assoc] at hlonger

@[simp] theorem pascalCase_nil : pascalCase [] = [] := rfl

theorem pascalCase_cons {c : Char} (hc : isWordChar c = false) (s : List Char) :
    pascalCase (c :: s) = pascalCase s :=
  pascalCase_append_cons hc [] s

theorem pascalCase_concat {c : Char} (hc : isWordChar c = false) (s : List Char) :
    pascalCase (s ++ [c]) = pascalCase s := by
  rw [pascalCase_append_cons hc, pascalCase_nil, List.append_nil]

section Dropping

variable {p : Char → Bool} (hp : ∀ c, p c = true → isWordChar c = false)
include hp

theorem pascalCase_dropWhile (s : List Char) : pascalCase (s.dropWhile p) = pascalCase s := by
  induction s with
  | nil => rfl
  | cons c s ih =>
    rw [List.dropWhile_cons]
    split
    · next hc => rw [ih, pascalCase_cons (hp c hc)]
    · rfl

theorem pascalCase_rdropWhile (s : List Char) : pascalCase (s.rdropWhile p) = pascalCase s := by
  induction s using List.reverseRecOn with
  | nil => rfl
  | append_singleton s c ih =>
    rw [List.rdropWhile_concat]
    split
    · next hc => rw [ih, pascalCase_concat (hp c hc)]
    · rfl

end Dropping

theorem isWordChar_of_isBlank {c : Char} (h : isBlank c = true) : isWordChar c = false := by
  cases hc : isWordChar c with
  | false => rfl
  | true =>
    have hblank : isBlank c = false :=
      forall_ascii (P := fun c => isWordChar c = true → isBlank c = false) (by decide +kernel)
        (isWordChar_ascii hc) hc
    rw [h] at hblank
    cases hblank

/-- White space is in no word. -/
@[simp] theorem pascalCase_trim (s : List Char) : pascalCase (trim s) = pascalCase s := by
  have hblank : ∀ c, isBlank c = true → isWordChar c = false := fun _ => isWordChar_of_isBlank
  rw [trim, trimEnd_eq, pascalCase_rdropWhile hblank, trimStart, pascalCase_dropWhile hblank]

end TypedApi.Text
