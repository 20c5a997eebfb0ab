import Mathlib.Data.List.DropRight
import TypedApi.Text.Blank

/-!
Texts without the white space around them. Nothing is left of a text that is all white space; of
any other something is left that neither begins nor ends with white space, so trimming it again
changes nothing.
-/
namespace TypedApi.Text

theorem trimEnd_eq (s : List Char) : trimEnd s = s.rdropWhile isBlank := rfl

theorem head_trimStart {s : List Char} {c : Char} (h : c ∈ (trimStart s).head?) :
    isBlank c = false := by
  have hhead := List.head?_dropWhile_not isBlank s
  rw [trimStart, Option.mem_def] at h
  rw [h] at hhead
  simpa using hhead

theorem trim_eq_nil_iff {s : List Char} : trim s = [] ↔ ∀ c ∈ s, isBlank c = true := by
  have hstart : (∀ c ∈ trimStart s, isBlank c = true) ↔ trimStart s = [] := by
    constructor
    · intro h
      cases hs : trimStart s with
      | nil => rfl
      | cons c rest =>
        have hc := head_trimStart (s := s) (c := c) (by simp [hs])
        have hblank := h c (by simp [hs])
        simp [hc] at hblank
    · intro h
      simp [h]
  rw [trim, trimEnd_eq, List.rdropWhile_eq_nil_iff, hstart, trimStart, List.dropWhile_eq_nil_iff]

theorem trim_trim (s : List Char) : trim (trim s) = trim s := by
  have hstart : trimStart (trim s) = trim s := by
    rw [trimStart, List.dropWhile_eq_self_iff]
    intro hpos
    -- What is left begins as the text does once it is trimmed in front.
    obtain ⟨rest, hrest⟩ : trim s <+: trimStart s := List.rdropWhile_prefix isBlank _
    have hhead : (trim s)[0] ∈ (trimStart s).head? := by
      rw [← hrest, List.head?_append, List.head?_eq_getElem?, List.getElem?_eq_getElem hpos]
      rfl
    simp [head_trimStart hhead]
  conv_lhs => rw [trim, hstart]
  exact List.rdropWhile_idempotent isBlank (trimStart s)

theorem allBlank_iff (s : String) :
    allBlank s = true ↔ ∀ c ∈ s.toList, isBlank c = true := by
  rw [allBlank, List.isEmpty_iff, trim_eq_nil_iff]

theorem mapChars_trim_eq_empty (s : String) : mapChars trim s = "" ↔ allBlank s = true := by
  rw [allBlank, List.isEmpty_iff, mapChars, String.ofList_eq_empty_iff]

@[simp] theorem mapChars_trim_idem (s : String) :
    mapChars trim (mapChars trim s) = mapChars trim s := by
  rw [mapChars, toList_mapChars, trim_trim, mapChars]

theorem notBlank_eq_some {s : Option String} {t : String} :
    notBlank s = some t ↔ s = some t ∧ allBlank t = false := by
  simp [notBlank, Option.filter_eq_some_iff]

end TypedApi.Text
