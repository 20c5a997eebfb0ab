import Mathlib.Data.List.Induction
import Mathlib.Data.List.Infix
import TypedApi.Files.OutputFile

/-!
File trees by what is where. Making a directory or writing a file comes to a question about the
places above it and a change at a few places.
-/
namespace TypedApi

/-- What is at each location. -/
abbrev Layout := List String → Option FileEntry

def isFile : Option FileEntry → Bool
  | some (.file _) => true
  | _ => false

namespace Layout

/-- Only directories have something in them. -/
structure Closed (v : Layout) : Prop where
  root : v [] = some .directory
  above : ∀ location name e, v (location ++ [name]) = some e → v location = some .directory

variable {v : Layout}

theorem Closed.above_of_prefix (hv : v.Closed) {location rest : List String} {e : FileEntry}
    (hrest : rest ≠ []) (h : v (location ++ rest) = some e) : v location = some .directory := by
  induction rest using List.reverseRecOn generalizing e with
  | nil => exact absurd rfl hrest
  | append_singleton rest name ih =>
    rw [← List.append_assoc] at h
    have habove := hv.above _ _ _ h
    cases rest with
    | nil => simpa using habove
    | cons r rest => exact ih (by simp) habove

theorem Closed.directory_of_prefix (hv : v.Closed) {location place : List String}
    (hle : location <+: place) (h : v place = some .directory) :
    v location = some .directory := by
  obtain ⟨rest, rfl⟩ := hle
  cases rest with
  | nil => simpa using h
  | cons r rest => exact hv.above_of_prefix (by simp) h

/-- A file stands at the place or above it. -/
def blocked (v : Layout) (place : List String) : Bool := place.inits.any fun l => isFile (v l)

theorem blocked_iff {place : List String} :
    v.blocked place = true ↔ ∃ l, l <+: place ∧ isFile (v l) = true := by
  simp [blocked, List.mem_inits]

theorem blocked_of_isFile {place : List String} (h : isFile (v place) = true) :
    v.blocked place = true :=
  blocked_iff.mpr ⟨place, List.prefix_refl place, h⟩

theorem blocked_concat (v : Layout) (place : List String) (name : String) :
    v.blocked (place ++ [name]) = (v.blocked place || isFile (v (place ++ [name]))) := by
  rw [Bool.eq_iff_iff, Bool.or_eq_true, blocked_iff, blocked_iff]
  constructor
  · rintro ⟨l, hl, hfile⟩
    rcases List.prefix_concat_iff.mp hl with rfl | hl
    · exact .inr hfile
    · exact .inl ⟨l, hl, hfile⟩
  · rintro (⟨l, hl, hfile⟩ | hfile)
    · exact ⟨l, hl.trans (List.prefix_append _ _), hfile⟩
    · exact ⟨_, List.prefix_refl _, hfile⟩

theorem Closed.not_blocked (hv : v.Closed) {place : List String} (h : v place = some .directory) :
    v.blocked place = false := by
  rw [Bool.eq_false_iff, ne_eq, blocked_iff]
  rintro ⟨l, hl, hfile⟩
  simp [hv.directory_of_prefix hl h, isFile] at hfile

theorem Closed.not_blocked_of_free (hv : v.Closed) {place : List String}
    (habove : v place.dropLast = some .directory) (h : v place = none) :
    v.blocked place = false := by
  have hne : place ≠ [] := by
    rintro rfl
    simp [hv.root] at h
  rw [← List.dropLast_concat_getLast hne, blocked_concat, hv.not_blocked habove,
    List.dropLast_concat_getLast, h]
  rfl

/-- The layout with a place as a directory, and all above it. -/
def withDirectory (v : Layout) (place : List String) : Layout :=
  fun l => if l <+: place then some .directory else v l

def set (v : Layout) (place : List String) (e : FileEntry) : Layout :=
  fun l => if l = place then some e else v l

theorem withDirectory_self (v : Layout) (place : List String) :
    v.withDirectory place place = some .directory := by
  rw [withDirectory, if_pos (List.prefix_refl place)]

theorem concat_not_above (place : List String) (name : String) : ¬place ++ [name] <+: place := by
  intro hle
  have hlength := hle.length_le
  rw [List.length_append, List.length_singleton] at hlength
  omega

/-- What is in a directory is left as it is. -/
theorem withDirectory_below (v : Layout) (place : List String) (name : String) :
    v.withDirectory place (place ++ [name]) = v (place ++ [name]) := by
  rw [withDirectory, if_neg (concat_not_above place name)]

theorem Closed.withDirectory (hv : v.Closed) (place : List String) :
    (v.withDirectory place).Closed where
  root := by simp [Layout.withDirectory]
  above := by
    intro location name e h
    unfold Layout.withDirectory at h ⊢
    split
    · rfl
    · next hl =>
      rw [if_neg fun hp => hl ((List.prefix_append _ _).trans hp)] at h
      exact hv.above _ _ _ h

/-- A place that is a directory already stays as it is. -/
theorem Closed.withDirectory_eq (hv : v.Closed) {place : List String}
    (h : v place = some .directory) : v.withDirectory place = v := by
  funext l
  unfold Layout.withDirectory
  split
  · next hl => rw [hv.directory_of_prefix hl h]
  · rfl

theorem withDirectory_concat (v : Layout) (place : List String) (name : String) :
    (v.withDirectory place).set (place ++ [name]) .directory =
      v.withDirectory (place ++ [name]) := by
  funext l
  simp only [set, Layout.withDirectory, List.prefix_concat_iff]
  by_cases hl : l = place ++ [name]
  · simp [hl]
  · simp [hl]

/-- Why a place cannot be made a directory. -/
def obstacle (v : Layout) (place : List String) : Option FileError :=
  if isFile (v place) then some .occupied
  else if v.blocked place then some .notDirectory
  else none

theorem obstacle_eq_none {place : List String} :
    v.obstacle place = none ↔ v.blocked place = false := by
  unfold obstacle
  cases hfile : isFile (v place) with
  | true => simp [blocked_of_isFile hfile]
  | false => cases v.blocked place <;> simp

/-- What following names to a place comes to. -/
def seek (v : Layout) (place : List String) : Except FileError FileTree.Target :=
  match v place with
  | some .directory => .ok (.directory place)
  | some (.file content) => .ok (.file place content)
  | none =>
    if v place.dropLast = some .directory then .ok (.free place)
    else if v.blocked place then .error .notDirectory
    else .error .notFound

/-- Names are followed to an entry, to a place that is free, or in vain. -/
theorem seek_cases (v : Layout) (place : List String) :
    v place = some .directory ∧ v.seek place = .ok (.directory place) ∨
      (∃ content, v place = some (.file content) ∧ v.seek place = .ok (.file place content)) ∨
      v place = none ∧ (v.seek place = .ok (.free place) ∨ ∃ e, v.seek place = .error e) := by
  unfold seek
  cases v place with
  | none =>
    refine .inr (.inr ⟨rfl, ?_⟩)
    by_cases habove : v place.dropLast = some .directory
    · exact .inl (by simp only [habove, if_true])
    · simp only [habove, if_false]
      split
      · exact .inr ⟨_, rfl⟩
      · exact .inr ⟨_, rfl⟩
  | some e =>
    cases e with
    | directory => exact .inl ⟨rfl, rfl⟩
    | file content => exact .inr (.inl ⟨content, rfl, rfl⟩)

end Layout

end TypedApi
