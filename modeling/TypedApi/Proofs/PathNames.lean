import TypedApi.Naming.Derivation
import TypedApi.Proofs.Splitting
import TypedApi.TypeScript.Convention

/-!
Names that are derived from a path. A type name keeps the words of the whole path, wherever its
slashes, its white space and the marks of its parameters stand; a function name depends on the last
segment alone. Where a path has too little for the one or the other can be read off its characters.
-/
namespace TypedApi

open Text

/-! Segments -/

namespace Path

def withoutColon : List Char → List Char
  | ':' :: rest => rest
  | s => s

/-- Braces are marks only as a pair around the segment. -/
def withoutBraces (s : List Char) : List Char :=
  match s with
  | '{' :: rest => if rest.getLast? = some '}' then rest.dropLast else s
  | _ => s

theorem stripMarks_eq (segment : List Char) :
    stripMarks segment = withoutBraces (withoutColon (trim segment)) := rfl

theorem pascalCase_withoutColon (s : List Char) : pascalCase (withoutColon s) = pascalCase s := by
  unfold withoutColon
  split
  · next rest => exact (pascalCase_cons (by decide) rest).symm
  · rfl

theorem pascalCase_withoutBraces (s : List Char) :
    pascalCase (withoutBraces s) = pascalCase s := by
  unfold withoutBraces
  split
  · next rest =>
    split
    · next hlast =>
      calc pascalCase rest.dropLast
        _ = pascalCase (rest.dropLast ++ ['}']) := (pascalCase_concat (by decide) _).symm
        _ = pascalCase rest := by rw [List.dropLast_append_getLast? _ hlast]
        _ = pascalCase ('{' :: rest) := (pascalCase_cons (by decide) rest).symm
    · rfl
  · rfl

/-- Neither white space nor marks are in any word. -/
theorem pascalCase_stripMarks (segment : List Char) :
    pascalCase (stripMarks segment) = pascalCase segment := by
  rw [stripMarks_eq, pascalCase_withoutBraces, pascalCase_withoutColon, pascalCase_trim]

/-- The words of the segments are those of the path. -/
theorem flatMap_segments (path : String) :
    (segments path).flatMap pascalCase = pascalCase path.toList := by
  have hslash : ∀ c, (c == '/') = true → ∀ a b,
      pascalCase (a ++ c :: b) = pascalCase a ++ pascalCase b := by
    intro c hc
    obtain rfl := eq_of_beq hc
    exact pascalCase_append_cons (by decide)
  calc (segments path).flatMap pascalCase
    _ = ((pieces (· == '/') path.toList).map stripMarks).flatMap pascalCase :=
      flatMap_filter_not_isEmpty pascalCase_nil _
    _ = (pieces (· == '/') path.toList).flatMap pascalCase := by
      simp only [List.flatMap_map, pascalCase_stripMarks]
    _ = pascalCase path.toList := flatMap_pieces hslash path.toList

theorem segments_append_slash (p q : String) :
    segments (p ++ "/" ++ q) = segments p ++ segments q := by
  simp [segments, pieces_append_cons]

end Path

namespace TypeScript

theorem join_segmentWord (path : String) :
    String.join ((Path.segments path).map fun s => convention.segmentWord (.ofList s)) =
      mapChars pascalCase path := by
  apply String.toList_inj.mp
  rw [toList_mapChars, ← Path.flatMap_segments, String.toList_join, List.flatMap_map]
  simp only [convention, toList_mapChars, String.toList_ofList]

/-- A path gives no words just if it has none of the characters that words consist of. -/
theorem pascalCase_path_eq_empty (path : String) :
    mapChars pascalCase path = "" ↔ path.toList.any isWordChar = false := by
  rw [mapChars, String.ofList_eq_empty_iff, pascalCase_eq_nil_iff, List.any_eq_false]
  simp only [Bool.not_eq_true]

/-! Function names -/

theorem functionBase_eq_empty (segment : List Char) :
    Registry.functionBase convention segment = "" ↔ ∀ c ∈ segment, c.isAlphanum = false := by
  simp only [Registry.functionBase]
  split
  · next h =>
    obtain ⟨hupper, hidentifier⟩ := (Bool.and_eq_true ..).mp h
    obtain ⟨c, hc, hcu⟩ := List.any_eq_true.mp hupper
    -- The segment has a capital, and what it becomes is an identifier, so neither side holds.
    refine iff_of_false ?_ ?_
    · intro hempty
      rw [String.ofList_eq_empty_iff.mp hempty] at hidentifier
      cases hidentifier
    · intro hnone
      have hsome := isAlphanum_of_isUpper hcu
      rw [hnone c hc] at hsome
      cases hsome
  · show mapChars camelCase (.ofList segment) = "" ↔ _
    rw [mapChars, String.ofList_eq_empty_iff, String.toList_ofList, camelCase_eq_nil_iff]

theorem lastBase_eq_empty (path : String) :
    ((Path.segments path).getLast?.map (Registry.functionBase convention)).getD "" = "" ↔
      Path.segments path = [] ∨ ∃ segment, (Path.segments path).getLast? = some segment ∧
        ∀ c ∈ segment, c.isAlphanum = false := by
  cases hs : (Path.segments path).getLast? with
  | none => simp [List.getLast?_eq_none_iff.mp hs]
  | some segment =>
    have hne : Path.segments path ≠ [] := by
      intro h
      simp [h] at hs
    simp [hne, functionBase_eq_empty]

variable (settings : NamingSettings) (issued : List String)

theorem functionName_eq (path : String) :
    let base := ((Path.segments path).getLast?.map (Registry.functionBase convention)).getD ""
    Registry.functionName ⟨settings, convention, issued⟩ path =
      if base = "" then .error (.degeneratePath path)
      else .ok (convention.safeName (mapChars guardDigit base)) := rfl

theorem functionName_eq_error_iff (path : String) (e : NamingError) :
    Registry.functionName ⟨settings, convention, issued⟩ path = .error e ↔
      e = .degeneratePath path ∧
        (Path.segments path = [] ∨ ∃ segment, (Path.segments path).getLast? = some segment ∧
          ∀ c ∈ segment, c.isAlphanum = false) := by
  rw [← lastBase_eq_empty, functionName_eq]
  split
  · next h =>
    rw [Except.error.injEq]
    exact ⟨fun he => ⟨he.symm, h⟩, fun he => he.1.symm⟩
  · next h => exact ⟨fun he => (by cases he), fun he => absurd he.2 h⟩

/-- What stands before the last segment has no part in the name. -/
theorem functionName_append_slash {p q : String} (hq : Path.segments q ≠ []) :
    let r : Registry := ⟨settings, convention, issued⟩
    (∃ name, r.functionName (p ++ "/" ++ q) = .ok name ∧ r.functionName q = .ok name) ∨
      (r.functionName (p ++ "/" ++ q) = .error (.degeneratePath (p ++ "/" ++ q)) ∧
        r.functionName q = .error (.degeneratePath q)) := by
  intro r
  have hlast : (Path.segments (p ++ "/" ++ q)).getLast? = (Path.segments q).getLast? := by
    rw [Path.segments_append_slash, List.getLast?_append_of_ne_nil _ hq]
  rw [functionName_eq, functionName_eq, hlast]
  split
  · exact .inr ⟨rfl, rfl⟩
  · exact .inl ⟨_, rfl, rfl⟩

theorem typeName_eq (path : String) (method : Method) (role : Role) :
    let words := mapChars pascalCase path
    Registry.typeName ⟨settings, convention, issued⟩ path method role =
      if words = "" then .error (.degeneratePath path)
      else .ok (mapChars guardDigit
        (words ++ method.name ++ settings.roleSuffix.suffix role)) := by
  rw [Registry.typeName, join_segmentWord, Registry.roleMark]
  simp only [String.append_assoc]

/-- Cutting a path at its slashes and taking white space and marks off the segments leaves its words
as they are, so a type name consists of the words of the whole path, the method and the suffix, with
a guard against a digit in front. There is none just if the path has nothing for a word. -/
theorem typeName_of_path (path : String) (method : Method) (role : Role) :
    let r : Registry := ⟨settings, convention, issued⟩
    let words := mapChars pascalCase path
    String.join ((Path.segments path).map fun s => convention.segmentWord (.ofList s)) = words ∧
    r.typeName path method role =
      if path.toList.any fun c => c.isAlphanum || c == '$' then
        .ok (mapChars guardDigit (words ++ method.name ++ settings.roleSuffix.suffix role))
      else .error (.degeneratePath path) := by
  intro r words
  refine ⟨join_segmentWord path, ?_⟩
  have hempty := pascalCase_path_eq_empty path
  rw [typeName_eq]
  show _ = if path.toList.any isWordChar then _ else _
  cases hany : path.toList.any isWordChar with
  | true =>
    rw [if_pos rfl, if_neg]
    simp [hempty, hany]
  | false => exact if_pos (hempty.mpr hany)

example : Registry.typeName ⟨{}, convention, []⟩ "//order/ \x7border_id\x7d" .delete .request =
    .ok "OrderOrderIdDELETEReq" := by decide +kernel

/-- A path that gives no words gives no segment a letter or a digit. -/
theorem segment_of_no_words {path : String} (h : mapChars pascalCase path = "")
    {segment : List Char} (hs : segment ∈ Path.segments path) : ∀ c ∈ segment, c.isAlphanum = false := by
  rw [mapChars, String.ofList_eq_empty_iff, ← Path.flatMap_segments, List.flatMap_eq_nil_iff] at h
  intro c hc
  have hword := pascalCase_eq_nil_iff.mp (h segment hs) c hc
  simp only [isWordChar, Bool.or_eq_false_iff] at hword
  exact hword.1

/-- A function name depends on the last segment alone. There is none just if there is no segment or
the last one has no letter and no digit, and so wherever there is no type name. -/
theorem functionName_of_path :
    let r : Registry := ⟨settings, convention, issued⟩
    (∀ p q, Path.segments q ≠ [] →
      (∃ name, r.functionName (p ++ "/" ++ q) = .ok name ∧ r.functionName q = .ok name) ∨
        (r.functionName (p ++ "/" ++ q) = .error (.degeneratePath (p ++ "/" ++ q)) ∧
          r.functionName q = .error (.degeneratePath q))) ∧
    (∀ path e, r.functionName path = .error e ↔ e = .degeneratePath path ∧
      (Path.segments path = [] ∨ ∃ segment, (Path.segments path).getLast? = some segment ∧
        ∀ c ∈ segment, c.isAlphanum = false)) ∧
    ∀ path method role, r.typeName path method role = .error (.degeneratePath path) →
      r.functionName path = .error (.degeneratePath path) := by
  intro r
  refine ⟨fun p q => functionName_append_slash settings issued, ?_, ?_⟩
  · exact functionName_eq_error_iff settings issued
  · intro path method role h
    have hwords : mapChars pascalCase path = "" := by
      rw [typeName_eq] at h
      split at h
      · assumption
      · cases h
    rw [functionName_eq_error_iff]
    refine ⟨rfl, ?_⟩
    cases hs : (Path.segments path).getLast? with
    | none => exact .inl (List.getLast?_eq_none_iff.mp hs)
    | some segment =>
      exact .inr ⟨segment, rfl, segment_of_no_words hwords (List.mem_of_getLast? hs)⟩

theorem functionName_of_orders :
    let r : Registry := ⟨{}, convention, []⟩
    Path.segments "v1/:GetOrder/" ≠ [] ∧ r.functionName "v1/:GetOrder/" = .ok "getOrder" ∧
    r.functionName ("/user/:id" ++ "/" ++ "v1/:GetOrder/") = .ok "getOrder" ∧
    r.typeName "/用户/_" .get .request = .error (.degeneratePath "/用户/_") ∧
    r.functionName "/用户/_" = .error (.degeneratePath "/用户/_") := by
  intro r
  obtain ⟨happend, -, hnameless⟩ := functionName_of_path {} []
  have hsegments : Path.segments "v1/:GetOrder/" ≠ [] := by decide
  have hshort : r.functionName "v1/:GetOrder/" = .ok "getOrder" := by decide +kernel
  have htype : r.typeName "/用户/_" .get .request = .error (.degeneratePath "/用户/_") := rfl
  refine ⟨hsegments, hshort, ?_, htype, hnameless _ _ _ htype⟩
  rcases happend "/user/:id" _ hsegments with ⟨name, hlong, hsame⟩ | ⟨-, hnone⟩
  · rw [hlong, ← hsame, hshort]
  · rw [hshort] at hnone
    cases hnone

end TypeScript
end TypedApi
