import Mathlib.Data.List.Induction
import TypedApi.Files.FileTree
import TypedApi.Proofs.Words

/-!
Paths as texts, seen through the moves that they make: into a directory by its name, or up. Joining
a path and a name adds a move, and the path above makes all moves but the last.
-/
namespace TypedApi

namespace Text

theorem countP_pieces_le (isSeparator : Char → Bool) (s : List Char) :
    (pieces isSeparator s).countP (!·.isEmpty) ≤ s.length := by
  induction s with
  | nil => simp [pieces]
  | cons c rest ih =>
    rw [pieces]
    cases hc : isSeparator c with
    | true =>
      simp only [if_true, List.countP_cons, List.isEmpty_nil, List.length_cons]
      simp
      omega
    | false =>
      cases hp : pieces isSeparator rest with
      | nil => exact absurd hp (pieces_ne_nil _ rest)
      | cons word words =>
        rw [hp, List.countP_cons] at ih
        simp only [Bool.false_eq_true, if_false, List.countP_cons, List.isEmpty_cons,
          Bool.not_false, if_true, List.length_cons]
        omega

end Text

namespace FilePath

section Parts

theorem not_slash_of_mem_parts {path p : String} (h : p ∈ parts path) : '/' ∉ p.toList := by
  obtain ⟨word, hword, rfl⟩ := List.mem_map.mp h
  intro hslash
  have hnot := Text.mem_pieces hword '/' (by simpa using hslash)
  simp at hnot

theorem parts_append_slash (a b : String) : parts (a ++ "/" ++ b) = parts a ++ parts b := by
  simp [parts, Text.pieces_append_cons]

theorem parts_append_final (a : String) : parts (a ++ "/") = parts a ++ [""] := by
  have h := parts_append_slash a ""
  rwa [String.append_empty] at h

theorem eq_append_final {path : String} (h : path.toList.getLast? = some '/') :
    ∃ a, path = a ++ "/" := by
  obtain ⟨before, hbefore⟩ := List.getLast?_eq_some_iff.mp h
  exact ⟨String.ofList before, by apply String.ext; simp [hbefore]⟩

theorem parts_of_not_slash {s : String} (h : '/' ∉ s.toList) : parts s = [s] := by
  have hnone : ∀ c ∈ s.toList, (c == '/') = false := by
    intro c hc
    simp only [beq_eq_false_iff_ne]
    rintro rfl
    exact h hc
  simp [parts, Text.pieces_of_none hnone]

theorem parts_intercalate {ps : List String} (hne : ps ≠ []) (h : ∀ p ∈ ps, '/' ∉ p.toList) :
    parts ("/".intercalate ps) = ps := by
  induction ps with
  | nil => exact absurd rfl hne
  | cons p rest ih =>
    obtain ⟨hp, hrest⟩ := List.forall_mem_cons.mp h
    by_cases hempty : rest = []
    · subst hempty
      rw [String.intercalate_singleton, parts_of_not_slash hp]
    · rw [String.intercalate_cons_of_ne_nil hempty, parts_append_slash, parts_of_not_slash hp,
        ih hempty hrest, List.singleton_append]

theorem isRooted_iff {path : String} :
    isRooted path = true ↔ ∃ p rest, parts path = "" :: p :: rest := by
  have hpath : parts path = (Text.pieces (· == '/') path.toList).map String.ofList := rfl
  rw [hpath, isRooted]
  cases path.toList with
  | nil => simp [Text.pieces]
  | cons c rest =>
    by_cases hc : c = '/'
    · subst hc
      cases hrest : Text.pieces (· == '/') rest with
      | nil => exact absurd hrest (Text.pieces_ne_nil _ rest)
      | cons word words => simp [Text.pieces, hrest]
    · cases hrest : Text.pieces (· == '/') rest with
      | nil => exact absurd hrest (Text.pieces_ne_nil _ rest)
      | cons word words => simp [Text.pieces, hrest, hc]

theorem not_endsInSlash {path p : String} (h : (parts path).getLast? = some p) (hp : p ≠ "") :
    FileTree.endsInSlash path = false := by
  rw [FileTree.endsInSlash, beq_eq_false_iff_ne]
  intro hlast
  obtain ⟨a, rfl⟩ := eq_append_final hlast
  rw [parts_append_final, List.getLast?_concat, Option.some.injEq] at h
  exact hp h.symm

end Parts

section Moves

/-- An empty part and a dot lead nowhere. -/
def isIdle (part : String) : Bool := part == "" || part == "."

/-- The parts of a path that lead somewhere. -/
def moves (path : String) : List String := (parts path).filter fun p => !isIdle p

theorem ne_dot_of_mem_moves {path p : String} (h : p ∈ moves path) : p ≠ "." := by
  have hidle := (List.mem_filter.mp h).2
  rintro rfl
  simp [isIdle] at hidle

/-- A name that can stand in a directory. -/
structure IsName (name : String) : Prop where
  not_empty : name ≠ ""
  not_dot : name ≠ "."
  not_up : name ≠ ".."
  not_slash : '/' ∉ name.toList

theorem parts_join (directory : String) {name : String} (hname : IsName name) :
    ∃ before, parts (join directory name) = before ++ [name] ∧
      before.filter (· ≠ "") = (parts directory).filter (· ≠ "") := by
  have hparts := parts_of_not_slash hname.not_slash
  unfold join
  split
  · next h =>
    subst h
    exact ⟨[], by rw [hparts, List.nil_append], rfl⟩
  · split
    · next hslash =>
      obtain ⟨a, rfl⟩ := eq_append_final hslash
      rw [parts_append_slash, hparts, parts_append_final]
      exact ⟨parts a, rfl, by simp⟩
    · rw [parts_append_slash, hparts]
      exact ⟨parts directory, rfl, rfl⟩

/-- Moves are made by the parts that are not empty. -/
theorem moves_eq (path : String) :
    moves path = ((parts path).filter (· ≠ "")).filter (· ≠ ".") := by
  rw [moves, List.filter_filter]
  congr 1
  funext p
  by_cases hempty : p = ""
  · simp [isIdle, hempty]
  · by_cases hdot : p = "."
    · simp [isIdle, hdot]
    · simp [isIdle, hempty, hdot]

theorem moves_join (directory : String) {name : String} (hname : IsName name) :
    moves (join directory name) = moves directory ++ [name] := by
  obtain ⟨before, hparts, hbefore⟩ := parts_join directory hname
  rw [moves_eq, moves_eq, hparts, List.filter_append, hbefore, List.filter_append]
  simp [hname.not_empty, hname.not_dot]

theorem isRooted_join {directory name : String} (hdirectory : directory ≠ "") :
    isRooted (join directory name) = isRooted directory := by
  have hne : directory.toList ≠ [] := by
    intro h
    exact hdirectory (String.ext h)
  obtain ⟨c, cs, hcs⟩ := List.exists_cons_of_ne_nil hne
  unfold join isRooted
  rw [if_neg hdirectory]
  split
  · simp [hcs]
  · simp [hcs]

end Moves

section Above

/-- Ends of the steps among parts; a dot is a step where it comes first. -/
def stepEnds (ps : List String) : List Nat :=
  (ps.zipIdx.filter fun p => p.1 ≠ "" && (p.1 ≠ "." || p.2 == 0)).map (·.2 + 1)

theorem lastTwoSteps_eq (path : String) :
    lastTwoSteps path =
      ((stepEnds (parts path)).getLast?, (stepEnds (parts path)).dropLast.getLast?) := rfl

theorem stepEnds_concat (ps : List String) (p : String) :
    stepEnds (ps ++ [p]) =
      stepEnds ps ++ if p ≠ "" ∧ (p ≠ "." ∨ ps = []) then [ps.length + 1] else [] := by
  unfold stepEnds
  rw [List.zipIdx_append, List.filter_append, List.map_append]
  congr 1
  by_cases hempty : p = ""
  · simp [hempty]
  · by_cases hdot : p = "."
    · by_cases hps : ps = []
      · simp [hdot, hps]
      · simp [hdot, hps]
    · simp [hempty, hdot]

/-- A step with the parts before it, after which nothing moves. -/
structure LastStep (ps before : List String) (p : String) : Prop where
  split : ∃ after, ps = before ++ p :: after ∧ ∀ q ∈ after, isIdle q = true
  not_empty : p ≠ ""
  dot : p = "." → before = []

theorem exists_lastStep (ps : List String) :
    (stepEnds ps = [] ∧ ∀ p ∈ ps, isIdle p = true) ∨
      ∃ before p, LastStep ps before p ∧ stepEnds ps = stepEnds before ++ [before.length + 1] := by
  induction ps using List.reverseRecOn with
  | nil => exact .inl ⟨rfl, by simp⟩
  | append_singleton ps p ih =>
    rw [stepEnds_concat]
    by_cases hstep : p ≠ "" ∧ (p ≠ "." ∨ ps = [])
    · refine .inr ⟨ps, p, ⟨⟨[], rfl, by simp⟩, hstep.1, fun hdot => ?_⟩, by simp [hstep]⟩
      exact hstep.2.resolve_left (not_not.mpr hdot)
    · have hidle : isIdle p = true := by
        by_cases hempty : p = ""
        · simp [isIdle, hempty]
        · by_cases hdot : p = "."
          · simp [isIdle, hdot]
          · exact absurd ⟨hempty, .inl hdot⟩ hstep
      rw [if_neg hstep, List.append_nil]
      rcases ih with ⟨hends, hall⟩ | ⟨before, q, hlast, hends⟩
      · refine .inl ⟨hends, fun q hq => ?_⟩
        rcases List.mem_append.mp hq with hq | hq
        · exact hall q hq
        · rw [List.mem_singleton.mp hq]
          exact hidle
      · obtain ⟨after, rfl, hafter⟩ := hlast.split
        refine .inr ⟨before, q, ⟨⟨after ++ [p], by simp, fun r hr => ?_⟩, hlast.not_empty,
          hlast.dot⟩, hends⟩
        rcases List.mem_append.mp hr with hr | hr
        · exact hafter r hr
        · rw [List.mem_singleton.mp hr]
          exact hidle

theorem LastStep.moves {ps before : List String} {p : String} (h : LastStep ps before p) :
    ps.filter (fun p => !isIdle p) =
      before.filter (fun p => !isIdle p) ++ [p].filter (fun p => !isIdle p) := by
  obtain ⟨after, rfl, hafter⟩ := h.split
  have hnone : after.filter (fun p => !isIdle p) = [] := by
    simpa [List.filter_eq_nil_iff] using hafter
  rw [List.append_cons, List.filter_append, hnone, List.append_nil, List.filter_append]

/-- A path whose text shows where it leads: it ends in a step, or leads nowhere. -/
inductive Tidy (path : String) : Prop
  | step (before : List String) (p : String) (hparts : parts path = before ++ [p])
      (hempty : p ≠ "") (hdot : p ≠ ".")
  | still (hmoves : moves path = []) (hdots : (parts path).filter (· ≠ "") = [] ∨
      (parts path).filter (· ≠ "") = ["."])

/-- The path above makes all moves but the last. -/
structure Above (path above : String) : Prop where
  moves : moves above = (moves path).dropLast
  isRooted : isRooted above = isRooted path
  tidy : Tidy above

/-- The path above a single step is the root or empty. -/
theorem above_single {path p : String} {before : List String}
    (hlast : LastStep (parts path) before p) (hidle : ∀ q ∈ before, isIdle q = true) :
    Above path (if isRooted path then "/" else "") := by
  have hempty : before.filter (fun p => !isIdle p) = [] := by
    simpa [List.filter_eq_nil_iff] using hidle
  have hmoves : (moves path).dropLast = [] := by
    unfold moves
    rw [hlast.moves, hempty, List.nil_append]
    by_cases hp : isIdle p = true
    · simp [hp]
    · simp [hp]
  cases hroot : isRooted path with
  | true => exact ⟨by rw [hmoves]; rfl, by rw [hroot]; rfl, .still rfl (.inl rfl)⟩
  | false => exact ⟨by rw [hmoves]; rfl, by rw [hroot]; rfl, .still rfl (.inl rfl)⟩

/-- The path above a later step ends in the step before it. -/
theorem above_later {path p q : String} {before before' : List String}
    (hlast : LastStep (parts path) before p) (hlast' : LastStep before before' q) :
    Above path ("/".intercalate (before' ++ [q])) := by
  obtain ⟨after', hbefore, -⟩ := hlast'.split
  obtain ⟨after, hpath, -⟩ := hlast.split
  have hsplit : parts path = before' ++ q :: (after' ++ p :: after) := by
    rw [hpath, hbefore, List.append_assoc, List.cons_append]
  have hslash : ∀ r ∈ before' ++ [q], '/' ∉ r.toList := by
    intro r hr
    have hmem : r ∈ parts path := by
      rw [hsplit]
      simp only [List.mem_append, List.mem_cons] at hr ⊢
      tauto
    exact not_slash_of_mem_parts hmem
  have habove : parts ("/".intercalate (before' ++ [q])) = before' ++ [q] :=
    parts_intercalate (by simp) hslash
  have hp : isIdle p = false := by
    have hdot : p ≠ "." := by
      intro hdot
      simp [hlast.dot hdot] at hbefore
    simp [isIdle, hlast.not_empty, hdot]
  refine ⟨?_, ?_, ?_⟩
  · unfold moves
    rw [habove, hlast.moves, hlast'.moves, List.filter_append]
    simp [hp]
  · rw [Bool.eq_iff_iff, isRooted_iff, isRooted_iff, habove, hsplit]
    cases before' with
    | nil => simp [hlast'.not_empty]
    | cons r rest =>
      cases rest with
      | nil => simp
      | cons r' rest => simp
  · by_cases hdot : q = "."
    · refine .still ?_ (.inr ?_)
      · unfold moves
        rw [habove, hlast'.dot hdot, hdot]
        rfl
      · rw [habove, hlast'.dot hdot, hdot]
        rfl
    · exact .step before' q habove hlast'.not_empty hdot

theorem above_of_parent? {path above : String} (h : parent? path = some above) :
    Above path above := by
  unfold parent? at h
  rw [lastTwoSteps_eq] at h
  rcases exists_lastStep (parts path) with ⟨hends, -⟩ | ⟨before, p, hlast, hends⟩
  · simp [hends] at h
  · rcases exists_lastStep before with ⟨hends', hidle⟩ | ⟨before', q, hlast', hends'⟩
    · simp only [hends, hends', List.nil_append, List.getLast?_singleton, List.dropLast_singleton,
        List.getLast?_nil, Option.some.injEq] at h
      rw [← h]
      exact above_single hlast hidle
    · simp only [hends, hends', List.getLast?_concat, List.dropLast_concat, Option.some.injEq] at h
      obtain ⟨after', hbefore, -⟩ := hlast'.split
      obtain ⟨after, hpath, -⟩ := hlast.split
      have htake : (parts path).take (before'.length + 1) = before' ++ [q] := by
        rw [hpath, hbefore]
        simp [List.take_append, List.take_of_length_le]
      rw [← h, htake]
      exact above_later hlast hlast'

/-- Only a path that leads nowhere may have none above it. -/
theorem exists_parent? {path : String} (h : moves path ≠ []) :
    ∃ above, parent? path = some above := by
  unfold parent?
  rw [lastTwoSteps_eq]
  rcases exists_lastStep (parts path) with ⟨-, hidle⟩ | ⟨before, p, -, hends⟩
  · exact absurd (by simpa [moves, List.filter_eq_nil_iff] using hidle) h
  · rw [hends, List.getLast?_concat, List.dropLast_concat]
    cases (stepEnds before).getLast? with
    | none => exact ⟨_, rfl⟩
    | some n => exact ⟨_, rfl⟩

theorem tidy_join (directory : String) {name : String} (hname : IsName name) :
    Tidy (join directory name) := by
  obtain ⟨before, hparts, -⟩ := parts_join directory hname
  exact .step before name hparts hname.not_empty hname.not_dot

end Above

section Plain

/-- A relative path that goes down only, and does not begin with a dot. -/
structure IsPlain (path : String) : Prop where
  relative : isRooted path = false
  not_here : (parts path).head? ≠ some "."
  not_up : ".." ∉ moves path

theorem laterStep?_eq (part : String) : laterStep? part =
    if isIdle part then none else if part = ".." then some .up else some (.name part) := by
  unfold laterStep? isIdle
  split
  · rfl
  · rfl
  · rfl
  · next hempty hdot hup =>
    have hidle : (part == "" || part == ".") = false := by
      rw [Bool.or_eq_false_iff, beq_eq_false_iff_ne, beq_eq_false_iff_ne]
      exact ⟨hempty, hdot⟩
    rw [hidle, if_neg hup]
    rfl

theorem filterMap_laterStep? {ps : List String} (h : ".." ∉ ps.filter fun p => !isIdle p) :
    ps.filterMap laterStep? = (ps.filter fun p => !isIdle p).map .name := by
  induction ps with
  | nil => rfl
  | cons p rest ih =>
    rw [List.filterMap_cons, laterStep?_eq]
    cases hidle : isIdle p with
    | true =>
      simp only [List.filter_cons, hidle, Bool.not_true, Bool.false_eq_true, if_false] at h ⊢
      exact ih h
    | false =>
      simp only [List.filter_cons, hidle, Bool.not_false, if_true, List.mem_cons, not_or] at h ⊢
      simp [Ne.symm h.1, ih h.2]

theorem steps_of_plain {path : String} (h : IsPlain path) :
    steps path = (moves path).map .name := by
  have hlater := filterMap_laterStep? h.not_up
  rw [moves, ← hlater]
  unfold steps
  cases hparts : parts path with
  | nil => rfl
  | cons first rest =>
    have hfirst : first ≠ "." := by
      rintro rfl
      exact h.not_here (by rw [hparts]; rfl)
    simp only [h.relative, Bool.false_eq_true, if_false, hfirst, List.filterMap_cons]
    cases laterStep? first with
    | none => rfl
    | some step => rfl

end Plain

/-- No text makes more moves than it has characters. -/
theorem length_moves_le (path : String) : (moves path).length ≤ path.length := by
  have hcount : (moves path).length ≤
      (Text.pieces (· == '/') path.toList).countP (!·.isEmpty) := by
    rw [moves, ← List.countP_eq_length_filter, parts, List.countP_map]
    apply List.countP_mono_left
    intro word _ hword
    cases word with
    | nil => simp [isIdle] at hword
    | cons c rest => rfl
  have hlength := Text.countP_pieces_le (· == '/') path.toList
  rw [String.length_toList] at hlength
  omega

end FilePath
end TypedApi
