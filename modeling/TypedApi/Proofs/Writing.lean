import TypedApi.Proofs.FileTrees
import TypedApi.Proofs.Independence
import TypedApi.Run.Generate

/-!
Writing files, seen on the layout of a tree: what a file becomes depends on the places above it and
on its own, and it changes nothing else. So files that are not in each other's way can be written in
any order.
-/
namespace TypedApi

namespace Layout

/-- Neither of two locations is on the way to the other. -/
def Apart (l m : List String) : Prop := ¬l <+: m ∧ ¬m <+: l

section Apart

variable {v : Layout} {l m : List String}

theorem Apart.symm (h : Apart l m) : Apart m l := ⟨h.2, h.1⟩

theorem Apart.ne (h : Apart l m) : l ≠ m := by
  rintro rfl
  exact h.1 (List.prefix_refl l)

theorem Apart.not_above (h : Apart l m) : ¬l <+: m.dropLast :=
  fun hle => h.1 (hle.trans (List.dropLast_prefix m))

/-- The layout with a file at a location, in the directories that it takes. -/
def withFile (v : Layout) (location : List String) (content : String) : Layout :=
  (v.withDirectory location.dropLast).set location (.file content)

theorem withFile_self (v : Layout) (l : List String) (content : String) :
    v.withFile l content l = some (.file content) := by
  rw [withFile, set, if_pos rfl]

theorem withFile_of_ne (v : Layout) {l p : List String} (h : p ≠ l) (content : String) :
    v.withFile l content p = v.withDirectory l.dropLast p := by
  rw [withFile, set, if_neg h]

theorem withFile_of_apart (h : Apart l m) (content : String) : v.withFile m content l = v l := by
  rw [withFile_of_ne v h.ne, Layout.withDirectory, if_neg h.not_above]

theorem withFile_comm (h : Apart l m) (a b : String) :
    (v.withFile m b).withFile l a = (v.withFile l a).withFile m b := by
  funext p
  by_cases hl : p = l
  · rw [hl, withFile_self, withFile_of_apart h, withFile_self]
  by_cases hm : p = m
  · rw [hm, withFile_self, withFile_of_apart h.symm, withFile_self]
  simp only [withFile_of_ne _ hl, withFile_of_ne _ hm, Layout.withDirectory]
  split
  · simp
  · simp

end Apart

/-- How writing a file ends, by what is at its location and what keeps its directory from being
made. -/
def writeResult (entry : Option FileEntry) (obstacle : Option FileError) (f : OutputFile) :
    Except WriteError WriteResult :=
  if f.overwrite = .ifMissing ∧ entry.isSome then .ok .skipped
  else match obstacle with
    | some e => .error (.create ((FilePath.parent? f.path).getD "") e)
    | none => if entry = some .directory then .error (.write f.path .isDirectory) else .ok .written

def isWritten : Except WriteError WriteResult → Bool
  | .ok .written => true
  | _ => false

theorem writeResult_written {entry : Option FileEntry} {obstacle : Option FileError}
    {f : OutputFile} (h : isWritten (writeResult entry obstacle f) = true) :
    obstacle = none ∧ entry ≠ some .directory := by
  unfold writeResult at h
  split at h
  · simp [isWritten] at h
  · cases obstacle with
    | some e => simp [isWritten] at h
    | none =>
      refine ⟨rfl, fun hdirectory => ?_⟩
      simp [hdirectory, isWritten] at h

/-- What writing a file at a location comes to. -/
def write (v : Layout) (location : List String) (f : OutputFile) :
    Except WriteError WriteResult × Layout :=
  let result := writeResult (v location) (v.obstacle location.dropLast) f
  (result, if isWritten result then v.withFile location f.content else v)

section Write

variable {v : Layout} {l m location : List String} {f : OutputFile}

theorem write_snd (v : Layout) (location : List String) (f : OutputFile) :
    (v.write location f).2 =
      if isWritten (v.write location f).1 then v.withFile location f.content else v := rfl

/-- A file is written in place of none or of a file, or nothing changes. -/
theorem write_cases (v : Layout) (location : List String) (f : OutputFile) :
    (v.write location f).2 = v ∨
      v.obstacle location.dropLast = none ∧ v location ≠ some .directory ∧
        (v.write location f).2 = v.withFile location f.content := by
  rw [write_snd]
  cases h : isWritten (v.write location f).1 with
  | false => exact .inl rfl
  | true =>
    obtain ⟨hobstacle, hentry⟩ := writeResult_written h
    exact .inr ⟨hobstacle, hentry, rfl⟩

theorem write_kept (h : v l = some .directory) :
    (v.write location f).2 l = some .directory := by
  rcases write_cases v location f with heq | ⟨-, hlocation, heq⟩
  · rw [heq, h]
  · have hne : l ≠ location := by
      rintro rfl
      exact hlocation h
    rw [heq, withFile_of_ne v hne, Layout.withDirectory]
    split
    · rfl
    · exact h

theorem Closed.write (hv : v.Closed) (hne : location ≠ []) (f : OutputFile) :
    (v.write location f).2.Closed := by
  rcases write_cases v location f with heq | ⟨-, hlocation, heq⟩
  · rw [heq]
    exact hv
  · rw [heq]
    have hmade := hv.withDirectory location.dropLast
    refine ⟨by rw [withFile_of_ne v hne.symm, hmade.root], fun l name e h => ?_⟩
    -- Nothing stands in the new file, for there was no directory at its location.
    have hl : l ≠ location := by
      rintro rfl
      have hbelow : l ++ [name] ≠ l := by simp
      rw [withFile_of_ne v hbelow, Layout.withDirectory, if_neg] at h
      · exact hlocation (hv.above _ _ _ h)
      · exact fun hle => concat_not_above l name (hle.trans (List.dropLast_prefix l))
    rw [withFile_of_ne v hl]
    by_cases hname : l ++ [name] = location
    · rw [← hname, List.dropLast_concat, withDirectory_self]
    · rw [withFile_of_ne v hname] at h
      exact hmade.above _ _ _ h

/-- A file elsewhere keeps no directory from being made, and is not in the way of one. -/
theorem obstacle_write (h : Apart l m) (g : OutputFile) :
    (v.write m g).2.obstacle l.dropLast = v.obstacle l.dropLast := by
  rcases write_cases v m g with heq | ⟨hclear, -, heq⟩
  · rw [heq]
  rw [Layout.obstacle_eq_none, Bool.eq_false_iff, ne_eq, Layout.blocked_iff] at hclear
  have hfile : ∀ p, p <+: l.dropLast → isFile ((v.write m g).2 p) = isFile (v p) := by
    intro p hp
    have hne : p ≠ m := by
      rintro rfl
      exact h.symm.not_above hp
    rw [heq, withFile_of_ne v hne, Layout.withDirectory]
    split
    · next habove =>
      have hnot : isFile (v p) = false :=
        Bool.eq_false_iff.mpr fun hp => hclear ⟨p, habove, hp⟩
      rw [hnot]
      rfl
    · rfl
  have hblocked : (v.write m g).2.blocked l.dropLast = v.blocked l.dropLast := by
    rw [Bool.eq_iff_iff, Layout.blocked_iff, Layout.blocked_iff]
    constructor
    · rintro ⟨p, hp, hpfile⟩
      exact ⟨p, hp, hfile p hp ▸ hpfile⟩
    · rintro ⟨p, hp, hpfile⟩
      exact ⟨p, hp, (hfile p hp).symm ▸ hpfile⟩
  rw [Layout.obstacle, Layout.obstacle, hfile _ (List.prefix_refl _), hblocked]

/-- Writing elsewhere makes no difference to how writing a file ends. -/
theorem write_fst_of_apart (h : Apart l m) (f g : OutputFile) :
    ((v.write m g).2.write l f).1 = (v.write l f).1 := by
  have hentry : (v.write m g).2 l = v l := by
    rcases write_cases v m g with heq | ⟨-, -, heq⟩
    · rw [heq]
    · rw [heq, withFile_of_apart h]
  show writeResult ((v.write m g).2 l) _ f = writeResult (v l) _ f
  rw [hentry, obstacle_write h]

theorem write_independent (h : Apart l m) (f g : OutputFile) :
    Independent (write · l f) (write · m g) := by
  intro v
  refine ⟨write_fst_of_apart h f g, write_fst_of_apart h.symm g f, ?_⟩
  show ((v.write m g).2.write l f).2 = ((v.write l f).2.write m g).2
  rw [write_snd (v.write m g).2 l f, write_snd (v.write l f).2 m g, write_fst_of_apart h f g,
    write_fst_of_apart h.symm g f, write_snd v m g, write_snd v l f]
  cases isWritten (v.write l f).1 with
  | true =>
    cases isWritten (v.write m g).1 with
    | true => exact withFile_comm h f.content g.content
    | false => rfl
  | false =>
    cases isWritten (v.write m g).1 with
    | true => rfl
    | false => rfl

end Write

end Layout

namespace FilePath

/-- Where a move goes, whether or not it can be made. -/
def move (location : List String) (part : String) : List String :=
  if part = ".." then location.dropLast else location ++ [part]

/-- Where a path ends by its text. -/
def place (start : List String) (path : String) : List String :=
  (moves path).foldl move (if isRooted path then [] else start)

theorem foldl_move {names : List String} (h : ".." ∉ names) (location : List String) :
    names.foldl move location = location ++ names := by
  induction names generalizing location with
  | nil => simp
  | cons name rest ih =>
    obtain ⟨hup, hrest⟩ := not_or.mp (fun hmem => h (List.mem_cons.mpr hmem))
    rw [List.foldl_cons, ih hrest, move, if_neg (Ne.symm hup), List.append_assoc,
      List.singleton_append]

theorem place_of_not_up (start : List String) {path : String} (h : ".." ∉ moves path) :
    place start path = (if isRooted path then [] else start) ++ moves path :=
  foldl_move h _

theorem place_join (start : List String) {directory name : String} (hdirectory : directory ≠ "")
    (hname : IsName name) :
    place start (join directory name) = place start directory ++ [name] := by
  rw [place, place, moves_join directory hname, isRooted_join hdirectory, List.foldl_append]
  simp [move, hname.not_up]

theorem join_ne_empty (directory : String) {name : String} (hname : IsName name) :
    join directory name ≠ "" := by
  intro hempty
  have hmoves := moves_join directory hname
  rw [hempty, show moves "" = [] from rfl] at hmoves
  simp at hmoves

end FilePath

namespace FileTree

open FilePath (moves move Tidy IsName)

variable {t : FileTree}

theorem place_of_follow {location place path : List String} (hdots : "." ∉ path)
    (h : t.follow location path = .ok (.directory place)) : place = path.foldl move location := by
  induction path generalizing location with
  | nil =>
    simp only [follow, Except.ok.injEq, Target.directory.injEq] at h
    exact h.symm
  | cons name rest ih =>
    obtain ⟨hdot, hrest⟩ := not_or.mp (fun hmem => hdots (List.mem_cons.mpr hmem))
    rw [List.foldl_cons]
    by_cases hup : name = ".."
    · subst hup
      exact ih hrest h
    rw [move, if_neg hup]
    exact ih hrest (directory_of_follow_name (Ne.symm hdot) hup h).2

/-- A path that never goes up leads to its place. -/
theorem leads_of_not_up (t : FileTree) {path : String} (h : ".." ∉ moves path) :
    t.Leads path (FilePath.place t.start path) :=
  ⟨[], t.origin path, moves path, rfl, rfl, FilePath.place_of_not_up t.start h, h⟩

/-- A path leads to the place at which its text ends. -/
theorem Leads.place_eq {path : String} {place : List String} (h : t.Leads path place) :
    place = FilePath.place t.start path := by
  obtain ⟨before, base, names, hmoves, hbefore, rfl, hnames⟩ := h
  have hdots : "." ∉ moves path := fun hdot => FilePath.ne_dot_of_mem_moves hdot rfl
  have hbase := place_of_follow (fun hdot => hdots (hmoves ▸ List.mem_append_left _ hdot)) hbefore
  rw [FilePath.place, hmoves, List.foldl_append, FilePath.foldl_move hnames, hbase]
  rfl

theorem Leads.join {directory name : String} {place : List String}
    (h : t.Leads directory place) (hdirectory : directory ≠ "") (hname : IsName name) :
    t.Leads (FilePath.join directory name) (place ++ [name]) := by
  obtain ⟨before, base, names, hmoves, hbefore, rfl, hnames⟩ := h
  have horigin : t.origin (FilePath.join directory name) = t.origin directory := by
    unfold origin
    rw [FilePath.isRooted_join hdirectory]
  refine ⟨before, base, names ++ [name], ?_, by rw [horigin, hbefore], ?_, ?_⟩
  · rw [FilePath.moves_join directory hname, hmoves, List.append_assoc]
  · rw [List.append_assoc]
  · rw [List.mem_append, List.mem_singleton, not_or]
    exact ⟨hnames, hname.not_up.symm⟩

/-- The path above that of a file in a directory leads where the directory does. -/
theorem Leads.parent {directory name : String} {place : List String}
    (h : t.Leads directory place) (hdirectory : directory ≠ "") (hname : IsName name) :
    ∃ above, FilePath.parent? (FilePath.join directory name) = some above ∧ Tidy above ∧
      t.Leads above place := by
  have hmoves := FilePath.moves_join directory hname
  obtain ⟨above, hparent⟩ :=
    FilePath.exists_parent? (show moves (FilePath.join directory name) ≠ [] by simp [hmoves])
  have habove := FilePath.above_of_parent? hparent
  refine ⟨above, hparent, habove.tidy, ?_⟩
  obtain ⟨before, base, names, hdirectory', hbefore, hplace, hnames⟩ := h
  have horigin : t.origin above = t.origin directory := by
    unfold origin
    rw [habove.isRooted, FilePath.isRooted_join hdirectory]
  refine ⟨before, base, names, ?_, by rw [horigin, hbefore], hplace, hnames⟩
  rw [habove.moves, hmoves, List.dropLast_concat, hdirectory']

section

variable {directory name : String} {place : List String}

theorem WellFormed.holds_join (ht : t.WellFormed) (h : t.Leads directory place)
    (hdirectory : directory ≠ "") (hname : IsName name) :
    t.holds (FilePath.join directory name) = true ↔ t.entry? (place ++ [name]) ≠ none := by
  unfold holds
  rw [ht.target_eq (FilePath.tidy_join directory hname) (FilePath.join_ne_empty directory hname)
    (h.join hdirectory hname)]
  rcases Layout.seek_cases t.entry? (place ++ [name]) with
    ⟨hentry, hseek⟩ | ⟨content, hentry, hseek⟩ | ⟨hentry, hseek | ⟨e, hseek⟩⟩
  · simp [hentry, hseek]
  · simp [hentry, hseek]
  · simp [hentry, hseek]
  · simp [hentry, hseek]

/-- In a directory that is there a file is stored in place of none or of a file. -/
theorem WellFormed.store_join (ht : t.WellFormed) (h : t.Leads directory place)
    (hplace : t.entry? place = some .directory) (hdirectory : directory ≠ "")
    (hname : IsName name) (content : String) :
    t.store (FilePath.join directory name) content =
      if t.entry? (place ++ [name]) = some .directory then .error .isDirectory
      else .ok (t.put (place ++ [name]) (.file content)) := by
  have hslash : endsInSlash (FilePath.join directory name) = false := by
    obtain ⟨before, hparts, -⟩ := FilePath.parts_join directory hname
    exact FilePath.not_endsInSlash (by rw [hparts, List.getLast?_concat]) hname.not_empty
  unfold store
  rw [ht.target_eq (FilePath.tidy_join directory hname) (FilePath.join_ne_empty directory hname)
    (h.join hdirectory hname), Layout.seek, hslash, List.dropLast_concat, hplace]
  cases t.entry? (place ++ [name]) with
  | none => simp
  | some e => cases e <;> simp

end

end FileTree

section Write

open FilePath (IsName join)

variable {t : FileTree} {directory name : String} {place : List String}

theorem FileTree.Made.place_directory {u : FileTree} (h : FileTree.Made t place u none) :
    u.entry? place = some .directory := by
  rw [h.entries_of_none, Layout.withDirectory_self]

/-- Storing a file: what is needed above it is made, and then it is written. -/
theorem OutputFile.store_eq (ht : t.WellFormed) (h : t.Leads directory place)
    (hdirectory : directory ≠ "") (hname : IsName name) (f : OutputFile)
    (hpath : f.path = join directory name) :
    (f.store t).1 = (Layout.write t.entry? (place ++ [name]) { f with overwrite := .always }).1 ∧
      FileTree.entry? (f.store t).2 =
        (Layout.write t.entry? (place ++ [name]) { f with overwrite := .always }).2 ∧
      (f.store t).2.start = t.start := by
  obtain ⟨above, hparent, htidy, habove⟩ := h.parent hdirectory hname
  rcases hr : t.makeAll above with ⟨u, error⟩
  have hmade : FileTree.Made t place u error := by
    have hmade := ht.makeAll_made htidy habove
    rwa [hr] at hmade
  have hprepare : f.prepare t = (u, error.map (.create above)) := by
    rw [OutputFile.prepare, hpath, hparent]
    simp [hr]
  have hparent' : (FilePath.parent? f.path).getD "" = above := by
    rw [hpath, hparent, Option.getD_some]
  unfold OutputFile.store Layout.write Layout.writeResult
  rw [hprepare, List.dropLast_concat, ← hmade.error]
  cases error with
  | some e =>
    have hblocked : Layout.blocked t.entry? place = true := by
      cases hb : Layout.blocked t.entry? place with
      | true => rfl
      | false => simpa [Layout.obstacle_eq_none.mpr hb] using hmade.error
    have hentries : u.entry? = t.entry? := by
      rw [hmade.entries, if_pos hblocked]
    simp [hparent', hentries, hmade.start, Layout.isWritten]
  | none =>
    have hentry : u.entry? (place ++ [name]) = t.entry? (place ++ [name]) := by
      rw [hmade.entries_of_none, Layout.withDirectory_below]
    have hleads := h.of_directories hmade.start fun _ => hmade.kept
    have hstore := (hmade.wellFormed ht).store_join hleads hmade.place_directory hdirectory hname
      f.content
    rw [← hpath, hentry] at hstore
    simp only [Option.map_none, hstore]
    by_cases hdir : t.entry? (place ++ [name]) = some .directory
    · have hplace := ht.closed.above _ _ _ hdir
      have hentries : u.entry? = t.entry? := by
        rw [hmade.entries_of_none, ht.closed.withDirectory_eq hplace]
      simp [hdir, hentries, hmade.start, Layout.isWritten]
    · have hput : FileTree.entry? (u.put (place ++ [name]) (.file f.content)) =
          Layout.withFile t.entry? (place ++ [name]) f.content := by
        rw [FileTree.entry?_put u (by simp), hmade.entries_of_none, Layout.withFile,
          List.dropLast_concat]
      have hcontent : ({ f with overwrite := .always } : OutputFile).content = f.content := rfl
      simp [hdir, hput, hmade.start, Layout.isWritten, hcontent]

/-- Writing a file by its rules, as the layout has it. -/
theorem OutputFile.write_eq (ht : t.WellFormed) (h : t.Leads directory place)
    (hdirectory : directory ≠ "") (hname : IsName name) (f : OutputFile)
    (hpath : f.path = join directory name) :
    (f.write t).1 = (Layout.write t.entry? (place ++ [name]) f).1 ∧
      FileTree.entry? (f.write t).2 = (Layout.write t.entry? (place ++ [name]) f).2 ∧
      (f.write t).2.start = t.start := by
  have hstore := f.store_eq ht h hdirectory hname hpath
  have hholds := ht.holds_join h hdirectory hname
  rw [← hpath] at hholds
  unfold OutputFile.write
  cases hoverwrite : f.overwrite with
  | always => rwa [← hoverwrite] at hstore
  | ifMissing =>
    simp only [hholds]
    cases hentry : t.entry? (place ++ [name]) with
    | none =>
      have hsame : Layout.write t.entry? (place ++ [name]) { f with overwrite := .always } =
          Layout.write t.entry? (place ++ [name]) f := by
        simp [Layout.write, Layout.writeResult, hentry, OutputFile.content]
      rw [hsame] at hstore
      simpa using hstore
    | some e => simp [Layout.write, Layout.writeResult, hentry, hoverwrite, Layout.isWritten]

end Write

end TypedApi
