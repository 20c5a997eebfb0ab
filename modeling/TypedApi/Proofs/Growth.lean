import TypedApi.Proofs.Writing

/-!
Trees that grow. Making directories, whether or not it succeeds and whatever is in the tree, adds
directories on the way of the path and changes nothing else; where it succeeds the path can be
followed to its end. From this comes all that writing a file can do when it succeeds.
-/
namespace TypedApi

namespace FilePath

theorem isRooted_join_of_name (directory : String) {name : String} (hname : IsName name) :
    isRooted (join directory name) = isRooted directory := by
  by_cases hempty : directory = ""
  · subst hempty
    have hhead : name.toList.head? ≠ some '/' :=
      fun h => hname.not_slash (List.mem_of_mem_head? h)
    rw [join, if_pos rfl, isRooted, isRooted, beq_eq_false_iff_ne.mpr hhead]
    rfl
  · exact isRooted_join hempty

theorem place_join_of_name (start : List String) (directory : String) {name : String}
    (hname : IsName name) :
    place start (join directory name) = place start directory ++ [name] := by
  rw [place, place, moves_join directory hname, isRooted_join_of_name directory hname,
    List.foldl_append]
  simp [move, hname.not_up]

end FilePath

namespace FileTree

open FilePath (moves join place Tidy IsName)

variable {t u v : FileTree}

/-! What a path passes -/

section Passing

theorem passing_name (location rest : List String) {name : String} (hdot : name ≠ ".")
    (hup : name ≠ "..") : passing location (name :: rest) =
      (location ++ [name]) :: passing (location ++ [name]) rest := by
  simp only [passing]

theorem passing_append_subset (location before after : List String) :
    passing location before ⊆ passing location (before ++ after) := by
  induction before generalizing location with
  | nil => exact List.nil_subset _
  | cons name rest ih =>
    by_cases hdot : name = "."
    · subst hdot
      exact ih location
    by_cases hup : name = ".."
    · subst hup
      exact ih location.dropLast
    rw [List.cons_append, passing_name location _ hdot hup, passing_name location _ hdot hup]
    exact List.cons_subset_cons _ (ih (location ++ [name]))

theorem passing_dropLast_subset (location parts : List String) :
    passing location parts.dropLast ⊆ passing location parts := by
  cases parts using List.reverseRecOn with
  | nil => exact List.nil_subset _
  | append_singleton before last =>
    rw [List.dropLast_concat]
    exact passing_append_subset location before [last]

/-- A dot passes nothing. -/
theorem passing_filter (location parts : List String) :
    passing location parts = passing location (parts.filter (· ≠ ".")) := by
  induction parts generalizing location with
  | nil => rfl
  | cons name rest ih =>
    by_cases hdot : name = "."
    · subst hdot
      simpa [passing] using ih location
    have hfilter : (name :: rest).filter (· ≠ ".") = name :: rest.filter (· ≠ ".") := by
      simp [hdot]
    rw [hfilter]
    by_cases hup : name = ".."
    · subst hup
      exact ih location.dropLast
    · rw [passing_name location _ hdot hup, passing_name location _ hdot hup, ih]

theorem way_eq (t : FileTree) (path : String) :
    t.way path = passing (t.origin path) (moves path) := by
  rw [way, passing_filter, FilePath.moves_eq]

/-- All that is passed on the way to a directory are directories. -/
theorem directory_of_mem_passing {location path l m : List String}
    (h : t.follow location path = .ok (.directory l)) (hm : m ∈ passing location path) :
    t.entry? m = some .directory := by
  induction path generalizing location with
  | nil => simp [passing] at hm
  | cons name rest ih =>
    by_cases hdot : name = "."
    · subst hdot
      exact ih h hm
    by_cases hup : name = ".."
    · subst hup
      exact ih h hm
    obtain ⟨hentry, hrest⟩ := directory_of_follow_name hdot hup h
    rw [passing_name location rest hdot hup] at hm
    rcases List.mem_cons.mp hm with rfl | hm
    · exact hentry
    · exact ih hrest hm

theorem mem_passing_of_follow {location before l : List String} {name : String}
    (hdot : name ≠ ".") (hup : name ≠ "..") (h : t.follow location before = .ok (.directory l)) :
    l ++ [name] ∈ passing location (before ++ [name]) := by
  induction before generalizing location with
  | nil =>
    simp only [follow, Except.ok.injEq, Target.directory.injEq] at h
    rw [List.nil_append, passing_name location [] hdot hup, h]
    exact List.mem_cons_self ..
  | cons first rest ih =>
    by_cases hdot' : first = "."
    · subst hdot'
      exact ih h
    by_cases hup' : first = ".."
    · subst hup'
      exact ih h
    rw [List.cons_append, passing_name location _ hdot' hup']
    exact List.mem_cons_of_mem _ (ih (directory_of_follow_name hdot' hup' h).2)

/-- What a path passes is what its beginning passes, and then what the rest does. -/
theorem mem_passing_append {location before after l m : List String}
    (h : t.follow location before = .ok (.directory l))
    (hm : m ∈ passing location (before ++ after)) :
    m ∈ passing location before ∨ m ∈ passing l after := by
  induction before generalizing location with
  | nil =>
    simp only [follow, Except.ok.injEq, Target.directory.injEq] at h
    exact .inr (h ▸ hm)
  | cons name rest ih =>
    by_cases hdot : name = "."
    · subst hdot
      exact ih h hm
    by_cases hup : name = ".."
    · subst hup
      exact ih h hm
    rw [List.cons_append, passing_name location _ hdot hup] at hm
    rw [passing_name location _ hdot hup, List.mem_cons, or_assoc]
    exact (List.mem_cons.mp hm).imp_right (ih (directory_of_follow_name hdot hup h).2)

theorem prefix_of_mem_passing {location names m : List String}
    (hnames : ∀ name ∈ names, name ≠ "." ∧ name ≠ "..") (hm : m ∈ passing location names) :
    m <+: location ++ names := by
  induction names generalizing location with
  | nil => simp [passing] at hm
  | cons name rest ih =>
    obtain ⟨⟨hdot, hup⟩, hrest⟩ := List.forall_mem_cons.mp hnames
    rw [passing_name location rest hdot hup] at hm
    rw [List.append_cons]
    rcases List.mem_cons.mp hm with rfl | hm
    · exact List.prefix_append _ _
    · exact ih hrest hm

/-- What is free is a name in a directory. -/
theorem split_of_free {location path m : List String} (hdots : "." ∉ path)
    (h : t.follow location path = .ok (.free m)) :
    ∃ before l name, path = before ++ [name] ∧ name ≠ "." ∧ name ≠ ".." ∧
      t.follow location before = .ok (.directory l) ∧ m = l ++ [name] ∧ t.entry? m = none := by
  cases path using List.reverseRecOn with
  | nil => cases h
  | append_singleton before name =>
    have hdot : name ≠ "." := by
      rintro rfl
      exact hdots (by simp)
    rw [follow_append t location before (List.cons_ne_nil name [])] at h
    cases hbefore : t.follow location before with
    | error e => simp [hbefore] at h
    | ok target =>
      cases target with
      | file l content => simp [hbefore] at h
      | free l => simp [hbefore] at h
      | directory l =>
        simp only [hbefore] at h
        by_cases hup : name = ".."
        · subst hup
          cases h
        rw [follow_name t l [] hdot hup] at h
        cases hentry : t.entry? (l ++ [name]) with
        | some e => cases e <;> simp [hentry, follow] at h
        | none =>
          simp only [hentry, List.isEmpty_nil, if_true, Except.ok.injEq, Target.free.injEq] at h
          exact ⟨before, l, name, rfl, hdot, hup, hbefore, h.symm, h ▸ hentry⟩

end Passing

/-! Paths that can be followed to their ends -/

section Reaching

/-- The path leads to a directory that is there. -/
def Reaches (t : FileTree) (path : String) : Prop :=
  t.follow (t.origin path) (moves path) = .ok (.directory (place t.start path))

variable {path directory name : String}

theorem reaches_of_follow {l : List String}
    (h : t.follow (t.origin path) (moves path) = .ok (.directory l)) : t.Reaches path := by
  have hdots : "." ∉ moves path := fun hdot => FilePath.ne_dot_of_mem_moves hdot rfl
  obtain rfl : l = place t.start path := place_of_follow hdots h
  exact h

theorem Reaches.kept (h : t.Reaches path) (hstart : u.start = t.start)
    (hkept : ∀ l, t.entry? l = some .directory → u.entry? l = some .directory) :
    u.Reaches path := by
  have horigin : u.origin path = t.origin path := by rw [origin, origin, hstart]
  rw [Reaches, horigin, hstart]
  exact follow_of_directories hkept h

theorem origin_join (t : FileTree) (directory : String) (hname : IsName name) :
    t.origin (join directory name) = t.origin directory := by
  rw [origin, origin, FilePath.isRooted_join_of_name directory hname]

theorem target_join (t : FileTree) (directory : String) (hname : IsName name) :
    t.target (join directory name) =
      t.follow (t.origin directory) (moves directory ++ [name]) := by
  rw [target_of_tidy t (FilePath.tidy_join directory hname)
    (FilePath.join_ne_empty directory hname), origin_join t directory hname,
    FilePath.moves_join directory hname]

/-- In a directory that is reached a name leads to what is there. -/
theorem Reaches.target_join (h : t.Reaches directory) (hname : IsName name) :
    let l := place t.start directory ++ [name]
    t.target (join directory name) = match t.entry? l with
      | some .directory => .ok (.directory l)
      | some (.file content) => .ok (.file l content)
      | none => .ok (.free l) := by
  intro l
  rw [FileTree.target_join t directory hname, follow_append t _ _ (List.cons_ne_nil name []), h]
  simp only [follow_name t _ [] hname.not_dot hname.not_up, List.isEmpty_nil, if_true]
  cases t.entry? (place t.start directory ++ [name]) with
  | none => rfl
  | some e => cases e <;> rfl

theorem target_join_of_not_reaches (h : ¬t.Reaches directory) (hname : IsName name) :
    ∃ e, t.target (join directory name) = .error e := by
  rw [target_join t directory hname, follow_append t _ _ (List.cons_ne_nil name [])]
  cases hfollow : t.follow (t.origin directory) (moves directory) with
  | error e => exact ⟨e, rfl⟩
  | ok target =>
    cases target with
    | directory l => exact absurd (reaches_of_follow hfollow) h
    | file l content => exact ⟨.notDirectory, rfl⟩
    | free l => exact ⟨.notFound, rfl⟩

/-- Something is held at a name if the directory can be reached and has it. -/
theorem holds_join_iff (t : FileTree) (directory : String) (hname : IsName name) :
    t.holds (join directory name) = true ↔
      t.Reaches directory ∧ t.entry? (place t.start directory ++ [name]) ≠ none := by
  by_cases h : t.Reaches directory
  · unfold holds
    rw [h.target_join hname]
    cases t.entry? (place t.start directory ++ [name]) with
    | none => simp [h]
    | some e => cases e <;> simp [h]
  · obtain ⟨e, he⟩ := target_join_of_not_reaches h hname
    simp [holds, he, h]

theorem Reaches.store_join (h : t.Reaches directory) (hname : IsName name) (content : String) :
    t.store (join directory name) content =
      if t.entry? (place t.start directory ++ [name]) = some .directory then .error .isDirectory
      else .ok (t.put (place t.start directory ++ [name]) (.file content)) := by
  have hslash : endsInSlash (join directory name) = false := by
    obtain ⟨before, hparts, -⟩ := FilePath.parts_join directory hname
    exact FilePath.not_endsInSlash (by rw [hparts, List.getLast?_concat]) hname.not_empty
  unfold store
  rw [h.target_join hname, hslash]
  cases t.entry? (place t.start directory ++ [name]) with
  | none => simp
  | some e => cases e <;> simp

/-- The parts of what leads somewhere that may have to be made are names. -/
theorem Leads.exists_names {l : List String} (h : t.Leads path l) :
    ∃ before base names, moves path = before ++ names ∧
      t.follow (t.origin path) before = .ok (.directory base) ∧ l = base ++ names ∧
      ∀ name ∈ names, name ≠ "." ∧ name ≠ ".." := by
  obtain ⟨before, base, names, hmoves, hbefore, hplace, hnames⟩ := h
  refine ⟨before, base, names, hmoves, hbefore, hplace, fun name hname => ⟨?_, ?_⟩⟩
  · exact FilePath.ne_dot_of_mem_moves (hmoves ▸ List.mem_append_right before hname)
  · rintro rfl
    exact hnames hname

theorem WellFormed.reaches_of_leads (ht : t.WellFormed) {l : List String} (h : t.Leads path l)
    (hl : t.entry? l = some .directory) : t.Reaches path := by
  obtain ⟨before, base, names, hmoves, hbefore, rfl, hnames⟩ := h.exists_names
  have hrest := ht.follow_names (ht.entry?_of_follow (ht.origin path) hbefore) hnames
  rw [Layout.seek, hl] at hrest
  refine reaches_of_follow (l := base ++ names) ?_
  rw [hmoves]
  cases names with
  | nil => simpa using hbefore
  | cons name rest =>
    rw [follow_append t _ _ (List.cons_ne_nil name rest), hbefore]
    exact hrest

/-- A path that leads somewhere passes directories that are there, or places that are not below
its own. -/
theorem Leads.mem_way {l m : List String} (h : t.Leads path l) (hm : m ∈ t.way path) :
    t.entry? m = some .directory ∨ m <+: l := by
  obtain ⟨before, base, names, hmoves, hbefore, rfl, hnames⟩ := h.exists_names
  rw [way_eq, hmoves] at hm
  rcases mem_passing_append hbefore hm with hm | hm
  · exact .inl (directory_of_mem_passing hbefore hm)
  · exact .inr (prefix_of_mem_passing hnames hm)

end Reaching

/-! Making directories -/

section Growing

/-- There may be new directories at these locations; all else is as it was. -/
structure Grown (t : FileTree) (locations : List (List String)) (u : FileTree) : Prop where
  start : u.start = t.start
  entries : ∀ l, u.entry? l = t.entry? l ∨
    l ∈ locations ∧ t.entry? l = none ∧ u.entry? l = some .directory

variable {locations more : List (List String)}

theorem Grown.refl (t : FileTree) (locations : List (List String)) : Grown t locations t :=
  ⟨rfl, fun _ => .inl rfl⟩

theorem Grown.mono (h : Grown t locations u) (hsub : locations ⊆ more) : Grown t more u where
  start := h.start
  entries l := (h.entries l).imp_right fun ⟨hl, hnone, hnew⟩ => ⟨hsub hl, hnone, hnew⟩

theorem Grown.trans (h : Grown t locations u) (h' : Grown u locations v) :
    Grown t locations v where
  start := h'.start.trans h.start
  entries l := by
    rcases h'.entries l with heq | ⟨hl, hnone, hnew⟩
    · rw [heq]
      exact h.entries l
    · rcases h.entries l with heq | ⟨-, -, hdirectory⟩
      · exact .inr ⟨hl, heq ▸ hnone, hnew⟩
      · rw [hdirectory] at hnone
        cases hnone

theorem Grown.kept (h : Grown t locations u) {l : List String}
    (hl : t.entry? l = some .directory) : u.entry? l = some .directory := by
  rcases h.entries l with heq | ⟨-, -, hnew⟩
  · rw [heq, hl]
  · exact hnew

theorem Grown.way_eq (h : Grown t locations u) (path : String) : u.way path = t.way path := by
  rw [way, way, origin, origin, h.start]

variable {path : String}

theorem reaches_of_isDirectory (htidy : Tidy path) (hne : path ≠ "")
    (h : t.isDirectory path = true) : t.Reaches path := by
  rw [isDirectory, target_of_tidy t htidy hne] at h
  cases hfollow : t.follow (t.origin path) (moves path) with
  | error e => simp [hfollow] at h
  | ok target =>
    cases target with
    | directory l => exact reaches_of_follow hfollow
    | file l content => simp [hfollow] at h
    | free l => simp [hfollow] at h

theorem makeDirectory_grown (htidy : Tidy path) (hne : path ≠ "")
    (h : t.makeDirectory path = .ok u) : Grown t (t.way path) u ∧ u.Reaches path := by
  rw [makeDirectory, target_of_tidy t htidy hne] at h
  cases hfollow : t.follow (t.origin path) (moves path) with
  | error e => simp [hfollow] at h
  | ok target =>
    cases target with
    | directory l => simp [hfollow] at h
    | file l content => simp [hfollow] at h
    | free m =>
      simp only [hfollow, Except.ok.injEq] at h
      obtain ⟨before, l, name, hpath, hdot, hup, hbefore, rfl, hnone⟩ :=
        split_of_free (fun hdots => FilePath.ne_dot_of_mem_moves hdots rfl) hfollow
      have hentry : u.entry? = Layout.set t.entry? (l ++ [name]) .directory := by
        rw [← h, entry?_put t (by simp)]
      have hgrown : Grown t (t.way path) u := by
        refine ⟨by rw [← h, start_put], fun m => ?_⟩
        rw [hentry, Layout.set]
        by_cases hm : m = l ++ [name]
        · subst hm
          rw [if_pos rfl, FileTree.way_eq, hpath]
          exact .inr ⟨mem_passing_of_follow hdot hup hbefore, hnone, rfl⟩
        · exact .inl (if_neg hm)
      refine ⟨hgrown, reaches_of_follow (l := l ++ [name]) ?_⟩
      have hthere : u.entry? (l ++ [name]) = some .directory := by
        rw [hentry, Layout.set, if_pos rfl]
      have horigin : u.origin path = t.origin path := by rw [origin, origin, hgrown.start]
      rw [horigin, hpath, follow_append u _ _ (List.cons_ne_nil name []),
        follow_of_directories (fun _ => hgrown.kept) hbefore]
      simp only [follow_name u l [] hdot hup, hthere]
      rfl

/-- Directories are made on the way of the path, and if none is missing in the end, the path can be
followed. -/
theorem makeAllFrom_grown (n : Nat) (t : FileTree) (htidy : Tidy path) :
    Grown t (t.way path) (t.makeAllFrom n path).1 ∧
      ((t.makeAllFrom n path).2 = none → (t.makeAllFrom n path).1.Reaches path) := by
  induction n generalizing path t with
  | zero => exact ⟨.refl t _, fun hnone => by cases hnone⟩
  | succ n ih =>
    unfold makeAllFrom
    by_cases hempty : path = ""
    · subst hempty
      exact ⟨.refl t _, fun _ => rfl⟩
    rw [if_neg hempty]
    have hdone : ∀ (u : FileTree) (e : FileError),
        (if u.isDirectory path then none else some e) = none → u.Reaches path := by
      intro u e hnone
      refine reaches_of_isDirectory htidy hempty ?_
      by_contra hnot
      simp [hnot] at hnone
    cases hmake : t.makeDirectory path with
    | ok u =>
      obtain ⟨hgrown, hreaches⟩ := makeDirectory_grown htidy hempty hmake
      exact ⟨hgrown, fun _ => hreaches⟩
    | error e =>
      cases e with
      | notDirectory | occupied | isDirectory => exact ⟨.refl t _, hdone t _⟩
      | notFound =>
        cases hparent : FilePath.parent? path with
        | none => exact ⟨.refl t _, fun hnone => by cases hnone⟩
        | some above =>
          have habove := FilePath.above_of_parent? hparent
          have hway : t.way above ⊆ t.way path := by
            have horigin : t.origin above = t.origin path := by
              rw [origin, origin, habove.isRooted]
            rw [way_eq, way_eq, horigin, habove.moves]
            exact passing_dropLast_subset _ _
          obtain ⟨hgrown, -⟩ := ih t habove.tidy
          replace hgrown := hgrown.mono hway
          rcases hr : t.makeAllFrom n above with ⟨u, error⟩
          rw [hr] at hgrown
          simp only [hr]
          cases error with
          | some e => exact ⟨hgrown, fun hnone => by cases hnone⟩
          | none =>
            cases hlast : u.makeDirectory path with
            | error e =>
              simp only [hlast]
              exact ⟨hgrown, hdone u e⟩
            | ok v =>
              simp only [hlast]
              obtain ⟨hgrown', hreaches⟩ := makeDirectory_grown htidy hempty hlast
              rw [hgrown.way_eq] at hgrown'
              exact ⟨hgrown.trans hgrown', fun _ => hreaches⟩

end Growing

end FileTree

/-! Writing a file -/

namespace OutputFile

open FilePath (join place IsName)

/-- The file has a name in the directory. -/
def InDirectory (directory : String) (f : OutputFile) : Prop :=
  ∃ name, IsName name ∧ f.path = join directory name

/-- The file is there and its directory can be reached. Nothing else is changed but directories
that are made on the way to it. -/
structure Stored (directory : String) (f : OutputFile) (t u : FileTree) : Prop where
  start : u.start = t.start
  reaches : u.Reaches directory
  not_directory : t.entry? (place t.start f.path) ≠ some .directory
  self : u.entry? (place t.start f.path) = some (.file f.content)
  other : ∀ l, l ≠ place t.start f.path → u.entry? l = t.entry? l ∨
    l ∈ t.way directory ∧ t.entry? l = none ∧ u.entry? l = some .directory

variable {directory : String} {f : OutputFile} {t u : FileTree}

theorem InDirectory.place_ne_nil (hf : f.InDirectory directory) (start : List String) :
    place start f.path ≠ [] := by
  obtain ⟨name, hname, hpath⟩ := hf
  simp [hpath, FilePath.place_join_of_name start directory hname]

theorem InDirectory.holds_iff (hf : f.InDirectory directory) (t : FileTree) :
    t.holds f.path = true ↔ t.Reaches directory ∧ t.entry? (place t.start f.path) ≠ none := by
  obtain ⟨name, hname, hpath⟩ := hf
  rw [hpath, FilePath.place_join_of_name _ _ hname]
  exact t.holds_join_iff directory hname

/-- Preparing makes all directories of a path that leads where the directory does. -/
theorem InDirectory.exists_above (hf : f.InDirectory directory) :
    ∃ above, FilePath.Tidy above ∧ FilePath.moves above = FilePath.moves directory ∧
      FilePath.isRooted above = FilePath.isRooted directory ∧
      ∀ t, f.prepare t = ((t.makeAll above).1, (t.makeAll above).2.map (.create above)) := by
  obtain ⟨name, hname, hpath⟩ := hf
  have hmoves := FilePath.moves_join directory hname
  obtain ⟨above, hparent⟩ :=
    FilePath.exists_parent? (show FilePath.moves (join directory name) ≠ [] by simp [hmoves])
  have habove := FilePath.above_of_parent? hparent
  refine ⟨above, habove.tidy, ?_, ?_, fun t => ?_⟩
  · rw [habove.moves, hmoves, List.dropLast_concat]
  · rw [habove.isRooted, FilePath.isRooted_join_of_name directory hname]
  · rw [prepare, hpath, hparent]

theorem InDirectory.prepare_grown (hf : f.InDirectory directory) (t : FileTree) :
    FileTree.Grown t (t.way directory) (f.prepare t).1 ∧
      ((f.prepare t).2 = none → (f.prepare t).1.Reaches directory) := by
  obtain ⟨above, htidy, hsame, hrooted, hprepare⟩ := hf.exists_above
  have hway : t.way above = t.way directory := by
    rw [FileTree.way_eq, FileTree.way_eq, hsame, FileTree.origin, FileTree.origin, hrooted]
  obtain ⟨hgrown, hreaches⟩ := FileTree.makeAllFrom_grown (above.length + 1) t htidy
  rw [hprepare]
  refine ⟨hway ▸ hgrown, fun hnone => ?_⟩
  have hdirectory := hreaches (Option.map_eq_none_iff.mp hnone)
  rw [FileTree.Reaches, FileTree.origin, place, hsame, hrooted] at hdirectory
  exact hdirectory

theorem InDirectory.store_ok (hf : f.InDirectory directory) {r : WriteResult}
    (h : f.store t = (.ok r, u)) : r = .written ∧ f.Stored directory t u := by
  obtain ⟨hgrown, hreaches⟩ := hf.prepare_grown t
  have hne := hf.place_ne_nil t.start
  obtain ⟨name, hname, hpath⟩ := hf
  have hplace := FilePath.place_join_of_name t.start directory hname
  rw [← hpath] at hplace
  rw [store] at h
  rcases hprepare : f.prepare t with ⟨v, error⟩
  rw [hprepare] at hgrown hreaches h
  cases error with
  | some e => cases h
  | none =>
    replace hreaches : v.Reaches directory := hreaches rfl
    replace hgrown : FileTree.Grown t (t.way directory) v := hgrown
    simp only [hpath, hreaches.store_join hname] at h
    rw [hgrown.start, ← FilePath.place_join_of_name t.start directory hname, ← hpath] at h
    by_cases hdirectory : v.entry? (place t.start f.path) = some .directory
    · simp [hdirectory] at h
    simp only [hdirectory, if_false, Prod.mk.injEq, Except.ok.injEq] at h
    obtain ⟨rfl, rfl⟩ := h
    have hentry := FileTree.entry?_put v hne (.file f.content)
    have hother : ∀ l, l ≠ place t.start f.path →
        FileTree.entry? (v.put (place t.start f.path) (.file f.content)) l = v.entry? l := by
      intro l hl
      rw [hentry, Layout.set, if_neg hl]
    refine ⟨rfl, by rw [FileTree.start_put, hgrown.start], ?_, ?_, ?_, ?_⟩
    · refine hreaches.kept (FileTree.start_put ..) fun l hl => ?_
      rw [hother l (fun heq => hdirectory (heq ▸ hl)), hl]
    · exact fun hbefore => hdirectory (hgrown.kept hbefore)
    · rw [hentry, Layout.set, if_pos rfl]
    · intro l hl
      rw [hother l hl]
      exact hgrown.entries l

/-- All that writing a file can do when it succeeds. -/
theorem InDirectory.write_ok (hf : f.InDirectory directory) {r : WriteResult}
    (h : f.write t = (.ok r, u)) :
    let there := t.Reaches directory ∧ t.entry? (place t.start f.path) ≠ none
    (r = .skipped ∧ u = t ∧ f.overwrite = .ifMissing ∧ there) ∨
      (r = .written ∧ f.Stored directory t u ∧ ¬(f.overwrite = .ifMissing ∧ there)) := by
  intro there
  rw [write] at h
  cases hoverwrite : f.overwrite with
  | always =>
    rw [hoverwrite] at h
    obtain ⟨rfl, hstored⟩ := hf.store_ok h
    exact .inr ⟨rfl, hstored, by simp⟩
  | ifMissing =>
    simp only [hoverwrite] at h
    by_cases hholds : t.holds f.path = true
    · rw [if_pos hholds] at h
      cases h
      exact .inl ⟨rfl, rfl, rfl, (hf.holds_iff t).mp hholds⟩
    · rw [if_neg hholds] at h
      obtain ⟨rfl, hstored⟩ := hf.store_ok h
      exact .inr ⟨rfl, hstored, fun hthere => hholds ((hf.holds_iff t).mpr hthere.2)⟩

end OutputFile
end TypedApi
