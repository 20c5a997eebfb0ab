import Mathlib.Data.List.Nodup
import TypedApi.Proofs.Completion
import TypedApi.Proofs.Growth

/-!
What a run leaves in the files. One that fails before it writes, or only shows the files, leaves
them as they were. One that succeeds has written its own files and directories on the way to them,
and nothing else. Files that are to be kept are kept unless a file cannot be found before its
directory is made, because its path goes up in a directory that is yet to be made, or the path of
the directory itself runs through the place of a file.
-/
namespace TypedApi.Run

open FilePath (place)

/-- Files with names of their own in a directory. -/
structure Filed (directory : String) (fs : List OutputFile) : Prop where
  inside : ∀ f ∈ fs, f.InDirectory directory
  distinct : (fs.map (·.path)).Nodup

/-- The files of these paths are written in the directory and can be found there. Nothing else is
changed but directories that are made on the way to it. -/
structure Footprint (directory : String) (fs : List OutputFile) (written : List String)
    (t u : FileTree) : Prop where
  start : u.start = t.start
  frame : ∀ l, u.entry? l = t.entry? l ∨
    (l ∈ t.way directory ∧ t.entry? l = none ∧ u.entry? l = some .directory) ∨
    ∃ f ∈ fs, f.path ∈ written ∧ l = place t.start f.path ∧ t.entry? l ≠ some .directory
  stored : ∀ f ∈ fs, f.path ∈ written →
    u.Reaches directory ∧ u.entry? (place t.start f.path) = some (.file f.content)

/-- What was there as a file is there unchanged, and the files that are kept are just those whose
places were taken. -/
structure Spares (fs : List OutputFile) (kept : List String) (t u : FileTree) : Prop where
  contents : ∀ l content, t.entry? l = some (.file content) → u.entry? l = some (.file content)
  kept : ∀ f ∈ fs, f.path ∈ kept ↔ t.entry? (place t.start f.path) ≠ none

/-- Where the first file is there already, the directory can be reached; and the way to the
directory does not make one in the place of a later file. -/
structure Settled (t : FileTree) (directory : String) (fs : List OutputFile) : Prop where
  reached : ∀ f ∈ fs.head?, t.entry? (place t.start f.path) ≠ none → t.Reaches directory
  bypassed : ∀ f ∈ fs.tail, place t.start f.path ∈ t.way directory →
    t.entry? (place t.start f.path) ≠ none

/-- What is reported about files that have been written to a directory by their rules: each is
reported once, what has changed is what is reported as written, and files are kept only if they are
to be. Then those that were there are kept, and no others, just in a tree that is settled. -/
structure Delivery (mode : Mode) (directory : String) (fs : List OutputFile)
    (written kept : List String) (t u : FileTree) : Prop where
  distinct : (fs.map (·.path)).Nodup
  listed : (written ++ kept).Perm (fs.map (·.path))
  footprint : Footprint directory fs written t u
  replacing : mode.skipExisting = false → kept = []
  sparing : mode.skipExisting = true → (Spares fs kept t u ↔ Settled t directory fs)

section Writes

variable {directory : String} {f : OutputFile} {fs : List OutputFile}
  {rs : List (String × WriteResult)} {t u : FileTree}

theorem Filed.head (h : Filed directory (f :: fs)) : f.InDirectory directory :=
  h.inside f (List.mem_cons_self ..)

theorem Filed.tail (h : Filed directory (f :: fs)) : Filed directory fs :=
  ⟨fun g hg => h.inside g (List.mem_cons_of_mem _ hg), (List.nodup_cons.mp h.distinct).2⟩

theorem Filed.path_ne (h : Filed directory (f :: fs)) {g : OutputFile} (hg : g ∈ fs) :
    g.path ≠ f.path :=
  fun heq => (List.nodup_cons.mp h.distinct).1 (List.mem_map.mpr ⟨g, hg, heq⟩)

/-- Files of different paths have different places. -/
theorem Filed.place_ne (h : Filed directory (f :: fs)) {g : OutputFile} (hg : g ∈ fs)
    (start : List String) : place start g.path ≠ place start f.path := by
  obtain ⟨name, hname, hpath⟩ := h.head
  obtain ⟨name', hname', hpath'⟩ := h.tail.inside g hg
  intro heq
  rw [hpath, hpath', FilePath.place_join_of_name _ _ hname, FilePath.place_join_of_name _ _ hname',
    List.append_cancel_left_eq, List.singleton_inj] at heq
  exact h.path_ne hg (by rw [hpath, hpath', heq])

theorem writeAll_cons_ok (h : writeAll t (f :: fs) = (.ok rs, u)) :
    ∃ r v qs, f.write t = (.ok r, v) ∧ writeAll v fs = (.ok qs, u) ∧ rs = (f.path, r) :: qs := by
  rw [writeAll] at h
  rcases hwrite : f.write t with ⟨result, v⟩
  rw [hwrite] at h
  cases result with
  | error e => cases h
  | ok r =>
    rcases hrest : writeAll v fs with ⟨results, w⟩
    simp only [hrest] at h
    cases results with
    | error e => cases h
    | ok qs =>
      simp only [Prod.mk.injEq, Except.ok.injEq] at h
      obtain ⟨rfl, rfl⟩ := h
      exact ⟨r, v, qs, rfl, hrest, rfl⟩

theorem map_fst_writeAll (h : writeAll t fs = (.ok rs, u)) : rs.map (·.1) = fs.map (·.path) := by
  induction fs generalizing t rs with
  | nil =>
    cases h
    rfl
  | cons f fs ih =>
    obtain ⟨r, v, qs, -, hrest, rfl⟩ := writeAll_cons_ok h
    rw [List.map_cons, List.map_cons, ih hrest]

theorem mem_pathsOf {result : WriteResult} {path : String} :
    path ∈ pathsOf result rs ↔ (path, result) ∈ rs := by
  simp [pathsOf]

/-- Every result is of one kind or the other. -/
theorem pathsOf_perm (rs : List (String × WriteResult)) :
    (pathsOf .written rs ++ pathsOf .skipped rs).Perm (rs.map (·.1)) := by
  have hother : (fun p : String × WriteResult => p.2 == .skipped) =
      fun p => !(p.2 == .written) := by
    funext p
    cases p.2 <;> rfl
  rw [pathsOf, pathsOf, hother, ← List.map_append]
  exact (List.filter_append_perm _ rs).map _

/-- The result of the first of several files is its own. -/
theorem mem_results_head (hfs : Filed directory (f :: fs)) {qs : List (String × WriteResult)}
    {v : FileTree} (hrest : writeAll v fs = (.ok qs, u)) {r result : WriteResult} :
    (f.path, result) ∈ (f.path, r) :: qs ↔ result = r := by
  have hnot : (f.path, result) ∉ qs := by
    intro hmem
    have hpath : f.path ∈ fs.map (·.path) := by
      rw [← map_fst_writeAll hrest]
      exact List.mem_map_of_mem (f := (·.1)) hmem
    exact (List.nodup_cons.mp hfs.distinct).1 hpath
  simp [hnot]

theorem mem_results_tail (hfs : Filed directory (f :: fs)) {qs : List (String × WriteResult)}
    {g : OutputFile} (hg : g ∈ fs) {r result : WriteResult} :
    (g.path, result) ∈ (f.path, r) :: qs ↔ (g.path, result) ∈ qs := by
  simp [hfs.path_ne hg]

theorem Footprint.kept {written : List String} (h : Footprint directory fs written t u)
    {l : List String} (hl : t.entry? l = some .directory) : u.entry? l = some .directory := by
  rcases h.frame l with heq | ⟨-, -, hnew⟩ | ⟨f, -, -, -, hnot⟩
  · rw [heq, hl]
  · exact hnew
  · exact absurd hl hnot

theorem Footprint.reaches {written : List String} (h : Footprint directory fs written t u)
    (ht : t.Reaches directory) : u.Reaches directory :=
  ht.kept h.start fun _ => h.kept

/-- A file that is there stays where no other file is written. -/
theorem Footprint.spared {written : List String} (h : Footprint directory fs written t u)
    {l : List String} {content : String} (hl : t.entry? l = some (.file content))
    (hnot : ∀ f ∈ fs, f.path ∈ written → l ≠ place t.start f.path) :
    u.entry? l = some (.file content) := by
  rcases h.frame l with heq | ⟨-, hnone, -⟩ | ⟨f, hf, hwritten, hplace, -⟩
  · rw [heq, hl]
  · simp [hl] at hnone
  · exact absurd hplace (hnot f hf hwritten)

/-- One file written, then the rest. -/
theorem Footprint.cons {written : List String} {v : FileTree} (hfs : Filed directory (f :: fs))
    (hstored : f.Stored directory t v) (h : Footprint directory fs written v u) :
    Footprint directory (f :: fs) (f.path :: written) t u where
  start := h.start.trans hstored.start
  frame l := by
    by_cases hl : l = place t.start f.path
    · exact .inr (.inr ⟨f, List.mem_cons_self .., List.mem_cons_self .., hl,
        hl ▸ hstored.not_directory⟩)
    have hway : v.way directory = t.way directory := by
      rw [FileTree.way, FileTree.way, FileTree.origin, FileTree.origin, hstored.start]
    have hother := hstored.other l hl
    rcases h.frame l with heq | ⟨hlw, hnone, hnew⟩ | ⟨g, hg, hgw, hplace, hnot⟩
    · rw [heq]
      exact hother.imp_right .inl
    · rcases hother with hsame | ⟨-, -, hdirectory⟩
      · exact .inr (.inl ⟨hway ▸ hlw, hsame ▸ hnone, hnew⟩)
      · rw [hdirectory] at hnone
        cases hnone
    · refine .inr (.inr ⟨g, List.mem_cons_of_mem _ hg, List.mem_cons_of_mem _ hgw,
        hstored.start ▸ hplace, fun hdirectory => ?_⟩)
      rcases hother with hsame | ⟨-, hnone, -⟩
      · exact hnot (hsame.trans hdirectory)
      · rw [hdirectory] at hnone
        cases hnone
  stored g hg hgw := by
    rcases List.mem_cons.mp hg with rfl | hg
    · refine ⟨h.reaches hstored.reaches, h.spared hstored.self fun g' hg' _ heq => ?_⟩
      rw [hstored.start] at heq
      exact hfs.place_ne hg' t.start heq.symm
    · have hgw' : g.path ∈ written := (List.mem_cons.mp hgw).resolve_left (hfs.path_ne hg)
      rw [← hstored.start]
      exact h.stored g hg hgw'

/-- One file kept, then the rest. -/
theorem Footprint.cons_kept {written : List String} (hfs : Filed directory (f :: fs))
    (h : Footprint directory fs written t u) (hwritten : ∀ p ∈ written, p ∈ fs.map (·.path)) :
    Footprint directory (f :: fs) written t u where
  start := h.start
  frame l := (h.frame l).imp_right fun hrest => hrest.imp_right fun ⟨g, hg, hgw, hplace⟩ =>
    ⟨g, List.mem_cons_of_mem _ hg, hgw, hplace⟩
  stored g hg hgw := by
    rcases List.mem_cons.mp hg with rfl | hg
    · exact absurd (hwritten _ hgw) (List.nodup_cons.mp hfs.distinct).1
    · exact h.stored g hg hgw

theorem pathsOf_subset (h : writeAll t fs = (.ok rs, u)) {result : WriteResult} :
    ∀ p ∈ pathsOf result rs, p ∈ fs.map (·.path) := by
  intro p hp
  rw [← map_fst_writeAll h]
  exact List.mem_map_of_mem (f := (·.1)) (mem_pathsOf.mp hp)

/-- What a run of writes that succeeds leaves behind. -/
theorem writeAll_footprint (hfs : Filed directory fs) (h : writeAll t fs = (.ok rs, u)) :
    Footprint directory fs (pathsOf .written rs) t u := by
  induction fs generalizing t rs with
  | nil =>
    cases h
    exact ⟨rfl, fun _ => .inl rfl, by simp⟩
  | cons f fs ih =>
    obtain ⟨r, v, qs, hwrite, hrest, rfl⟩ := writeAll_cons_ok h
    have hfoot := ih hfs.tail hrest
    rcases hfs.head.write_ok hwrite with ⟨rfl, rfl, -, -⟩ | ⟨rfl, hstored, -⟩
    · exact hfoot.cons_kept hfs (pathsOf_subset hrest)
    · exact hfoot.cons hfs hstored

/-- In a directory that can be reached, a file is skipped if its place is taken and it is to be
kept. -/
theorem writeAll_skipped (hfs : Filed directory fs) (ht : t.Reaches directory)
    (h : writeAll t fs = (.ok rs, u)) :
    ∀ f ∈ fs, (f.path, .skipped) ∈ rs ↔
      f.overwrite = .ifMissing ∧ t.entry? (place t.start f.path) ≠ none := by
  induction fs generalizing t rs with
  | nil => simp
  | cons f fs ih =>
    obtain ⟨r, v, qs, hwrite, hrest, rfl⟩ := writeAll_cons_ok h
    have hcases := hfs.head.write_ok hwrite
    refine List.forall_mem_cons.mpr ⟨?_, fun g hg => ?_⟩
    · rw [mem_results_head hfs hrest]
      rcases hcases with ⟨rfl, -, hmissing, -, hentry⟩ | ⟨rfl, -, hnot⟩
      · exact iff_of_true rfl ⟨hmissing, hentry⟩
      · exact iff_of_false nofun fun hthere => hnot ⟨hthere.1, ht, hthere.2⟩
    · rw [mem_results_tail hfs hg]
      rcases hcases with ⟨-, rfl, -⟩ | ⟨-, hstored, -⟩
      · exact ih hfs.tail ht hrest g hg
      · have hentry : v.entry? (place t.start g.path) = t.entry? (place t.start g.path) := by
          -- No directory is made, for all on the way are there.
          refine (hstored.other _ (hfs.place_ne hg t.start)).resolve_right ?_
          rintro ⟨hway, hnone, -⟩
          rw [FileTree.way_eq] at hway
          rw [FileTree.directory_of_mem_passing ht hway] at hnone
          cases hnone
        rw [ih hfs.tail hstored.reaches hrest g hg, hstored.start, hentry]

/-- Once the first file is seen to, the directory can be reached, and the place of a later file is
taken if it was before or if it is a directory on the way. -/
theorem first_settled (hfs : Filed directory (f :: fs)) {r : WriteResult} {v : FileTree}
    (h : f.write t = (.ok r, v)) :
    v.start = t.start ∧ v.Reaches directory ∧ ∀ g ∈ fs,
      v.entry? (place t.start g.path) ≠ none ↔
        t.entry? (place t.start g.path) ≠ none ∨ place t.start g.path ∈ t.way directory := by
  have hway : ∀ l ∈ t.way directory, v.start = t.start → v.Reaches directory →
      v.entry? l ≠ none := by
    intro l hl hstart hreaches hnone
    rw [FileTree.way_eq, FileTree.origin, ← hstart] at hl
    rw [FileTree.directory_of_mem_passing hreaches hl] at hnone
    cases hnone
  rcases hfs.head.write_ok h with ⟨-, rfl, -, hreaches, -⟩ | ⟨-, hstored, -⟩
  · refine ⟨rfl, hreaches, fun g _ => ⟨.inl, fun hg => hg.elim id fun hl => ?_⟩⟩
    exact hway _ hl rfl hreaches
  · refine ⟨hstored.start, hstored.reaches, fun g hg => ?_⟩
    have hother := hstored.other _ (hfs.place_ne hg t.start)
    constructor
    · intro hthere
      rcases hother with hsame | ⟨hl, -, -⟩
      · exact .inl (hsame ▸ hthere)
      · exact .inr hl
    · rintro (hthere | hl)
      · rcases hother with hsame | ⟨-, hnone, -⟩
        · rwa [hsame]
        · exact absurd hnone hthere
      · exact hway _ hl hstored.start hstored.reaches

/-- A file with a place that was taken is not among those written, if it is among those kept. -/
theorem not_written_of_skipped (hfs : Filed directory fs) (h : writeAll t fs = (.ok rs, u))
    {path : String} (hskipped : (path, .skipped) ∈ rs) : (path, .written) ∉ rs := by
  intro hwritten
  have hkeys : (rs.map (·.1)).Nodup := map_fst_writeAll h ▸ hfs.distinct
  cases List.inj_on_of_nodup_map hkeys hskipped hwritten rfl

/-- The first file is kept if it can be found. -/
theorem head_skipped_iff (hfs : Filed directory (f :: fs)) (hmissing : f.overwrite = .ifMissing)
    {r : WriteResult} {v : FileTree} {qs : List (String × WriteResult)}
    (hwrite : f.write t = (.ok r, v)) (hrest : writeAll v fs = (.ok qs, u)) :
    f.path ∈ pathsOf .skipped ((f.path, r) :: qs) ↔
      t.Reaches directory ∧ t.entry? (place t.start f.path) ≠ none := by
  rw [mem_pathsOf, mem_results_head hfs hrest]
  rcases hfs.head.write_ok hwrite with ⟨rfl, -, -, hthere⟩ | ⟨rfl, -, hnot⟩
  · exact iff_of_true rfl hthere
  · exact iff_of_false nofun fun hthere => hnot ⟨hmissing, hthere⟩

/-- A later file is kept if its place was taken, or is taken by a directory on the way. -/
theorem tail_skipped_iff (hfs : Filed directory (f :: fs))
    (hmissing : ∀ g ∈ fs, g.overwrite = .ifMissing) {r : WriteResult} {v : FileTree}
    {qs : List (String × WriteResult)} (hwrite : f.write t = (.ok r, v))
    (hrest : writeAll v fs = (.ok qs, u)) :
    ∀ g ∈ fs, g.path ∈ pathsOf .skipped ((f.path, r) :: qs) ↔
      t.entry? (place t.start g.path) ≠ none ∨ place t.start g.path ∈ t.way directory := by
  intro g hg
  obtain ⟨hstart, hreaches, htaken⟩ := first_settled hfs hwrite
  rw [mem_pathsOf, mem_results_tail hfs hg, writeAll_skipped hfs.tail hreaches hrest g hg,
    hstart, htaken g hg]
  exact and_iff_right (hmissing g hg)

/-- Just those files are kept that were there, if the tree is settled and only then. -/
theorem skipped_iff_settled (hfs : Filed directory fs)
    (hmissing : ∀ f ∈ fs, f.overwrite = .ifMissing) (h : writeAll t fs = (.ok rs, u)) :
    (∀ f ∈ fs, f.path ∈ pathsOf .skipped rs ↔ t.entry? (place t.start f.path) ≠ none) ↔
      Settled t directory fs := by
  cases fs with
  | nil => exact iff_of_true (by simp) ⟨by simp, by simp⟩
  | cons f fs =>
    obtain ⟨hf, hlater⟩ := List.forall_mem_cons.mp hmissing
    obtain ⟨r, v, qs, hwrite, hrest, rfl⟩ := writeAll_cons_ok h
    have hfirst := head_skipped_iff hfs hf hwrite hrest
    have hrests := tail_skipped_iff hfs hlater hwrite hrest
    constructor
    · intro hkept
      obtain ⟨hkf, hkg⟩ := List.forall_mem_cons.mp hkept
      refine ⟨fun f' hf' hthere => ?_, fun g hg hway => ?_⟩
      · obtain rfl : f = f' := by simpa using hf'
        exact (hfirst.mp (hkf.mpr hthere)).1
      · exact (hkg g hg).mp ((hrests g hg).mpr (.inr hway))
    · rintro ⟨hreached, hbypassed⟩
      refine List.forall_mem_cons.mpr ⟨?_, fun g hg => ?_⟩
      · rw [hfirst]
        exact and_iff_right_of_imp (hreached f rfl)
      · rw [hrests g hg]
        exact or_iff_left_of_imp (hbypassed g hg)

/-- Files that are to be kept are kept just in a tree that is settled. -/
theorem spares_iff (hfs : Filed directory fs) (hmissing : ∀ f ∈ fs, f.overwrite = .ifMissing)
    (h : writeAll t fs = (.ok rs, u)) :
    Spares fs (pathsOf .skipped rs) t u ↔ Settled t directory fs := by
  rw [← skipped_iff_settled hfs hmissing h]
  refine ⟨Spares.kept, fun hkept => ⟨fun l content hl => ?_, hkept⟩⟩
  refine (writeAll_footprint hfs h).spared hl fun g hg hwritten hplace => ?_
  subst hplace
  have hskipped : g.path ∈ pathsOf .skipped rs := (hkept g hg).mpr (by simp [hl])
  exact not_written_of_skipped hfs h (mem_pathsOf.mp hskipped) (mem_pathsOf.mp hwritten)

theorem overwrite_of_skipped (hfs : Filed directory fs) (h : writeAll t fs = (.ok rs, u)) :
    ∀ f ∈ fs, (f.path, .skipped) ∈ rs → f.overwrite = .ifMissing := by
  induction fs generalizing t rs with
  | nil => simp
  | cons f fs ih =>
    obtain ⟨r, v, qs, hwrite, hrest, rfl⟩ := writeAll_cons_ok h
    refine List.forall_mem_cons.mpr ⟨fun hskipped => ?_, fun g hg hskipped => ?_⟩
    · rw [mem_results_head hfs hrest] at hskipped
      rcases hfs.head.write_ok hwrite with ⟨-, -, hmissing, -⟩ | ⟨hwritten, -⟩
      · exact hmissing
      · rw [hwritten] at hskipped
        cases hskipped
    · rw [mem_results_tail hfs hg] at hskipped
      exact ih hfs.tail hrest g hg hskipped

theorem pathsOf_skipped_eq_nil (hfs : Filed directory fs)
    (halways : ∀ f ∈ fs, f.overwrite = .always) (h : writeAll t fs = (.ok rs, u)) :
    pathsOf .skipped rs = [] := by
  rw [List.eq_nil_iff_forall_not_mem]
  intro path hpath
  obtain ⟨f, hf, rfl⟩ := List.mem_map.mp (pathsOf_subset h path hpath)
  have hmissing := overwrite_of_skipped hfs h f hf (mem_pathsOf.mp hpath)
  rw [halways f hf] at hmissing
  cases hmissing

/-- A path that goes up only in directories that are there settles the tree. -/
theorem settled_of_leads (ht : t.WellFormed) (h : t.Leads directory (place t.start directory))
    (hfs : Filed directory fs) : Settled t directory fs := by
  have hplace : ∀ f ∈ fs, ∃ name, place t.start f.path = place t.start directory ++ [name] := by
    intro f hf
    obtain ⟨name, hname, hpath⟩ := hfs.inside f hf
    exact ⟨name, hpath ▸ FilePath.place_join_of_name t.start directory hname⟩
  refine ⟨fun f hf hthere => ?_, fun f hf hway => ?_⟩
  · obtain ⟨name, hname⟩ := hplace f (List.mem_of_mem_head? hf)
    obtain ⟨e, he⟩ := Option.ne_none_iff_exists'.mp hthere
    exact ht.reaches_of_leads h (ht.closed.above _ _ _ (hname ▸ he))
  · obtain ⟨name, hname⟩ := hplace f (List.mem_of_mem_tail hf)
    rcases h.mem_way hway with hdirectory | hprefix
    · simp [hdirectory]
    · rw [hname] at hprefix
      have hlength := hprefix.length_le
      rw [List.length_append, List.length_singleton] at hlength
      omega

end Writes

theorem filed_outputFiles (a : TypeScript.Artifacts) (output : String) (overwrite : Overwrite) :
    Filed output (outputFiles a output overwrite) := by
  have hne : FilePath.join output TypeScript.TypesFile.fileName ≠
      FilePath.join output TypeScript.ClientFile.fileName := by
    intro heq
    have hmoves := congrArg FilePath.moves heq
    rw [FilePath.moves_join output (Job.isName_of_mem (by simp [Job.fileNames])),
      FilePath.moves_join output (Job.isName_of_mem (by simp [Job.fileNames])),
      List.append_cancel_left_eq] at hmoves
    revert hmoves
    decide
  refine ⟨fun f hf => ?_, ?_⟩
  · simp only [outputFiles, List.map_cons, List.map_nil, List.mem_cons, List.not_mem_nil,
      or_false] at hf
    rcases hf with rfl | rfl
    · exact ⟨_, Job.isName_of_mem (by simp [Job.fileNames]), rfl⟩
    · exact ⟨_, Job.isName_of_mem (by simp [Job.fileNames]), rfl⟩
  · simpa [outputFiles] using hne

theorem overwrite_outputFiles (a : TypeScript.Artifacts) (output : String)
    (overwrite : Overwrite) :
    ∀ f ∈ outputFiles a output overwrite, f.overwrite = overwrite := by
  simp [outputFiles]

section Runs

variable {mode : Mode} {a : TypeScript.Artifacts} {output : String} {t u : FileTree}

/-- Without a dry run the files are written, and reported as written or as kept. -/
theorem produce_delivery {product : Report.Product} (hwet : mode.dryRun = false)
    (h : produce mode (outputFiles a output mode.overwrite) t = (.ok product, u)) :
    ∃ written kept, product = .files written kept ∧
      Delivery mode output (outputFiles a output mode.overwrite) written kept t u := by
  have hfiled := filed_outputFiles a output mode.overwrite
  have hoverwrite := overwrite_outputFiles a output mode.overwrite
  rw [produce, hwet, if_neg Bool.false_ne_true] at h
  rcases hwrites : writeAll t (outputFiles a output mode.overwrite) with ⟨results, v⟩
  rw [hwrites] at h
  cases results with
  | error e => cases h
  | ok rs =>
    cases h
    refine ⟨pathsOf .written rs, pathsOf .skipped rs, rfl, hfiled.distinct,
      map_fst_writeAll hwrites ▸ pathsOf_perm rs, writeAll_footprint hfiled hwrites,
      fun hreplace => ?_, fun hspare => ?_⟩
    · have halways : mode.overwrite = .always := by simp [Mode.overwrite, hreplace]
      exact pathsOf_skipped_eq_nil hfiled (halways ▸ hoverwrite) hwrites
    · have hmissing : mode.overwrite = .ifMissing := by simp [Mode.overwrite, hspare]
      exact spares_iff hfiled (hmissing ▸ hoverwrite) hwrites

/-- What an invocation makes of a document: it fails before any file is touched, or shows its files,
or delivers them. -/
theorem generateFrom_delivery [JsonWording] (i : Invocation) (mode : Mode) (d : InterfaceDocument)
    (t : FileTree) :
    let generated := TypeScript.Artifacts.generate ⟨i.naming, i.requestPath⟩ d.endpoint
    (∀ e, generated = .error e → generateFrom i mode d t = (.error (.naming i.id e), t)) ∧
    (mode.dryRun = true → (generateFrom i mode d t).2 = t) ∧
    ∀ g u, generateFrom i mode d t = (.ok g, u) → mode.dryRun = false →
      ∃ a written kept, generated = .ok a ∧ g.product = .files written kept ∧
        Delivery mode i.output (outputFiles a i.output mode.overwrite) written kept t u := by
  intro generated
  rw [generateFrom]
  cases hgenerated : TypeScript.Artifacts.generate ⟨i.naming, i.requestPath⟩ d.endpoint with
  | error e =>
    refine ⟨fun e' he' => ?_, fun _ => rfl, fun g u hg => ?_⟩
    · cases hgenerated.symm.trans he'
      rfl
    · cases hg
  | ok a =>
    rcases hproduce : produce mode (outputFiles a i.output mode.overwrite) t with ⟨product, v⟩
    refine ⟨fun e he => ?_, fun hdry => ?_, fun g u hg hwet => ?_⟩
    · cases hgenerated.symm.trans he
    · have hsame : t = v := by
        rw [produce, hdry, if_pos rfl] at hproduce
        exact congrArg Prod.snd hproduce
      rw [hsame] at hproduce
      cases product <;> simp only [hproduce, hsame]
    · cases product with
      | error e => simp [hproduce] at hg
      | ok product =>
        simp only [hproduce, Prod.mk.injEq, Except.ok.injEq] at hg
        obtain ⟨rfl, rfl⟩ := hg
        obtain ⟨written, kept, rfl, hdelivery⟩ := produce_delivery hwet hproduce
        exact ⟨a, written, kept, hgenerated, rfl, hdelivery⟩

/-- A run that does not come to its files, or only shows them, leaves all files as they were.
Otherwise a run that succeeds delivers its two files, for the document that it fetched, to its
output. -/
theorem generate_footprint [JsonWording] (source : Source) (i : Invocation) (mode : Mode)
    (w : World) :
    let fetched := (i.source.fetch source i.id w.made).1
    let generated (d : InterfaceDocument) :=
      TypeScript.Artifacts.generate ⟨i.naming, i.requestPath⟩ d.endpoint
    let result := (generate source i mode w).1
    let files := (generate source i mode w).2.files
    (∀ e, fetched = .error e → result = .error (.fetch i.id e) ∧ files = w.files) ∧
    (∀ d e, fetched = .ok d → generated d = .error e →
      result = .error (.naming i.id e) ∧ files = w.files) ∧
    (mode.dryRun = true → files = w.files) ∧
    ∀ g, result = .ok g → mode.dryRun = false → ∃ d a written kept,
      fetched = .ok d ∧ generated d = .ok a ∧ g.product = .files written kept ∧
      Delivery mode i.output (outputFiles a i.output mode.overwrite) written kept w.files
        files := by
  intro fetched generated result files
  rcases hfetch : i.source.fetch source i.id w.made with ⟨answer, made⟩
  have hfetched : fetched = answer := congrArg Prod.fst hfetch
  rw [hfetched]
  cases answer with
  | error e =>
    have hrun : generate source i mode w = (.error (.fetch i.id e), ⟨w.files, made⟩) := by
      simp only [generate, hfetch, finish]
    have hresult : result = .error (.fetch i.id e) := congrArg Prod.fst hrun
    have hfiles : files = w.files := congrArg (·.2.files) hrun
    refine ⟨fun e' he' => ?_, fun d' e' hd => ?_, fun _ => hfiles, fun g hg => ?_⟩
    · exact ⟨Except.error.inj he' ▸ hresult, hfiles⟩
    · cases hd
    · rw [hresult] at hg
      cases hg
  | ok d =>
    have hrun : generate source i mode w = ((generateFrom i mode d w.files).1,
        ⟨(generateFrom i mode d w.files).2, made⟩) := by
      simp only [generate, hfetch, finish]
    have hresult : result = (generateFrom i mode d w.files).1 := congrArg Prod.fst hrun
    have hfiles : files = (generateFrom i mode d w.files).2 := congrArg (·.2.files) hrun
    obtain ⟨hnaming, hdry, hdelivery⟩ := generateFrom_delivery i mode d w.files
    rw [hresult, hfiles]
    refine ⟨fun e he => ?_, fun d' e hd he => ?_, hdry, fun g hg hwet => ?_⟩
    · cases he
    · cases hd
      rw [hnaming e he]
      exact ⟨rfl, rfl⟩
    · obtain ⟨a, written, kept, ha, hproduct, h⟩ := hdelivery g _ (Prod.ext hg rfl) hwet
      exact ⟨d, a, written, kept, rfl, ha, hproduct, h⟩

end Runs

section Pinging

attribute [local instance] JsonWording.terse

def pinging : Source where
  answer _ _ := .reply ⟨200⟩ "\x7b\"errcode\":0,\"data\":\x7b\"path\":\"/ping\"\x7d\x7d"

def pinged (output : String) : Invocation where
  source := { baseUrl := "http://yapi.test", token := none, timeout := 10, retries := 1 }
  id := "1"
  output
  requestPath := none
  naming := {}

/-- There is one file, which was written by hand. -/
def edited (name : String) : FileTree where
  entries := [([name], .file "// hand edited\n")]

theorem wellFormed_edited (name : String) : (edited name).WellFormed where
  closed := by
    refine ⟨rfl, fun location last e h => ?_⟩
    have hlocation : location ++ [last] = [name] := by
      by_contra hne
      simp [FileTree.entry?, edited, FileTree.lookup_cons_eq, hne] at h
    have hstart : location = [] := by
      have hdrop := congrArg List.dropLast hlocation
      rwa [List.dropLast_concat] at hdrop
    rw [hstart]
    rfl
  start := rfl

/-- A client file that is there is kept, and a types file is put beside it. -/
theorem pinging_footprint :
    let mode : Mode := { skipExisting := true }
    let run := generate pinging (pinged ".") mode ⟨edited "api.ts", []⟩
    ∃ g a, run.1 = .ok g ∧ mode.dryRun = false ∧
      g.product = .files ["./types.ts"] ["./api.ts"] ∧
      Footprint "." (outputFiles a "." .ifMissing) ["./types.ts"] (edited "api.ts") run.2.files ∧
      Spares (outputFiles a "." .ifMissing) ["./api.ts"] (edited "api.ts") run.2.files := by
  intro mode run
  have hproducts : run.1.toOption.map (·.product) =
      some (.files ["./types.ts"] ["./api.ts"]) := by decide +kernel
  cases hrun : run.1 with
  | error e => simp [hrun, Except.toOption] at hproducts
  | ok g =>
    obtain ⟨-, -, -, hdelivery⟩ :=
      generate_footprint pinging (pinged ".") mode ⟨edited "api.ts", []⟩
    obtain ⟨d, a, written, kept, -, -, hproduct, h⟩ := hdelivery g hrun rfl
    simp only [hrun, Except.toOption, Option.map_some, hproduct, Option.some.injEq,
      Report.Product.files.injEq] at hproducts
    obtain ⟨rfl, rfl⟩ := hproducts
    have hleads : (edited "api.ts").Leads "." (place [] ".") :=
      (edited "api.ts").leads_of_not_up (by decide)
    have hsettled := settled_of_leads (wellFormed_edited "api.ts") hleads
      (filed_outputFiles a "." .ifMissing)
    exact ⟨g, a, rfl, rfl, hproduct, h.footprint, (h.sparing rfl).mpr hsettled⟩

/-- A types file is replaced, although it was there and is to be kept: it is not found until a
directory has been made. -/
theorem pinging_replaces :
    let run := generate pinging (pinged "new/..") { skipExisting := true } ⟨edited "types.ts", []⟩
    (edited "types.ts").WellFormed ∧
      run.1.toOption.map (·.product) = some (.files ["new/../types.ts", "new/../api.ts"] []) ∧
      FileTree.entry? (edited "types.ts") ["types.ts"] = some (.file "// hand edited\n") ∧
      FileTree.entry? run.2.files ["types.ts"] ≠ some (.file "// hand edited\n") := by
  intro run
  exact ⟨wellFormed_edited "types.ts", by decide +kernel, by decide +kernel, by decide +kernel⟩

end Pinging

end TypedApi.Run
