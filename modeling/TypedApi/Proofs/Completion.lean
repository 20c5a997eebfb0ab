import Mathlib.Data.List.Perm.Basic
import TypedApi.Proofs.Acceptance
import TypedApi.Proofs.Joining
import TypedApi.Proofs.Writing

/-!
The order in which the interfaces of a batch are finished. Where outputs of different names are
different places, and none runs through a file of another, each interface comes out as it would in
any other order, and so do the files.
-/
namespace TypedApi

namespace Layout

/-- What writing files up to the first that fails comes to, where paths start from `start`. -/
def writeAll (start : List String) :
    List OutputFile → Layout → Except WriteError (List (String × WriteResult)) × Layout
  | [], v => (.ok [], v)
  | f :: fs, v =>
    andThen (fun v => v.write (FilePath.place start f.path) f)
      (fun r v => ((writeAll start fs v).1.map ((f.path, r) :: ·), (writeAll start fs v).2)) v

theorem writeAll_independent {β : Type} {start : List String} {fs : List OutputFile}
    {b : Layout → β × Layout}
    (h : ∀ f ∈ fs, Independent (fun v => write v (FilePath.place start f.path) f) b) :
    Independent (writeAll start fs) b := by
  induction fs with
  | nil => exact fun v => ⟨rfl, rfl, rfl⟩
  | cons f fs ih =>
    obtain ⟨hf, hfs⟩ := List.forall_mem_cons.mp h
    exact hf.andThen fun r => (ih hfs).map _

end Layout

namespace Run

theorem writeAll_cons (f : OutputFile) (fs : List OutputFile) (t : FileTree) :
    writeAll t (f :: fs) =
      andThen f.write
        (fun r t => ((writeAll t fs).1.map ((f.path, r) :: ·), (writeAll t fs).2)) t := by
  rw [writeAll, andThen]
  rcases f.write t with ⟨result, u⟩
  cases result with
  | error e => rfl
  | ok r =>
    rcases h : writeAll u fs with ⟨results, w⟩
    cases results with
    | error e => simp [h, Except.map]
    | ok rs => simp [h, Except.map]

/-- A tree by its layout and its start; the directories lead to where their texts end. -/
structure Seen (start directories : List String) (t : FileTree) (v : Layout) : Prop where
  wellFormed : t.WellFormed
  entries : t.entry? = v
  start_eq : t.start = start
  leads : ∀ d ∈ directories, d ≠ "" ∧ t.Leads d (FilePath.place start d)

/-- A file in one of the directories. -/
def IsIn (directories : List String) (f : OutputFile) : Prop :=
  ∃ d ∈ directories, ∃ name, FilePath.IsName name ∧ f.path = FilePath.join d name

variable {start directories : List String} {t : FileTree} {v : Layout}

theorem Seen.write (h : Seen start directories t v) {f : OutputFile} (hf : IsIn directories f) :
    (f.write t).1 = (v.write (FilePath.place start f.path) f).1 ∧
      Seen start directories (f.write t).2 (v.write (FilePath.place start f.path) f).2 := by
  obtain ⟨d, hd, name, hname, hpath⟩ := hf
  obtain ⟨hempty, hleads⟩ := h.leads d hd
  obtain ⟨hresult, hentries, hstart⟩ := f.write_eq h.wellFormed hleads hempty hname hpath
  rw [h.entries] at hresult hentries
  rw [hpath, FilePath.place_join start hempty hname]
  have hkept : ∀ l, t.entry? l = some .directory →
      FileTree.entry? (f.write t).2 l = some .directory := by
    intro l hl
    rw [hentries]
    exact Layout.write_kept (h.entries ▸ hl)
  refine ⟨hresult, ⟨?_, ?_⟩, hentries, hstart.trans h.start_eq, fun e he => ?_⟩
  · rw [hentries]
    exact (h.entries ▸ h.wellFormed.closed).write (by simp) f
  · rw [hstart]
    exact hkept _ h.wellFormed.start
  · exact ⟨(h.leads e he).1, (h.leads e he).2.of_directories hstart hkept⟩

theorem Seen.writeAll (h : Seen start directories t v) {fs : List OutputFile}
    (hfs : ∀ f ∈ fs, IsIn directories f) :
    (writeAll t fs).1 = (Layout.writeAll start fs v).1 ∧
      Seen start directories (writeAll t fs).2 (Layout.writeAll start fs v).2 := by
  induction fs generalizing t v with
  | nil => exact ⟨rfl, h⟩
  | cons f fs ih =>
    obtain ⟨hf, hrest⟩ := List.forall_mem_cons.mp hfs
    obtain ⟨hresult, hnext⟩ := h.write hf
    rw [writeAll_cons, Layout.writeAll, andThen_eq, andThen_eq, hresult]
    cases (v.write (FilePath.place start f.path) f).1 with
    | error e => exact ⟨rfl, hnext⟩
    | ok r =>
      obtain ⟨hresults, hlast⟩ := ih hnext hrest
      exact ⟨congrArg (Except.map ((f.path, r) :: ·)) hresults, hlast⟩

section Jobs

/-- An invocation for which the source has answered. -/
structure Job where
  invocation : Invocation
  answer : Except FetchError InterfaceDocument

namespace Job

def fileNames : List String := [TypeScript.TypesFile.fileName, TypeScript.ClientFile.fileName]

theorem isName_of_mem {name : String} (h : name ∈ fileNames) : FilePath.IsName name := by
  simp only [fileNames, List.mem_cons, List.not_mem_nil, or_false] at h
  rcases h with rfl | rfl
  · exact ⟨by decide, by decide, by decide, by decide⟩
  · exact ⟨by decide, by decide, by decide, by decide⟩

variable [JsonWording]

/-- What is made of the answer, if anything. -/
def artifacts? (j : Job) : Option TypeScript.Artifacts :=
  match j.answer with
  | .error _ => none
  | .ok d =>
    (TypeScript.Artifacts.generate ⟨j.invocation.naming, j.invocation.requestPath⟩
      d.endpoint).toOption

/-- The files that are written. -/
def files (mode : Mode) (j : Job) : List OutputFile :=
  match j.artifacts? with
  | none => []
  | some a => if mode.dryRun then [] else outputFiles a j.invocation.output mode.overwrite

/-- The outcome, by how writing the files has ended. -/
def conclude (mode : Mode) (j : Job) (written : Except WriteError (List (String × WriteResult))) :
    Except Error Report.Generation :=
  match j.answer with
  | .error e => .error (.fetch j.invocation.id e)
  | .ok d =>
    match TypeScript.Artifacts.generate ⟨j.invocation.naming, j.invocation.requestPath⟩
      d.endpoint with
    | .error e => .error (.naming j.invocation.id e)
    | .ok a =>
      if mode.dryRun then
        .ok (report j.invocation d.endpoint.title a
          (.preview ((outputFiles a j.invocation.output mode.overwrite).map
            fun f => (f.path, f.content))))
      else match written with
        | .error e => .error (.write e)
        | .ok rs =>
          .ok (report j.invocation d.endpoint.title a
            (.files (pathsOf .written rs) (pathsOf .skipped rs)))

/-- All that is left to do after the fetch. -/
def finish (mode : Mode) (j : Job) (t : FileTree) : Except Error Report.Generation × FileTree :=
  Run.finish j.invocation mode j.answer t

/-- All that a job does to the files is to write some, and all that it learns of them is how that
ends. -/
theorem finish_eq (mode : Mode) (j : Job) (t : FileTree) :
    j.finish mode t =
      (j.conclude mode (writeAll t (j.files mode)).1, (writeAll t (j.files mode)).2) := by
  unfold finish Run.finish conclude files artifacts?
  cases j.answer with
  | error e => rfl
  | ok d =>
    simp only [generateFrom]
    cases hgenerate : TypeScript.Artifacts.generate
        ⟨j.invocation.naming, j.invocation.requestPath⟩ d.endpoint with
    | error e => rfl
    | ok a =>
      simp only [Except.toOption, produce]
      cases hdry : mode.dryRun with
      | true => rfl
      | false =>
        simp only [Bool.false_eq_true, if_false]
        rcases writeAll t (outputFiles a j.invocation.output mode.overwrite) with ⟨result, u⟩
        cases result with
        | error e => rfl
        | ok rs => rfl

/-- The same on a layout. -/
def finishLayout (mode : Mode) (start : List String) (j : Job) (v : Layout) :
    Except Error Report.Generation × Layout :=
  (j.conclude mode (Layout.writeAll start (j.files mode) v).1,
    (Layout.writeAll start (j.files mode) v).2)

theorem path_of_mem_files {mode : Mode} {j : Job} {f : OutputFile} (h : f ∈ j.files mode) :
    mode.dryRun = false ∧
      ∃ name ∈ fileNames, f.path = FilePath.join j.invocation.output name := by
  unfold files at h
  cases hartifacts : j.artifacts? with
  | none => simp [hartifacts] at h
  | some a =>
    cases hdry : mode.dryRun with
    | true => simp [hartifacts, hdry] at h
    | false =>
      simp only [hartifacts, hdry, Bool.false_eq_true, if_false, outputFiles, List.map_cons,
        List.map_nil, List.mem_cons, List.not_mem_nil, or_false] at h
      rcases h with rfl | rfl
      · exact ⟨rfl, _, by simp [fileNames], rfl⟩
      · exact ⟨rfl, _, by simp [fileNames], rfl⟩

theorem finish_seen {mode : Mode} {j : Job} (hj : ∀ f ∈ j.files mode, IsIn directories f)
    (h : Seen start directories t v) :
    (j.finish mode t).1 = (j.finishLayout mode start v).1 ∧
      Seen start directories (j.finish mode t).2 (j.finishLayout mode start v).2 := by
  obtain ⟨hresult, hnext⟩ := h.writeAll hj
  rw [finish_eq, hresult]
  exact ⟨rfl, hnext⟩

/-- Jobs whose files are apart are independent. -/
theorem finishLayout_independent {mode : Mode} {start : List String} {j k : Job}
    (h : ∀ f ∈ j.files mode, ∀ g ∈ k.files mode,
      Layout.Apart (FilePath.place start f.path) (FilePath.place start g.path)) :
    Independent (j.finishLayout mode start) (k.finishLayout mode start) := by
  have hwrites : Independent (Layout.writeAll start (j.files mode))
      (Layout.writeAll start (k.files mode)) := by
    apply Layout.writeAll_independent
    intro f hf
    apply Independent.symm
    apply Layout.writeAll_independent
    intro g hg
    exact Layout.write_independent (h f hf g hg).symm g f
  exact ((hwrites.map (j.conclude mode)).symm.map (k.conclude mode)).symm

end Job

/-- Files of different directories are apart when no directory runs through a file of the other. -/
theorem apart_of_clear {p q : List String} {n m : String} (hne : p ≠ q) (hp : ¬p ++ [n] <+: q)
    (hq : ¬q ++ [m] <+: p) : Layout.Apart (p ++ [n]) (q ++ [m]) := by
  constructor
  · intro h
    rcases List.prefix_concat_iff.mp h with h | h
    · exact hne (List.append_inj' h rfl).1
    · exact hp h
  · intro h
    rcases List.prefix_concat_iff.mp h with h | h
    · exact hne (List.append_inj' h rfl).1.symm
    · exact hq h

end Jobs

end Run

/-- Outputs of different names are different places, and none runs through a file of another. Ups
are taken in directories that are there. -/
structure Config.Separate (c : Config) (t : FileTree) : Prop where
  leads : ∀ e ∈ c.interfaces, ∃ place, t.Leads e.output place
  told : ∀ e ∈ c.interfaces, ∀ f ∈ c.interfaces,
    FilePath.place t.start e.output = FilePath.place t.start f.output →
      FilePath.steps e.output = FilePath.steps f.output
  clear : ∀ e ∈ c.interfaces, ∀ f ∈ c.interfaces, ∀ name ∈ Run.Job.fileNames,
    ¬FilePath.place t.start e.output ++ [name] <+: FilePath.place t.start f.output

/-- Plain outputs are told apart by their names, so that they are separate as soon as none runs
through a file of another. -/
theorem Config.separate_of_plain {c : Config} {t : FileTree}
    (hplain : ∀ e ∈ c.interfaces, FilePath.IsPlain e.output)
    (hclear : ∀ e ∈ c.interfaces, ∀ f ∈ c.interfaces, ∀ name ∈ Run.Job.fileNames,
      ¬FilePath.moves e.output ++ [name] <+: FilePath.moves f.output) : c.Separate t := by
  have hplace : ∀ e ∈ c.interfaces,
      FilePath.place t.start e.output = t.start ++ FilePath.moves e.output := by
    intro e he
    rw [FilePath.place_of_not_up t.start (hplain e he).not_up, (hplain e he).relative]
    rfl
  refine ⟨fun e he => ⟨_, t.leads_of_not_up (hplain e he).not_up⟩, ?_, ?_⟩
  · intro e he f hf h
    rw [hplace e he, hplace f hf] at h
    rw [FilePath.steps_of_plain (hplain e he), FilePath.steps_of_plain (hplain f hf),
      List.append_cancel_left h]
  · intro e he f hf name hname h
    rw [hplace e he, hplace f hf, List.append_assoc, List.prefix_append_right_inj] at h
    exact hclear e he f hf name hname h

namespace Run

section Orders

variable [JsonWording] {c : Config} {t : FileTree} {jobs : List Job}

/-- The jobs of separate outputs are independent. -/
theorem jobs_independent (hc : c.Accepted) (hsep : c.Separate t)
    (hjobs : jobs.map (·.invocation.output) = c.interfaces.map (·.output)) (mode : Mode) :
    jobs.Pairwise fun j k =>
      Independent (j.finishLayout mode t.start) (k.finishLayout mode t.start) := by
  have hdirs : ∀ d, d ∈ jobs.map (·.invocation.output) → ∃ e ∈ c.interfaces, e.output = d := by
    intro d hd
    rw [hjobs] at hd
    exact List.mem_map.mp hd
  have hapart : (jobs.map (·.invocation.output)).Pairwise
      fun d d' => FilePath.steps d ≠ FilePath.steps d' := by
    rw [hjobs, List.pairwise_map]
    exact hc.apart
  rw [List.pairwise_map] at hapart
  refine hapart.imp_of_mem fun {j k} hj hk hsteps => Job.finishLayout_independent ?_
  intro f hf g hg
  obtain ⟨-, n, hn, hfpath⟩ := Job.path_of_mem_files hf
  obtain ⟨-, m, hm, hgpath⟩ := Job.path_of_mem_files hg
  obtain ⟨e, he, heoutput⟩ := hdirs _ (List.mem_map_of_mem hj)
  obtain ⟨e', he', heoutput'⟩ := hdirs _ (List.mem_map_of_mem hk)
  rw [← heoutput] at hfpath hsteps
  rw [← heoutput'] at hgpath hsteps
  rw [hfpath, hgpath, FilePath.place_join _ (hc.outputs e he) (Job.isName_of_mem hn),
    FilePath.place_join _ (hc.outputs e' he') (Job.isName_of_mem hm)]
  exact apart_of_clear (fun hplace => hsteps (hsep.told e he e' he' hplace))
    (hsep.clear e he e' he' n hn) (hsep.clear e' he' e he m hm)

/-- A layout shows all that the jobs do: the directories that they write to lead to their places,
and a dry run writes to none. -/
theorem exists_seen (hc : c.Accepted) (ht : t.WellFormed) {mode : Mode}
    (hsep : mode.dryRun = true ∨ c.Separate t)
    (hjobs : jobs.map (·.invocation.output) = c.interfaces.map (·.output)) :
    ∃ directories, Seen t.start directories t t.entry? ∧
      (∀ j ∈ jobs, ∀ f ∈ j.files mode, IsIn directories f) ∧
      jobs.Pairwise fun j k =>
        Independent (j.finishLayout mode t.start) (k.finishLayout mode t.start) := by
  rcases hsep with hdry | hsep
  · have hnone : ∀ j : Job, ∀ f, f ∉ j.files mode := by
      intro j f hf
      have hwet := (Job.path_of_mem_files hf).1
      simp [hdry] at hwet
    refine ⟨[], ⟨ht, rfl, rfl, by simp⟩, fun j _ f hf => absurd hf (hnone j f), ?_⟩
    exact List.pairwise_of_forall fun j k =>
      Job.finishLayout_independent fun f hf => absurd hf (hnone j f)
  · refine ⟨c.interfaces.map (·.output), ⟨ht, rfl, rfl, ?_⟩, ?_,
      jobs_independent hc hsep hjobs mode⟩
    · intro d hd
      obtain ⟨e, he, rfl⟩ := List.mem_map.mp hd
      obtain ⟨place, hleads⟩ := hsep.leads e he
      exact ⟨hc.outputs e he, hleads.place_eq ▸ hleads⟩
    · intro j hj f hf
      obtain ⟨-, name, hname, hpath⟩ := Job.path_of_mem_files hf
      have hmem := List.mem_map_of_mem (f := fun j : Job => j.invocation.output) hj
      exact ⟨_, hjobs ▸ hmem, name, Job.isName_of_mem hname, hpath⟩

theorem finish_order (hc : c.Accepted) {is : List Invocation} (his : c.invocations = .ok is)
    (ht : t.WellFormed) {mode : Mode} (hsep : mode.dryRun = true ∨ c.Separate t)
    (hjobs : jobs.map Job.invocation = is) {order : List Job} (horder : order.Perm jobs) :
    (perform (Job.finish mode) order t).1.Perm (perform (Job.finish mode) jobs t).1 ∧
      (perform (Job.finish mode) order t).2.Same (perform (Job.finish mode) jobs t).2 := by
  have houtputs : jobs.map (·.invocation.output) = c.interfaces.map (·.output) := by
    rw [← Config.outputs_of_invocations his, ← hjobs, List.map_map]
    rfl
  obtain ⟨directories, hseen, hfiles, hindependent⟩ :=
    exists_seen hc ht hsep houtputs
  have hfinish : ∀ ks : List Job, (∀ j ∈ ks, j ∈ jobs) →
      (perform (Job.finish mode) ks t).1 =
          (perform (Job.finishLayout mode t.start) ks t.entry?).1 ∧
        Seen t.start directories (perform (Job.finish mode) ks t).2
          (perform (Job.finishLayout mode t.start) ks t.entry?).2 := by
    intro ks hks
    have hstep : ∀ j ∈ ks, ∀ u v, Seen t.start directories u v →
        (j.finish mode u).1 = (j.finishLayout mode t.start v).1 ∧
          Seen t.start directories (j.finish mode u).2 (j.finishLayout mode t.start v).2 :=
      fun j hj _ _ h => Job.finish_seen (hfiles j (hks j hj)) h
    exact perform_related hstep hseen
  obtain ⟨hresults, hlast⟩ := hfinish order fun j hj => horder.mem_iff.mp hj
  obtain ⟨hresults', hlast'⟩ := hfinish jobs fun j hj => hj
  obtain ⟨hperm, hstate⟩ := perform_perm horder hindependent t.entry?
  rw [hresults, hresults']
  refine ⟨hperm, ?_, hlast.start_eq.trans hlast'.start_eq.symm⟩
  rw [hlast.entries, hlast'.entries, hstate]

section Batches

variable {source : Source} {mode : Mode} {is : List Invocation} {w : World}

/-- When one interface is run after the other, the jobs are finished in the order of the
invocations. -/
theorem generateAll_eq (source : Source) (mode : Mode) (w : World) (is : List Invocation) :
    ∃ jobs : List Job, jobs.map Job.invocation = is ∧
      (generateAll source mode w is).1 =
        (perform (Job.finish mode) jobs w.files).1.map (fun r => (r.1.invocation, r.2)) ∧
      (generateAll source mode w is).2.files = (perform (Job.finish mode) jobs w.files).2 := by
  induction is generalizing w with
  | nil => exact ⟨[], rfl, rfl, rfl⟩
  | cons i is ih =>
    obtain ⟨jobs, hjobs, hresults, hfiles⟩ := ih (generate source i mode w).2
    refine ⟨⟨i, (i.source.fetch source i.id w.made).1⟩ :: jobs, ?_, ?_, ?_⟩
    · rw [List.map_cons, hjobs]
    · rw [perform_cons, List.map_cons, generateAll_cons, hresults]
      rfl
    · rw [perform_cons, generateAll_cons, hfiles]
      rfl

/-- What a batch has done so far is what finishing some jobs does, each of them for the invocation
at its place. -/
def FinishedBy (mode : Mode) (is : List Invocation) (t : FileTree) (j : Joined)
    (log : List (Nat × Job)) : Prop :=
  j.completed = (perform (fun l => l.2.finish mode) log t).1.map (fun r => (r.1.1, r.2)) ∧
    j.world.files = (perform (fun l => l.2.finish mode) log t).2 ∧
    ∀ l ∈ log, is[l.1]? = some l.2.invocation

theorem exists_finishedBy (source : Source) (mode : Mode) (is : List Invocation) (w : World)
    (turns : List Nat) :
    ∃ log, FinishedBy mode is w.files (joinAll source mode turns is w) log := by
  let P (j : Joined) : Prop := j.Tracks is ∧ ∃ log, FinishedBy mode is w.files j log
  have hkept : Joined.Kept source mode P :=
    { goOn := fun j t progress made ⟨htracks, log, hlog⟩ ht hfetch =>
        ⟨htracks.goOn _ _ _, log, hlog⟩
      complete := by
        rintro j t ⟨htracks, log, hcompleted, hfiles, hknown⟩ ht
        refine ⟨htracks.complete ht _ _,
          log ++ [(t.place, ⟨t.invocation, (t.fetch source j.world.made).1⟩)], ?_, ?_, ?_⟩
        · rw [perform_append, List.map_append, ← hcompleted, ← hfiles]
          rfl
        · rw [perform_append, ← hfiles]
          rfl
        · intro l hl
          rcases List.mem_append.mp hl with hl | hl
          · exact hknown l hl
          · obtain rfl := List.mem_singleton.mp hl
            exact htracks.known t ht }
  have hstart : FinishedBy mode is w.files (.ofInvocations is w) [] :=
    ⟨rfl, rfl, List.forall_mem_nil _⟩
  exact (hkept.joinAll ⟨Joined.tracks_ofInvocations is w, [], hstart⟩ turns).2

omit [JsonWording] in
theorem filterMap_range_getElem? {α : Type} (l : List α) :
    (List.range l.length).filterMap (l[·]?) = l := by
  induction l with
  | nil => rfl
  | cons a l ih =>
    rw [List.length_cons, List.range_succ_eq_map, List.filterMap_cons, List.filterMap_map]
    exact congrArg (a :: ·) ih

/-- The results at their places are those of the jobs in their order. -/
theorem FinishedBy.zip_perm {t : FileTree} {j : Joined} {log : List (Nat × Job)}
    (h : FinishedBy mode is t j log)
    (hplaces : (j.completed.map (·.1)).Perm (List.range is.length)) :
    (is.zip (j.results is.length)).Perm
      ((perform (Job.finish mode) (log.map (·.2)) t).1.map fun r => (r.1.invocation, r.2)) := by
  obtain ⟨hcompleted, -, hknown⟩ := h
  have hlength : (is.zip (j.results is.length)).length = is.length := by
    simp [Joined.length_results hplaces]
  have hdone : ∀ r ∈ (perform (fun l : Nat × Job => l.2.finish mode) log t).1,
      (is.zip (j.results is.length))[r.1.1]? = some (r.1.2.invocation, r.2) := by
    intro r hr
    have hlogged : r.1 ∈ log := by
      rw [← map_fst_perform (fun l : Nat × Job => l.2.finish mode) log t]
      exact List.mem_map_of_mem hr
    have hmem : (r.1.1, r.2) ∈ j.completed := hcompleted ▸ List.mem_map_of_mem hr
    exact List.getElem?_zip_eq_some.mpr ⟨hknown r.1 hlogged, Joined.getElem?_results hplaces hmem⟩
  have hzip := filterMap_range_getElem? (is.zip (j.results is.length))
  rw [hlength] at hzip
  rw [← hzip, perform_map, List.map_map]
  refine (hplaces.symm.filterMap _).trans (.of_eq ?_)
  rw [hcompleted, List.map_map, List.filterMap_map, ← List.filterMap_eq_map]
  exact List.filterMap_congr hdone

/-- A batch that no panic ends comes to what its jobs come to in some order. -/
theorem exists_order (turns : List Nat)
    (h : (joinAll source mode turns is w).isStopped = false) :
    ∃ jobs order : List Job, jobs.map Job.invocation = is ∧ order.Perm jobs ∧
      (is.zip ((joinAll source mode turns is w).results is.length)).Perm
        ((perform (Job.finish mode) order w.files).1.map fun r => (r.1.invocation, r.2)) ∧
      (joinAll source mode turns is w).world.files =
        (perform (Job.finish mode) order w.files).2 := by
  have hplaces := Joined.places_joinAll h
  obtain ⟨log, hlog⟩ := exists_finishedBy source mode is w turns
  have hzip := hlog.zip_perm hplaces
  have hinvocations : ((log.map (·.2)).map Job.invocation).Perm is := by
    have hperm := hzip.map (·.1)
    rw [List.map_fst_zip (Joined.length_results hplaces).ge, List.map_map] at hperm
    rw [← map_fst_perform (Job.finish mode) (log.map (·.2)) w.files, List.map_map]
    exact hperm.symm
  have hmap := congrFun₂ (List.eq_map_comp_perm Job.invocation) is (log.map (·.2))
  obtain ⟨jobs, hjobs, hperm⟩ := hmap.mpr hinvocations.symm
  refine ⟨jobs, log.map (·.2), hjobs.symm, hperm.symm, hzip, ?_⟩
  rw [hlog.2.1, perform_map]

end Batches

/-- Of any configuration that is accepted, the jobs of a batch come to the same in every order, as
long as it is a dry run or the outputs are separate. A batch finishes its jobs one after the other,
in an order that hangs on when their answers come in. Acceptance alone does not keep outputs
separate that are spelled in different ways. -/
theorem finish_in_any_order {text : String} (hc : Config.ofText text = .ok c)
    {is : List Invocation} (his : c.invocations = .ok is) (ht : t.WellFormed) {mode : Mode}
    (hsep : mode.dryRun = true ∨ c.Separate t) :
    (∀ source made, ∃ jobs : List Job, jobs.map Job.invocation = is ∧
      (generateAll source mode ⟨t, made⟩ is).1 =
        (perform (Job.finish mode) jobs t).1.map (fun r => (r.1.invocation, r.2)) ∧
      (generateAll source mode ⟨t, made⟩ is).2.files = (perform (Job.finish mode) jobs t).2) ∧
    (∀ source turns made, (joinAll source mode turns is ⟨t, made⟩).isStopped = false →
      ∃ jobs order : List Job, jobs.map Job.invocation = is ∧ order.Perm jobs ∧
        (is.zip ((joinAll source mode turns is ⟨t, made⟩).results is.length)).Perm
          ((perform (Job.finish mode) order t).1.map fun r => (r.1.invocation, r.2)) ∧
        (joinAll source mode turns is ⟨t, made⟩).world.files =
          (perform (Job.finish mode) order t).2) ∧
    ∀ jobs order : List Job, jobs.map Job.invocation = is → order.Perm jobs →
      (perform (Job.finish mode) order t).1.Perm (perform (Job.finish mode) jobs t).1 ∧
      (perform (Job.finish mode) order t).2.Same (perform (Job.finish mode) jobs t).2 :=
  ⟨fun source made => generateAll_eq source mode ⟨t, made⟩ is,
    fun _ turns _ hrunning => exists_order turns hrunning,
    fun _ _ hjobs horder =>
      finish_order (Config.accepted_of_ofText hc) his ht hsep hjobs horder⟩

end Orders

section Pairs

attribute [local instance] JsonWording.terse

/-- Two interfaces with their outputs. -/
def pairText (first second : String) : String :=
  "[source]\nbase_url = \"http://yapi.test\"\n\n" ++
    "[[interfaces]]\nid = 1\noutput = \"" ++ first ++ "\"\n\n" ++
    "[[interfaces]]\nid = 2\noutput = \"" ++ second ++ "\"\n"

def pairConfig (first second : String) : Config where
  source := { baseUrl := some "http://yapi.test" }
  interfaces := [⟨"1", first, none⟩, ⟨"2", second, none⟩]

def pairJob (id output path : String) : Job where
  invocation :=
    { source := { baseUrl := "http://yapi.test", token := none, timeout := 10, retries := 1 }
      id, output, requestPath := none, naming := {} }
  answer := .ok { path := some path }

theorem wellFormed_empty : ({} : FileTree).WellFormed where
  closed := by
    refine ⟨rfl, fun location name e h => ?_⟩
    unfold FileTree.entry? at h
    simp at h
  start := rfl

/-- With plain outputs that are apart the order does not show. -/
theorem pair_in_any_order :
    let jobs := [pairJob "1" "a" "/ping", pairJob "2" "b/c" "/pong"]
    Config.ofText (pairText "a" "b/c") = .ok (pairConfig "a" "b/c") ∧
      (pairConfig "a" "b/c").Separate {} ∧
      (perform (Job.finish {}) jobs.reverse {}).1.Perm (perform (Job.finish {}) jobs {}).1 ∧
      (perform (Job.finish {}) jobs.reverse {}).2.Same (perform (Job.finish {}) jobs {}).2 := by
  intro jobs
  have hparsed : Config.ofText (pairText "a" "b/c") = .ok (pairConfig "a" "b/c") :=
    Config.ofText_eq_ok_iff.mpr ⟨by decide +kernel, by decide +kernel⟩
  have hsep : (pairConfig "a" "b/c").Separate {} := by
    apply Config.separate_of_plain
    · intro e he
      simp only [pairConfig, List.mem_cons, List.not_mem_nil, or_false] at he
      rcases he with rfl | rfl
      · exact ⟨by decide +kernel, by decide +kernel, by decide +kernel⟩
      · exact ⟨by decide +kernel, by decide +kernel, by decide +kernel⟩
    · decide +kernel
  obtain ⟨hperm, hsame⟩ := (finish_in_any_order hparsed
    (show (pairConfig "a" "b/c").invocations = .ok (jobs.map Job.invocation) from rfl)
    wellFormed_empty (.inr hsep)).2.2 jobs jobs.reverse rfl (List.reverse_perm jobs)
  exact ⟨hparsed, hsep, hperm, hsame⟩

/-- Two spellings of one directory are accepted, and whichever interface is finished last stays. -/
theorem spellings_in_two_orders :
    let jobs := [pairJob "1" "a" "/ping", pairJob "2" "./a" "/pong"]
    Config.ofText (pairText "a" "./a") = .ok (pairConfig "a" "./a") ∧
      (pairConfig "a" "./a").invocations = .ok (jobs.map Job.invocation) ∧
      ({} : FileTree).WellFormed ∧ jobs.reverse.Perm jobs ∧
      FileTree.entry? (perform (Job.finish {}) jobs.reverse {}).2 ["a", "types.ts"] ≠
        FileTree.entry? (perform (Job.finish {}) jobs {}).2 ["a", "types.ts"] := by
  intro jobs
  exact ⟨Config.ofText_eq_ok_iff.mpr ⟨by decide +kernel, by decide +kernel⟩, rfl,
    wellFormed_empty, List.reverse_perm jobs, by decide +kernel⟩

end Pairs

end Run

end TypedApi
