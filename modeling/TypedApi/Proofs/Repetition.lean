import TypedApi.Proofs.Footprint
import TypedApi.Proofs.Retries

/-!
Runs that are repeated. A run that overwrites leaves its files where they would be written again,
so writing them once more changes nothing, and neither does a run that keeps what is there. What a
dry run shows beforehand is what is found in the files afterwards.
-/
namespace TypedApi

namespace FileTree

open FilePath (join place Tidy IsName)

variable {t u : FileTree} {l m : List String} {e : FileEntry}

/-- This entry is listed at the location, and no other. -/
def Lists (t : FileTree) (l : List String) (e : FileEntry) : Prop :=
  (l, e) ∈ t.entries ∧ ∀ p ∈ t.entries, p.1 = l → p.2 = e

theorem mem_entries_put {p : List String × FileEntry} :
    p ∈ (t.put l e).entries ↔ p ∈ t.entries ∧ p.1 ≠ l ∨ p = (l, e) := by
  unfold put
  split
  · next hany =>
    obtain ⟨q, hq, hql⟩ := List.any_eq_true.mp hany
    rw [beq_iff_eq] at hql
    simp only [List.mem_map]
    constructor
    · rintro ⟨r, hr, rfl⟩
      by_cases hrl : r.1 = l
      · simp [hrl]
      · simp [hrl, hr]
    · rintro (⟨hp, hpl⟩ | rfl)
      · exact ⟨p, hp, by simp [hpl]⟩
      · exact ⟨q, hq, by simp [hql]⟩
  · next hany =>
    simp only [List.any_eq_true, beq_iff_eq, not_exists, not_and] at hany
    simp only [List.mem_append, List.mem_singleton]
    constructor
    · rintro (hp | rfl)
      · exact .inl ⟨hp, hany p hp⟩
      · exact .inr rfl
    · rintro (⟨hp, -⟩ | rfl)
      · exact .inl hp
      · exact .inr rfl

theorem lists_put (t : FileTree) (l : List String) (e : FileEntry) : (t.put l e).Lists l e := by
  refine ⟨mem_entries_put.mpr (.inr rfl), fun p hp hpl => ?_⟩
  rcases mem_entries_put.mp hp with ⟨-, hne⟩ | rfl
  · exact absurd hpl hne
  · rfl

theorem Lists.put (h : t.Lists l e) (hne : m ≠ l) (f : FileEntry) : (t.put m f).Lists l e := by
  refine ⟨mem_entries_put.mpr (.inl ⟨h.1, hne.symm⟩), fun p hp hpl => ?_⟩
  rcases mem_entries_put.mp hp with ⟨hp, -⟩ | rfl
  · exact h.2 p hp hpl
  · exact absurd hpl hne

/-- An entry that is there already is put in its own place. -/
theorem Lists.put_eq (h : t.Lists l e) : t.put l e = t := by
  have hany : t.entries.any (·.1 == l) = true := List.any_eq_true.mpr ⟨_, h.1, by simp⟩
  have hmap : (t.entries.map fun p => if p.1 == l then (l, e) else p) = t.entries := by
    refine (List.map_congr_left fun p hp => ?_).trans (List.map_id _)
    by_cases hpl : p.1 = l
    · rw [if_pos (beq_iff_eq.mpr hpl), id, ← hpl, ← h.2 p hp hpl]
    · rw [if_neg (by simpa using hpl), id]
  rw [FileTree.put, if_pos hany, hmap]

theorem Lists.entry? (h : t.Lists l e) (hl : l ≠ []) : t.entry? l = some e := by
  rw [← h.put_eq, entry?_put t hl, Layout.set, if_pos rfl]

theorem Reaches.target_eq {path : String} (h : t.Reaches path) (htidy : Tidy path)
    (hne : path ≠ "") : t.target path = .ok (.directory (place t.start path)) := by
  rw [target_of_tidy t htidy hne, h]

/-- Where a directory can be reached there is nothing to be made. -/
theorem Reaches.makeAll_eq {path : String} (h : t.Reaches path) (htidy : Tidy path) :
    t.makeAll path = (t, none) := by
  rw [makeAll, makeAllFrom]
  by_cases hempty : path = ""
  · rw [if_pos hempty]
  · have htarget := h.target_eq htidy hempty
    simp [hempty, makeDirectory, FileTree.isDirectory, htarget]

end FileTree

namespace OutputFile

open FilePath (join place IsName)

variable {directory : String} {f g : OutputFile} {t u : FileTree} {r : WriteResult}

/-- The file is there with its content, and its directory can be reached. -/
structure InPlace (directory : String) (f : OutputFile) (t : FileTree) : Prop where
  inside : f.InDirectory directory
  reaches : t.Reaches directory
  listed : t.Lists (place t.start f.path) (.file f.content)

theorem InDirectory.prepare_of_reaches (hf : f.InDirectory directory) (h : t.Reaches directory) :
    f.prepare t = (t, none) := by
  obtain ⟨above, htidy, hsame, hrooted, hprepare⟩ := hf.exists_above
  have habove : t.Reaches above := by
    rw [FileTree.Reaches, FileTree.origin, place, hsame, hrooted]
    exact h
  rw [hprepare, habove.makeAll_eq htidy]
  rfl

theorem InDirectory.store_of_reaches (hf : f.InDirectory directory) (h : t.Reaches directory) :
    f.store t = if t.entry? (place t.start f.path) = some .directory then
        (.error (.write f.path .isDirectory), t)
      else (.ok .written, t.put (place t.start f.path) (.file f.content)) := by
  rw [store, hf.prepare_of_reaches h]
  obtain ⟨name, hname, hpath⟩ := hf
  have hplace := FilePath.place_join_of_name t.start directory hname
  simp only [hpath, h.store_join hname, hplace]
  by_cases hdirectory : t.entry? (place t.start directory ++ [name]) = some .directory
  · simp [hdirectory]
  · simp [hdirectory]

/-- A file that is stored is in its place. -/
theorem InDirectory.store_inPlace (hf : f.InDirectory directory)
    (h : f.store t = (.ok r, u)) : r = .written ∧ f.InPlace directory u := by
  obtain ⟨hr, hstored⟩ := hf.store_ok h
  refine ⟨hr, hf, hstored.reaches, ?_⟩
  obtain ⟨-, hreaches⟩ := hf.prepare_grown t
  rcases hprepare : f.prepare t with ⟨v, error⟩
  rw [hprepare] at hreaches
  cases error with
  | some e =>
    rw [store, hprepare] at h
    cases h
  | none =>
    -- Once all directories are there, storing starts from what they have made of the tree.
    have hsame : f.store t = f.store v := by
      rw [store, store, hprepare, hf.prepare_of_reaches (hreaches rfl)]
    rw [hsame, hf.store_of_reaches (hreaches rfl)] at h
    split at h
    · cases h
    · cases h
      rw [FileTree.start_put]
      exact FileTree.lists_put v _ _

theorem InPlace.entry? (h : f.InPlace directory t) :
    t.entry? (place t.start f.path) = some (.file f.content) :=
  h.listed.entry? (h.inside.place_ne_nil t.start)

/-- The place does not hang on whether the file may be overwritten. -/
theorem InPlace.withOverwrite (h : f.InPlace directory t) (overwrite : Overwrite) :
    { f with overwrite }.InPlace directory t :=
  ⟨h.inside, h.reaches, h.listed⟩

/-- Its content is read at its path. -/
theorem InPlace.read (h : f.InPlace directory t) : t.read f.path = .ok f.content := by
  have hentry := h.entry?
  obtain ⟨name, hname, hpath⟩ := h.inside
  rw [hpath, FilePath.place_join_of_name t.start directory hname] at hentry
  rw [hpath, FileTree.read, h.reaches.target_join hname, hentry]

/-- A file in its place is written as it is. -/
theorem InPlace.write_always (h : f.InPlace directory t) (halways : f.overwrite = .always) :
    f.write t = (.ok .written, t) := by
  have hentry := h.entry?
  rw [write, halways]
  simp [h.inside.store_of_reaches h.reaches, hentry, h.listed.put_eq]

/-- If it is to be kept it is not written at all. -/
theorem InPlace.write_ifMissing (h : f.InPlace directory t) (hmissing : f.overwrite = .ifMissing) :
    f.write t = (.ok .skipped, t) := by
  have hholds : t.holds f.path = true :=
    (h.inside.holds_iff t).mpr ⟨h.reaches, by simp [h.entry?]⟩
  rw [write, hmissing]
  simp [hholds]

/-- Whatever the rules, what is written has been stored. -/
theorem store_of_written (h : f.write t = (.ok .written, u)) : f.store t = (.ok .written, u) := by
  rw [write] at h
  cases hoverwrite : f.overwrite with
  | always => rwa [hoverwrite] at h
  | ifMissing =>
    simp only [hoverwrite] at h
    split at h
    · cases h
    · exact h

/-- Writing another file of the directory leaves it in its place. -/
theorem InPlace.write_other (h : f.InPlace directory t) (hg : g.InDirectory directory)
    (hne : place t.start g.path ≠ place t.start f.path) (hwrite : g.write t = (.ok r, u)) :
    f.InPlace directory u := by
  rcases hg.write_ok hwrite with ⟨-, rfl, -⟩ | ⟨rfl, hstored, -⟩
  · exact h
  refine ⟨h.inside, hstored.reaches, ?_⟩
  have hstore := store_of_written hwrite
  rw [hg.store_of_reaches h.reaches] at hstore
  split at hstore
  · cases hstore
  · cases hstore
    rw [FileTree.start_put]
    exact h.listed.put hne _

end OutputFile

namespace Source

/-- What the source answers hangs on the request alone, and not on those before. -/
def IsSteady (source : Source) : Prop :=
  ∀ request n m, source.answer request n = source.answer request m

variable [JsonWording] {source : Source}

theorem IsSteady.fetchFrom_eq (h : source.IsSteady) (s : SourceSettings) (request : Request)
    (more : Nat) (made made' : List Exchange) :
    (s.fetchFrom source request more made).1 = (s.fetchFrom source request more made').1 := by
  have hfirst (made made' : List Exchange) :
      s.outcomeAt source request made 0 = s.outcomeAt source request made' 0 :=
    congrArg s.outcome (h request _ _)
  induction more generalizing made made' with
  | zero =>
    rw [s.fetchFrom_last source request made (.inl rfl),
      s.fetchFrom_last source request made' (.inl rfl)]
    exact hfirst made made'
  | succ more ih =>
    cases htransient : SourceSettings.isTransient (s.outcomeAt source request made 0) with
    | true =>
      rw [s.fetchFrom_again source request made htransient,
        s.fetchFrom_again source request made' (hfirst made made' ▸ htransient)]
      exact ih _ _
    | false =>
      rw [s.fetchFrom_last source request made (.inr htransient),
        s.fetchFrom_last source request made' (.inr (hfirst made made' ▸ htransient))]
      exact hfirst made made'

theorem IsSteady.fetch_eq (h : source.IsSteady) (s : SourceSettings) (id : String)
    (made made' : List Exchange) :
    (s.fetch source id made).1 = (s.fetch source id made').1 := by
  unfold SourceSettings.fetch
  cases s.start id with
  | error e => rfl
  | ok start => exact h.fetchFrom_eq s start.1 start.2 made made'

end Source

namespace Run

open FilePath (join place)

section Writes

variable {directory : String} {f : OutputFile} {fs : List OutputFile}
  {rs : List (String × WriteResult)} {t u : FileTree}

theorem inPlace_of_writeAll (hf : f.InPlace directory t)
    (hfs : ∀ g ∈ fs, g.InDirectory directory)
    (hne : ∀ g ∈ fs, place t.start g.path ≠ place t.start f.path)
    (h : writeAll t fs = (.ok rs, u)) : f.InPlace directory u := by
  induction fs generalizing t rs with
  | nil =>
    cases h
    exact hf
  | cons g gs ih =>
    obtain ⟨r, v, qs, hwrite, hrest, -⟩ := writeAll_cons_ok h
    obtain ⟨hg, hgs⟩ := List.forall_mem_cons.mp hfs
    obtain ⟨hneg, hnegs⟩ := List.forall_mem_cons.mp hne
    have hstart : v.start = t.start := by
      rcases hg.write_ok hwrite with ⟨-, rfl, -⟩ | ⟨-, hstored, -⟩
      · rfl
      · exact hstored.start
    exact ih (hf.write_other hg hneg hwrite) hgs (hstart ▸ hnegs) hrest

/-- Files that are written over what there is are all reported as written, and are all in their
places in the end. -/
theorem writeAll_inPlace (hfs : Filed directory fs) (halways : ∀ f ∈ fs, f.overwrite = .always)
    (h : writeAll t fs = (.ok rs, u)) :
    rs = fs.map (fun f => (f.path, .written)) ∧ ∀ f ∈ fs, f.InPlace directory u := by
  induction fs generalizing t rs with
  | nil =>
    cases h
    exact ⟨rfl, by simp⟩
  | cons f fs ih =>
    obtain ⟨r, v, qs, hwrite, hrest, rfl⟩ := writeAll_cons_ok h
    obtain ⟨hf, hrests⟩ := List.forall_mem_cons.mp halways
    obtain ⟨rfl, hplaces⟩ := ih hfs.tail hrests hrest
    rw [OutputFile.write, hf] at hwrite
    obtain ⟨rfl, hplace⟩ := hfs.head.store_inPlace hwrite
    refine ⟨rfl, List.forall_mem_cons.mpr ⟨?_, hplaces⟩⟩
    exact inPlace_of_writeAll hplace hfs.tail.inside (fun g hg => hfs.place_ne hg v.start) hrest

/-- Writes that change nothing one by one change nothing together. -/
theorem writeAll_unchanged {r : WriteResult} (h : ∀ f ∈ fs, f.write t = (.ok r, t)) :
    writeAll t fs = (.ok (fs.map fun f => (f.path, r)), t) := by
  induction fs with
  | nil => rfl
  | cons f fs ih =>
    obtain ⟨hf, hfs⟩ := List.forall_mem_cons.mp h
    simp only [writeAll, hf, ih hfs, List.map_cons]

theorem pathsOf_map (result r : WriteResult) (fs : List OutputFile) :
    pathsOf result (fs.map fun f => (f.path, r)) =
      if r = result then fs.map (·.path) else [] := by
  by_cases hr : r = result
  · simp [pathsOf, hr, List.filter_map, Function.comp_def]
  · simp [pathsOf, hr, List.filter_map, Function.comp_def]

end Writes

section Runs

variable {source : Source} {i : Invocation} {mode : Mode} {w w' : World} {g : Report.Generation}
  {a : TypeScript.Artifacts} {output : String} {t u : FileTree} {product : Report.Product}

/-- A run that succeeds has fetched a document, made the files for it and produced them. -/
theorem generate_eq_ok_iff [JsonWording] : generate source i mode w = (.ok g, w') ↔
    ∃ d a product, i.source.fetch source i.id w.made = (.ok d, w'.made) ∧
      TypeScript.Artifacts.generate ⟨i.naming, i.requestPath⟩ d.endpoint = .ok a ∧
      produce mode (outputFiles a i.output mode.overwrite) w.files = (.ok product, w'.files) ∧
      g = report i d.endpoint.title a product := by
  unfold generate finish generateFrom
  rcases i.source.fetch source i.id w.made with ⟨answer, made⟩
  cases answer with
  | error e => simp
  | ok d =>
    cases hgenerated : TypeScript.Artifacts.generate ⟨i.naming, i.requestPath⟩ d.endpoint with
    | error e => simp [hgenerated]
    | ok a =>
      rcases hproduce : produce mode (outputFiles a i.output mode.overwrite) w.files with
        ⟨produced, files⟩
      cases produced with
      | error e => simp [hgenerated, hproduce]
      | ok product =>
        constructor
        · intro hrun
          simp only [hgenerated, hproduce, Prod.mk.injEq, Except.ok.injEq] at hrun
          obtain ⟨rfl, rfl⟩ := hrun
          exact ⟨d, a, product, rfl, hgenerated, hproduce, rfl⟩
        · rintro ⟨d', a', product', hfetch, ha, hproduct, rfl⟩
          obtain ⟨rfl, rfl⟩ : d = d' ∧ made = w'.made := by simpa using hfetch
          obtain rfl : a = a' := Except.ok.inj (hgenerated.symm.trans ha)
          obtain ⟨rfl, rfl⟩ : product = product' ∧ files = w'.files := by
            simpa using hproduce.symm.trans hproduct
          simp only [hgenerated, hproduce]

/-- Files written over what there is are reported as written and left in their places. -/
theorem produce_always
    (h : produce {} (outputFiles a output .always) t = (.ok product, u)) :
    product = .files ((outputFiles a output .always).map (·.path)) [] ∧
      ∀ f ∈ outputFiles a output .always, f.InPlace output u := by
  rw [produce, if_neg Bool.false_ne_true] at h
  rcases hwrites : writeAll t (outputFiles a output .always) with ⟨results, v⟩
  rw [hwrites] at h
  cases results with
  | error e => cases h
  | ok rs =>
    cases h
    obtain ⟨rfl, hplaces⟩ := writeAll_inPlace (filed_outputFiles a output .always)
      (overwrite_outputFiles a output .always) hwrites
    refine ⟨?_, hplaces⟩
    rw [pathsOf_map, pathsOf_map, if_pos rfl, if_neg (by decide)]

/-- Where writing changes nothing, so does a run that is not dry. -/
theorem produce_unchanged {fs : List OutputFile} {r : WriteResult} (hwet : mode.dryRun = false)
    (h : ∀ f ∈ fs, f.write t = (.ok r, t)) :
    produce mode fs t = (.ok (.files (if r = .written then fs.map (·.path) else [])
      (if r = .skipped then fs.map (·.path) else [])), t) := by
  rw [produce, hwet, if_neg Bool.false_ne_true, writeAll_unchanged h]
  simp only [pathsOf_map]

/-- Over a run that overwrites and succeeds: a dry run in its place reports the same, and shows the
files that it writes, in their order and with the contents that are read at their paths afterwards.
Once it has been made, runs for which the source comes to the same again change nothing: one like
it reports the same, and one that keeps what is there reports both files as kept. -/
theorem generate_shown [JsonWording] (source : Source) (i : Invocation) {w w' : World}
    {g : Report.Generation} (h : generate source i {} w = (.ok g, w')) :
    ∃ shown : List (String × String),
      shown.map (·.1) = [join i.output TypeScript.TypesFile.fileName,
        join i.output TypeScript.ClientFile.fileName] ∧
      g.product = .files (shown.map (·.1)) [] ∧
      (∀ skip, generate source i { dryRun := true, skipExisting := skip } w =
        (.ok { g with product := .preview shown }, { w' with files := w.files })) ∧
      (∀ f ∈ shown, w'.files.read f.1 = .ok f.2) ∧
      ∀ made, (i.source.fetch source i.id made).1 = (i.source.fetch source i.id w.made).1 →
        ∃ made', generate source i {} ⟨w'.files, made⟩ = (.ok g, ⟨w'.files, made'⟩) ∧
          generate source i { skipExisting := true } ⟨w'.files, made⟩ =
            (.ok { g with product := .files [] (shown.map (·.1)) }, ⟨w'.files, made'⟩) := by
  obtain ⟨d, a, product, hfetch, ha, hproduce, rfl⟩ := generate_eq_ok_iff.mp h
  obtain ⟨rfl, hplaces⟩ := produce_always hproduce
  have hagain : ∀ f ∈ outputFiles a i.output .always,
      f.write w'.files = (.ok .written, w'.files) :=
    fun f hf => (hplaces f hf).write_always (overwrite_outputFiles a i.output .always f hf)
  have hkept : ∀ f ∈ outputFiles a i.output .ifMissing,
      f.write w'.files = (.ok .skipped, w'.files) := by
    -- The files differ from those above only in that they are to be kept.
    have hsame : outputFiles a i.output .ifMissing =
        (outputFiles a i.output .always).map fun f => { f with overwrite := .ifMissing } := rfl
    rw [hsame, List.forall_mem_map]
    exact fun f hf => ((hplaces f hf).withOverwrite .ifMissing).write_ifMissing rfl
  refine ⟨(outputFiles a i.output .always).map fun f => (f.path, f.content), rfl, rfl,
    fun skip => ?_, fun p hp => ?_, fun made hmade => ?_⟩
  · refine generate_eq_ok_iff.mpr ⟨d, a, _, hfetch, ha, ?_, rfl⟩
    cases skip with
    | false => rfl
    | true => rfl
  · obtain ⟨f, hf, rfl⟩ := List.mem_map.mp hp
    exact (hplaces f hf).read
  · rcases hrefetch : i.source.fetch source i.id made with ⟨answer, made'⟩
    obtain rfl : answer = .ok d := by
      rw [hrefetch, hfetch] at hmade
      exact hmade
    exact ⟨made',
      generate_eq_ok_iff.mpr ⟨d, a, _, hrefetch, ha, produce_unchanged rfl hagain, rfl⟩,
      generate_eq_ok_iff.mpr ⟨d, a, _, hrefetch, ha, produce_unchanged rfl hkept, rfl⟩⟩

attribute [local instance] JsonWording.terse in
/-- A types file is there already, and the source always answers in the same way. -/
theorem pinging_shown :
    let start : World := ⟨edited "types.ts", []⟩
    ∃ g w' shown, generate pinging (pinged ".") {} start = (.ok g, w') ∧
      shown.map Prod.fst = ["./types.ts", "./api.ts"] ∧
      g.product = .files ["./types.ts", "./api.ts"] [] ∧
      generate pinging (pinged ".") { dryRun := true } start =
        (.ok { g with product := .preview shown }, { w' with files := edited "types.ts" }) ∧
      (∀ f ∈ shown, w'.files.read f.1 = .ok f.2) ∧
      (generate pinging (pinged ".") {} w').1 = .ok g ∧
      (generate pinging (pinged ".") { skipExisting := true } w').2.files = w'.files := by
  intro start
  have hsteady : pinging.IsSteady := fun _ _ _ => rfl
  have hok : (generate pinging (pinged ".") {} start).1.toOption.isSome = true := by
    decide +kernel
  rcases hrun : generate pinging (pinged ".") {} start with ⟨result, w'⟩
  rw [hrun] at hok
  cases result with
  | error e => cases hok
  | ok g =>
    obtain ⟨shown, hpaths, hproduct, hdry, hread, hagain⟩ :=
      generate_shown pinging (pinged ".") hrun
    have hpaths' : shown.map Prod.fst = ["./types.ts", "./api.ts"] := hpaths
    obtain ⟨made', hsecond, hskipping⟩ :=
      hagain w'.made (hsteady.fetch_eq _ _ _ _)
    refine ⟨g, w', shown, rfl, hpaths', hpaths' ▸ hproduct, hdry false, hread, ?_, ?_⟩
    · exact congrArg Prod.fst hsecond
    · exact congrArg (·.2.files) hskipping

end Runs

end Run
end TypedApi
