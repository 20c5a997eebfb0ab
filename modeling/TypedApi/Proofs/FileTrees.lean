import TypedApi.Proofs.Layouts
import TypedApi.Proofs.Paths

/-!
What the operations on a file tree do to what is where. A path is followed move by move; where no
move goes up in a directory that is yet to be made, all that counts is the location at its end.
-/
namespace TypedApi

namespace FileTree

/-- The same at every location, and the same start. -/
structure Same (t u : FileTree) : Prop where
  entries : t.entry? = u.entry?
  start : t.start = u.start

/-- Only directories have something in them, and relative paths start in a directory. -/
structure WellFormed (t : FileTree) : Prop where
  closed : Layout.Closed t.entry?
  start : t.entry? t.start = some .directory

variable {t : FileTree}

theorem lookup_cons_eq (l : List String) (e : FileEntry)
    (entries : List (List String × FileEntry)) (m : List String) :
    ((l, e) :: entries).lookup m = if m = l then some e else entries.lookup m := by
  rw [List.lookup_cons]
  by_cases hm : m = l
  · simp [hm]
  · have hbeq : (m == l) = false := by simp [hm]
    simp only [hbeq, hm, if_false]

theorem lookup_replace (entries : List (List String × FileEntry)) (l m : List String)
    (e : FileEntry) :
    (entries.map fun p => if p.1 == l then (l, e) else p).lookup m =
      if m = l ∧ entries.any (·.1 == l) then some e else entries.lookup m := by
  induction entries with
  | nil => simp
  | cons p rest ih =>
    obtain ⟨k, f⟩ := p
    rw [List.map_cons, List.any_cons, lookup_cons_eq]
    by_cases hk : k = l
    · subst hk
      simp only [BEq.rfl, if_true, lookup_cons_eq, ih, Bool.true_or, and_true]
      by_cases hm : m = k
      · simp only [hm, if_true]
      · simp only [hm, if_false, false_and]
    · have hkl : (k == l) = false := by simp [hk]
      simp only [hkl, Bool.false_eq_true, if_false, Bool.false_or, lookup_cons_eq, ih]
      by_cases hm : m = k
      · simp [hm, hk]
      · simp only [hm, if_false]

theorem lookup_append_new (entries : List (List String × FileEntry)) {l : List String}
    (h : ¬entries.any (·.1 == l)) (m : List String) (e : FileEntry) :
    (entries ++ [(l, e)]).lookup m = if m = l then some e else entries.lookup m := by
  have hnone : entries.lookup l = none := by
    rw [List.lookup_eq_none_iff]
    intro p hp
    simp only [List.any_eq_true, beq_iff_eq, not_exists, not_and] at h
    simpa [bne_iff_ne] using Ne.symm (h p hp)
  rw [List.lookup_append, lookup_cons_eq]
  by_cases hm : m = l
  · simp [hm, hnone]
  · simp [hm]

theorem entry?_put (t : FileTree) {l : List String} (hl : l ≠ []) (e : FileEntry) :
    FileTree.entry? (t.put l e) = Layout.set t.entry? l e := by
  funext m
  unfold Layout.set entry? put
  by_cases hm : m = []
  · simp [hm, Ne.symm hl]
  · have hempty : m.isEmpty = false := by simp [hm]
    rw [hempty]
    simp only [Bool.false_eq_true, if_false]
    split
    · next hany =>
      rw [lookup_replace]
      simp only [hany, and_true]
    · next hany => exact lookup_append_new t.entries hany m e

@[simp] theorem start_put (t : FileTree) (l : List String) (e : FileEntry) :
    (t.put l e).start = t.start := by
  unfold put
  split
  · rfl
  · rfl

section Following

theorem follow_name (t : FileTree) (location rest : List String) {name : String}
    (hdot : name ≠ ".") (hup : name ≠ "..") :
    t.follow location (name :: rest) =
      match t.entry? (location ++ [name]) with
      | some .directory => t.follow (location ++ [name]) rest
      | some (.file content) =>
        if rest.isEmpty then .ok (.file (location ++ [name]) content) else .error .notDirectory
      | none => if rest.isEmpty then .ok (.free (location ++ [name])) else .error .notFound := by
  cases hentry : t.entry? (location ++ [name]) with
  | none => simp only [follow, hentry]
  | some e =>
    cases e with
    | directory => simp only [follow, hentry]
    | file content => simp only [follow, hentry]

/-- Following a path goes on only in a directory. -/
theorem follow_append (t : FileTree) (location before : List String) {after : List String}
    (hafter : after ≠ []) :
    t.follow location (before ++ after) =
      match t.follow location before with
      | .ok (.directory l) => t.follow l after
      | .ok (.file _ _) => .error .notDirectory
      | .ok (.free _) => .error .notFound
      | .error e => .error e := by
  induction before generalizing location with
  | nil => rfl
  | cons name rest ih =>
    by_cases hdot : name = "."
    · subst hdot
      simpa [follow] using ih location
    by_cases hup : name = ".."
    · subst hup
      simpa [follow] using ih location.dropLast
    rw [List.cons_append, follow_name t location _ hdot hup, follow_name t location _ hdot hup]
    cases t.entry? (location ++ [name]) with
    | none =>
      cases rest with
      | nil => simp [hafter]
      | cons r rest => simp
    | some e =>
      cases e with
      | directory => exact ih (location ++ [name])
      | file content =>
        cases rest with
        | nil => simp [hafter]
        | cons r rest => simp

/-- A way to a directory that goes on by a name goes on in a directory of that name. -/
theorem directory_of_follow_name {location rest place : List String} {name : String}
    (hdot : name ≠ ".") (hup : name ≠ "..")
    (h : t.follow location (name :: rest) = .ok (.directory place)) :
    t.entry? (location ++ [name]) = some .directory ∧
      t.follow (location ++ [name]) rest = .ok (.directory place) := by
  rw [follow_name t location rest hdot hup] at h
  cases hentry : t.entry? (location ++ [name]) with
  | none => cases rest <;> simp [hentry] at h
  | some e =>
    cases e with
    | directory => exact ⟨rfl, by simpa only [hentry] using h⟩
    | file content => cases rest <;> simp [hentry] at h

/-- What is followed ends in a directory that is there. -/
theorem WellFormed.entry?_of_follow (ht : t.WellFormed) {location place path : List String}
    (hlocation : t.entry? location = some .directory)
    (h : t.follow location path = .ok (.directory place)) : t.entry? place = some .directory := by
  induction path generalizing location with
  | nil =>
    simp only [follow, Except.ok.injEq, Target.directory.injEq] at h
    exact h ▸ hlocation
  | cons name rest ih =>
    by_cases hdot : name = "."
    · subst hdot
      exact ih hlocation h
    by_cases hup : name = ".."
    · subst hup
      exact ih (ht.closed.directory_of_prefix (List.dropLast_prefix location) hlocation) h
    obtain ⟨hentry, hrest⟩ := directory_of_follow_name hdot hup h
    exact ih hentry hrest

/-- A way through directories stays while these do. -/
theorem follow_of_directories {u : FileTree}
    (hkept : ∀ l, t.entry? l = some .directory → u.entry? l = some .directory)
    {location place path : List String} (h : t.follow location path = .ok (.directory place)) :
    u.follow location path = .ok (.directory place) := by
  induction path generalizing location with
  | nil => exact h
  | cons name rest ih =>
    by_cases hdot : name = "."
    · subst hdot
      exact ih h
    by_cases hup : name = ".."
    · subst hup
      exact ih h
    obtain ⟨hentry, hrest⟩ := directory_of_follow_name hdot hup h
    simp only [follow_name u location rest hdot hup, hkept _ hentry]
    exact ih hrest

/-- Names are followed from a directory to the location that they spell. -/
theorem WellFormed.follow_names (ht : t.WellFormed) {location : List String}
    (hlocation : t.entry? location = some .directory) {names : List String}
    (hnames : ∀ name ∈ names, name ≠ "." ∧ name ≠ "..") :
    t.follow location names = Layout.seek t.entry? (location ++ names) := by
  induction names using List.reverseRecOn with
  | nil => simp [follow, Layout.seek, hlocation]
  | append_singleton names name ih =>
    obtain ⟨hbefore, hname⟩ := List.forall_mem_append.mp hnames
    obtain ⟨hdot, hup⟩ := hname name (List.mem_singleton_self name)
    rw [follow_append t location names (List.cons_ne_nil name []), ih hbefore, ← List.append_assoc]
    generalize location ++ names = place
    -- Below anything but a directory there is nothing.
    have hbelow : t.entry? place ≠ some .directory → t.entry? (place ++ [name]) = none := by
      intro hplace
      cases he : t.entry? (place ++ [name]) with
      | none => rfl
      | some e => exact absurd (ht.closed.above _ _ _ he) hplace
    have hblocked := Layout.blocked_concat t.entry? place name
    unfold Layout.seek
    rw [List.dropLast_concat]
    cases hplace : t.entry? place with
    | none =>
      rw [hbelow (by simp [hplace])] at hblocked ⊢
      by_cases hfree : t.entry? place.dropLast = some .directory
      · simp [hfree, hblocked, ht.closed.not_blocked_of_free hfree hplace, isFile]
      · cases hb : Layout.blocked t.entry? place with
        | true => simp [hfree, hblocked, hb]
        | false => simp [hfree, hblocked, hb, isFile]
    | some e =>
      cases e with
      | directory =>
        simp only [follow_name t place [] hdot hup, List.isEmpty_nil, if_true]
        cases t.entry? (place ++ [name]) with
        | none => rfl
        | some e => cases e <;> rfl
      | file content =>
        have hfile : Layout.blocked t.entry? place = true :=
          Layout.blocked_of_isFile (by rw [hplace]; rfl)
        rw [hbelow (by simp [hplace])] at hblocked ⊢
        simp [hblocked, hfile]

end Following

section Targets

open FilePath (moves Tidy isIdle)

/-- Dots before a last part that is none can be left out. -/
theorem follow_filter (t : FileTree) (location before : List String) {last : String}
    (hlast : last ≠ ".") :
    t.follow location (before ++ [last]) =
      t.follow location ((before ++ [last]).filter (· ≠ ".")) := by
  induction before generalizing location with
  | nil => simp [hlast]
  | cons name rest ih =>
    by_cases hdot : name = "."
    · subst hdot
      simpa [follow] using ih location
    have hfilter : (name :: rest ++ [last]).filter (· ≠ ".") =
        name :: (rest ++ [last]).filter (· ≠ ".") := by
      simp [hdot]
    have hrest : (rest ++ [last]).isEmpty = ((rest ++ [last]).filter (· ≠ ".")).isEmpty := by
      rw [Bool.eq_iff_iff, List.isEmpty_iff, List.isEmpty_iff]
      simp [hlast]
    rw [hfilter, List.cons_append]
    by_cases hup : name = ".."
    · subst hup
      exact ih location.dropLast
    · rw [follow_name t location _ hdot hup, follow_name t location _ hdot hup, hrest, ih]

theorem target_of_tidy (t : FileTree) {path : String} (htidy : Tidy path) (hne : path ≠ "") :
    t.target path = t.follow (t.origin path) (moves path) := by
  unfold target reach
  rw [if_neg hne, FilePath.moves_eq]
  cases htidy with
  | step before p hparts hempty hdot =>
    have hslash : endsInSlash path = false :=
      FilePath.not_endsInSlash (by rw [hparts, List.getLast?_concat]) hempty
    have hfilter : (before ++ [p]).filter (· ≠ "") = before.filter (· ≠ "") ++ [p] := by
      simp [hempty]
    rw [hparts, hfilter, ← follow_filter t _ _ hdot, hslash]
    split
    · next h => rw [h]; rfl
    · rfl
  | still hmoves hdots =>
    rw [FilePath.moves_eq] at hmoves
    rw [hmoves]
    rcases hdots with hdots | hdots
    · rw [hdots]
      rfl
    · rw [hdots]
      rfl

/-- The path goes up only in directories that are there; what may have to be made on the way to the
place is entered by its name. -/
def Leads (t : FileTree) (path : String) (place : List String) : Prop :=
  ∃ before base names, moves path = before ++ names ∧
    t.follow (t.origin path) before = .ok (.directory base) ∧ place = base ++ names ∧
    ".." ∉ names

theorem WellFormed.origin (ht : t.WellFormed) (path : String) :
    t.entry? (t.origin path) = some .directory := by
  unfold FileTree.origin
  split
  · rfl
  · exact ht.start

theorem WellFormed.target_eq (ht : t.WellFormed) {path : String} {place : List String}
    (htidy : Tidy path) (hne : path ≠ "") (h : t.Leads path place) :
    t.target path = Layout.seek t.entry? place := by
  obtain ⟨before, base, names, hmoves, hbefore, rfl, hnames⟩ := h
  have hbase := ht.entry?_of_follow (ht.origin path) hbefore
  have hplain : ∀ name ∈ names, name ≠ "." ∧ name ≠ ".." := by
    intro name hname
    refine ⟨FilePath.ne_dot_of_mem_moves (hmoves ▸ List.mem_append_right before hname), ?_⟩
    rintro rfl
    exact hnames hname
  rw [target_of_tidy t htidy hne, hmoves, ← ht.follow_names hbase hplain]
  cases names with
  | nil => rw [List.append_nil, hbefore]; rfl
  | cons name rest => rw [follow_append t _ _ (List.cons_ne_nil name rest), hbefore]

theorem Leads.of_directories {u : FileTree} {path : String} {place : List String}
    (h : t.Leads path place) (hstart : u.start = t.start)
    (hkept : ∀ l, t.entry? l = some .directory → u.entry? l = some .directory) :
    u.Leads path place := by
  obtain ⟨before, base, names, hmoves, hbefore, hplace, hnames⟩ := h
  have horigin : u.origin path = t.origin path := by
    unfold origin
    rw [hstart]
  exact ⟨before, base, names, hmoves, horigin ▸ follow_of_directories hkept hbefore, hplace, hnames⟩

end Targets

section Making

open FilePath (moves Tidy)

/-- What making the directories of a place comes to. -/
structure Made (t : FileTree) (place : List String) (made : FileTree) (error : Option FileError) :
    Prop where
  error : error = Layout.obstacle t.entry? place
  entries : made.entry? = if Layout.blocked t.entry? place then t.entry?
    else Layout.withDirectory t.entry? place
  start : made.start = t.start

theorem WellFormed.makeDirectory_eq (ht : t.WellFormed) {path : String} {place : List String}
    (htidy : Tidy path) (hne : path ≠ "") (h : t.Leads path place) :
    t.makeDirectory path =
      match t.entry? place with
      | some _ => .error .occupied
      | none =>
        if t.entry? place.dropLast = some .directory then .ok (t.put place .directory)
        else if Layout.blocked t.entry? place then .error .notDirectory
        else .error .notFound := by
  unfold makeDirectory
  rw [ht.target_eq htidy hne h, Layout.seek]
  cases t.entry? place with
  | some e => cases e <;> rfl
  | none =>
    by_cases habove : t.entry? place.dropLast = some .directory
    · simp [habove]
    · cases hblocked : Layout.blocked t.entry? place with
      | true => simp [habove]
      | false => simp [habove]

theorem WellFormed.isDirectory_iff (ht : t.WellFormed) {path : String} {place : List String}
    (htidy : Tidy path) (hne : path ≠ "") (h : t.Leads path place) :
    t.isDirectory path = true ↔ t.entry? place = some .directory := by
  unfold isDirectory
  rw [ht.target_eq htidy hne h]
  rcases Layout.seek_cases t.entry? place with
    ⟨hentry, hseek⟩ | ⟨content, hentry, hseek⟩ | ⟨hentry, hseek | ⟨e, hseek⟩⟩
  · simp [hentry, hseek]
  · simp [hentry, hseek]
  · simp [hentry, hseek]
  · simp [hentry, hseek]

/-- A directory that is there already is left alone. -/
theorem WellFormed.made_self (ht : t.WellFormed) {place : List String}
    (h : t.entry? place = some .directory) : Made t place t none where
  error := by simp [Layout.obstacle, h, isFile, ht.closed.not_blocked h]
  entries := by simp [ht.closed.not_blocked h, ht.closed.withDirectory_eq h]
  start := rfl

section

variable {place : List String} {u : FileTree} {error : Option FileError}

theorem Made.kept (h : Made t place u error) {l : List String}
    (hl : t.entry? l = some .directory) : u.entry? l = some .directory := by
  rw [h.entries]
  split
  · exact hl
  · unfold Layout.withDirectory
    split
    · rfl
    · exact hl

theorem Made.wellFormed (h : Made t place u error) (ht : t.WellFormed) : u.WellFormed where
  closed := by
    rw [h.entries]
    split
    · exact ht.closed
    · exact ht.closed.withDirectory place
  start := by
    rw [h.start]
    exact h.kept ht.start

theorem Made.entries_of_none (h : Made t place u none) :
    u.entry? = Layout.withDirectory t.entry? place := by
  have hblocked := Layout.obstacle_eq_none.mp h.error.symm
  rw [h.entries, hblocked]
  rfl

/-- One directory more is made in a directory that has been made. -/
theorem Made.put {name : String} (h : Made t place u none)
    (hname : t.entry? (place ++ [name]) = none) :
    Made t (place ++ [name]) (u.put (place ++ [name]) .directory) none := by
  have hblocked : Layout.blocked t.entry? (place ++ [name]) = false := by
    rw [Layout.blocked_concat, Layout.obstacle_eq_none.mp h.error.symm, hname]
    rfl
  refine ⟨(Layout.obstacle_eq_none.mpr hblocked).symm, ?_, by rw [start_put, h.start]⟩
  rw [entry?_put u (by simp), h.entries_of_none, Layout.withDirectory_concat, hblocked]
  rfl

end

/-- A path that makes no move leads to the directory that it starts from. -/
theorem Leads.entry?_of_still (ht : t.WellFormed) {path : String} {place : List String}
    (h : t.Leads path place) (hstill : moves path = []) : t.entry? place = some .directory := by
  obtain ⟨before, base, names, hmoves, hbefore, rfl, -⟩ := h
  rw [hmoves, List.append_eq_nil_iff] at hstill
  rw [hstill.2, List.append_nil]
  exact ht.entry?_of_follow (ht.origin path) hbefore

/-- A directory above is one name short of the place, or there is none to be made. -/
theorem Leads.above {path above : String} {place : List String} (h : t.Leads path place)
    (habove : FilePath.Above path above) (hplace : t.entry? place = none)
    (ht : t.WellFormed) : ∃ up name, place = up ++ [name] ∧ t.Leads above up := by
  obtain ⟨before, base, names, hmoves, hbefore, rfl, hnames⟩ := h
  have hbase := ht.entry?_of_follow (ht.origin path) hbefore
  have horigin : t.origin above = t.origin path := by
    unfold origin
    rw [habove.isRooted]
  cases names using List.reverseRecOn with
  | nil => simp [hbase] at hplace
  | append_singleton names name =>
    refine ⟨base ++ names, name, (List.append_assoc ..).symm, before, base, names, ?_, ?_, rfl, ?_⟩
    · rw [habove.moves, hmoves, ← List.append_assoc, List.dropLast_concat]
    · rw [horigin, hbefore]
    · intro hup
      exact hnames (List.mem_append_left _ hup)

/-- Once the directories above a place are made, so can be that of the place. -/
theorem Made.makeDirectory {u : FileTree} {path name : String} {up : List String}
    (hmade : Made t up u none) (ht : t.WellFormed) (htidy : Tidy path) (hne : path ≠ "")
    (h : t.Leads path (up ++ [name])) (hplace : t.entry? (up ++ [name]) = none) :
    u.makeDirectory path = .ok (u.put (up ++ [name]) .directory) := by
  have hleads := h.of_directories hmade.start fun _ => hmade.kept
  have hentries := hmade.entries_of_none
  have hup : u.entry? up = some .directory := by
    rw [hentries, Layout.withDirectory_self]
  have hfree : u.entry? (up ++ [name]) = none := by
    rw [hentries, Layout.withDirectory_below, hplace]
  rw [(hmade.wellFormed ht).makeDirectory_eq htidy hne hleads, hfree, List.dropLast_concat]
  simp [hup]

theorem WellFormed.makeAllFrom_made (ht : t.WellFormed) {n : Nat} {path : String}
    {place : List String} (htidy : Tidy path) (h : t.Leads path place)
    (hn : (moves path).length < n) :
    Made t place (t.makeAllFrom n path).1 (t.makeAllFrom n path).2 := by
  induction n generalizing path place with
  | zero => omega
  | succ n ih =>
    unfold makeAllFrom
    by_cases hempty : path = ""
    · have hstill : moves path = [] := by
        rw [hempty]
        rfl
      rw [if_pos hempty]
      exact ht.made_self (h.entry?_of_still ht hstill)
    rw [if_neg hempty, ht.makeDirectory_eq htidy hempty h]
    cases hplace : t.entry? place with
    | some e =>
      simp only [ht.isDirectory_iff htidy hempty h, hplace]
      cases e with
      | directory => exact ht.made_self hplace
      | file content =>
        have hblocked : Layout.blocked t.entry? place = true :=
          Layout.blocked_of_isFile (by rw [hplace]; rfl)
        exact ⟨by simp [Layout.obstacle, hplace, isFile], by simp [hblocked], rfl⟩
    | none =>
      have hmoves : moves path ≠ [] := by
        intro hstill
        simp [h.entry?_of_still ht hstill] at hplace
      obtain ⟨above, hparent⟩ := FilePath.exists_parent? hmoves
      have habove := FilePath.above_of_parent? hparent
      obtain ⟨up, name, rfl, hup⟩ := h.above habove hplace ht
      rw [List.dropLast_concat]
      by_cases hfree : t.entry? up = some .directory
      · simp only [hfree, if_true]
        exact (ht.made_self hfree).put hplace
      cases hblocked : Layout.blocked t.entry? (up ++ [name]) with
      | true =>
        simp only [ht.isDirectory_iff htidy hempty h, hplace, hfree, if_false, if_true]
        exact ⟨by simp [Layout.obstacle, hplace, hblocked, isFile], by simp [hblocked], rfl⟩
      | false =>
        have hlength : (moves above).length < n := by
          have hpositive := List.length_pos_of_ne_nil hmoves
          rw [habove.moves, List.length_dropLast]
          omega
        have hmade := ih habove.tidy hup hlength
        rcases hr : makeAllFrom n t above with ⟨u, error⟩
        rw [hr] at hmade
        rw [Layout.blocked_concat, Bool.or_eq_false_iff] at hblocked
        obtain rfl : error = none := hmade.error.trans (Layout.obstacle_eq_none.mpr hblocked.1)
        have hlast := hmade.makeDirectory ht htidy hempty h hplace
        simp only [hfree, if_false, Bool.false_eq_true, hparent, hr, hlast]
        exact hmade.put hplace

theorem WellFormed.makeAll_made (ht : t.WellFormed) {path : String} {place : List String}
    (htidy : Tidy path) (h : t.Leads path place) :
    Made t place (t.makeAll path).1 (t.makeAll path).2 :=
  ht.makeAllFrom_made htidy h (Nat.lt_succ_of_le (FilePath.length_moves_le path))

end Making

end FileTree
end TypedApi
