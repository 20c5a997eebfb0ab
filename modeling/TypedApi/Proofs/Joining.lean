import Mathlib.Data.List.Nodup
import TypedApi.Proofs.Independence
import TypedApi.Proofs.Retries
import TypedApi.Run.Batch

/-!
Invocations that run together, each turn by turn. What one of them comes to is settled at its last
turn, and is what it would come to from any turn on if it were left alone. All of them come to their
ends, one for each place, unless a panic ends the program before.
-/
namespace TypedApi.Run

section Turns

open SourceSettings (exchange isTransient)

variable [JsonWording] {source : Source} {mode : Mode}

/-- A turn that is the last comes to what the task comes to if left alone. Any other leaves the
files as they are, and leaves to the task the rest of its fetch. -/
def Task.IsTurn (source : Source) (mode : Mode)
    (turn : Task → World → (Progress ⊕ Except Error Report.Generation) × World) : Prop :=
  ∀ t w,
    (∃ progress made, turn t w = (.inl progress, ⟨w.files, made⟩) ∧
      ({ t with progress } : Task).fetch source made = t.fetch source w.made) ∨
    turn t w = (.inr (t.drive source mode w).1, (t.drive source mode w).2)

theorem Task.isTurn_drive :
    Task.IsTurn source mode fun t w => (t.drive source mode w).map .inr id :=
  fun _ _ => .inr rfl

theorem Task.poll_again (place : Nat) {i : Invocation} {request : Request} (more : Nat) {w : World}
    (h : isTransient (i.source.outcomeAt source request w.made 0) = true) :
    Task.poll source mode ⟨place, i, .asking request (more + 1)⟩ w =
      (.inl (.asking request more), ⟨w.files, w.made ++ [exchange source request w.made 0]⟩) := by
  have hask : SourceSettings.ask source request w.made = exchange source request w.made 0 := rfl
  unfold SourceSettings.outcomeAt at h
  simp only [poll, hask]
  cases ho : i.source.outcome (exchange source request w.made 0).answer with
  | ok d => simp [ho, isTransient] at h
  | error e =>
    have he : e.isTransient = true := by simpa [ho, isTransient] using h
    simp only [he, if_true]

theorem Task.poll_last {place : Nat} {i : Invocation} {request : Request} {more : Nat} {w : World}
    (h : more = 0 ∨ isTransient (i.source.outcomeAt source request w.made 0) = false) :
    Task.poll source mode ⟨place, i, .asking request more⟩ w =
      (.inr (finish i mode (i.source.outcomeAt source request w.made 0) w.files).1,
        ⟨(finish i mode (i.source.outcomeAt source request w.made 0) w.files).2,
          w.made ++ [exchange source request w.made 0]⟩) := by
  have hask : SourceSettings.ask source request w.made = exchange source request w.made 0 := rfl
  unfold SourceSettings.outcomeAt at h ⊢
  simp only [poll, hask]
  cases ho : i.source.outcome (exchange source request w.made 0).answer with
  | ok d => rfl
  | error e =>
    cases more with
    | zero => rfl
    | succ more =>
      have he : e.isTransient = false := by simpa [ho, isTransient] using h
      simp only [he, Bool.false_eq_true, if_false, finish]

theorem Task.isTurn_poll : Task.IsTurn source mode (Task.poll source mode) := by
  rintro ⟨place, i, progress⟩ w
  cases progress with
  | waiting =>
    cases hstart : i.source.start i.id with
    | error e =>
      right
      simp only [poll, drive, fetch, SourceSettings.fetch, hstart, finish]
    | ok start =>
      left
      refine ⟨.asking start.1 start.2, w.made, ?_, ?_⟩
      · simp only [poll, hstart]
      · simp only [fetch, SourceSettings.fetch, hstart]
  | asking request more =>
    by_cases hlast : more = 0 ∨ isTransient (i.source.outcomeAt source request w.made 0) = false
    · right
      rw [poll_last hlast]
      simp only [drive, fetch, i.source.fetchFrom_last source request w.made hlast]
    · left
      obtain ⟨hmore, hagain⟩ := not_or.mp hlast
      obtain ⟨more, rfl⟩ := Nat.exists_eq_succ_of_ne_zero hmore
      rw [Bool.not_eq_false] at hagain
      exact ⟨.asking request more, _, poll_again place more hagain,
        (i.source.fetchFrom_again source request w.made hagain).symm⟩

end Turns

section Joined

variable {j : Joined} {is : List Invocation} {w : World} {n : Nat}

/-- Every place is either through or under way, and under way is the invocation of the place. -/
structure Joined.Tracks (j : Joined) (is : List Invocation) : Prop where
  places : (j.completed.map (·.1) ++ j.tasks.map (·.place)).Perm (List.range is.length)
  known : ∀ t ∈ j.tasks, is[t.place]? = some t.invocation

namespace Joined

theorem tracks_ofInvocations (is : List Invocation) (w : World) :
    (ofInvocations is w).Tracks is where
  places := by
    have hplaces : (ofInvocations is w).tasks.map (·.place) = List.range is.length := by
      apply List.ext_getElem <;> simp [ofInvocations]
    rw [hplaces]
    exact .refl _
  known := by
    intro t ht
    obtain ⟨place, hplace, rfl⟩ := List.mem_mapIdx.mp ht
    exact List.getElem?_eq_getElem hplace

theorem places_goOn (j : Joined) (place : Nat) (progress : Progress) (w : World) :
    (j.goOn place progress w).tasks.map (·.place) = j.tasks.map (·.place) := by
  simp only [goOn, List.map_map]
  refine List.map_congr_left fun t _ => ?_
  simp only [Function.comp]
  split <;> rfl

/-- What is under way after a turn is what was, but for the one that took the turn. -/
theorem mem_goOn {place : Nat} {progress : Progress} {t : Task}
    (h : t ∈ (j.goOn place progress w).tasks) :
    t ∈ j.tasks ∨ ∃ u ∈ j.tasks, u.place = place ∧ t = { u with progress } := by
  obtain ⟨u, hu, rfl⟩ := List.mem_map.mp h
  by_cases hplace : u.place = place
  · exact .inr ⟨u, hu, hplace, by simp [hplace]⟩
  · exact .inl (by simpa [hplace] using hu)

theorem mem_complete {place : Nat} {result : Except Error Report.Generation} {t : Task} :
    t ∈ (j.complete place result w).tasks ↔ t ∈ j.tasks ∧ t.place ≠ place := by
  simp [complete]

theorem isStopped_complete (j : Joined) (place : Nat) (result : Except Error Report.Generation)
    (w : World) : (j.complete place result w).isStopped = (j.isStopped || panicked result) := by
  simp [isStopped, complete]

theorem Tracks.nodup (h : j.Tracks is) : (j.tasks.map (·.place)).Nodup :=
  (List.nodup_append.mp (h.places.nodup_iff.mpr List.nodup_range)).2.1

theorem Tracks.unique (h : j.Tracks is) {t u : Task} (ht : t ∈ j.tasks) (hu : u ∈ j.tasks)
    (hplace : t.place = u.place) : t = u :=
  List.inj_on_of_nodup_map h.nodup ht hu hplace

theorem Tracks.goOn (h : j.Tracks is) (place : Nat) (progress : Progress) (w : World) :
    (j.goOn place progress w).Tracks is where
  places := places_goOn j place progress w ▸ h.places
  known := by
    intro t ht
    rcases mem_goOn ht with ht | ⟨u, hu, -, rfl⟩
    · exact h.known t ht
    · exact h.known u hu

theorem Tracks.complete (h : j.Tracks is) {t : Task} (ht : t ∈ j.tasks)
    (result : Except Error Report.Generation) (w : World) :
    (j.complete t.place result w).Tracks is where
  places := by
    have hrest : (j.complete t.place result w).tasks.map (·.place) =
        (j.tasks.map (·.place)).erase t.place := by
      rw [h.nodup.erase_eq_filter, List.filter_map]
      rfl
    have hplaces : (t.place :: (j.tasks.map (·.place)).erase t.place).Perm
        (j.tasks.map (·.place)) :=
      (List.perm_cons_erase (List.mem_map_of_mem ht)).symm
    rw [hrest, Joined.complete, List.map_append, List.append_assoc]
    exact (hplaces.append_left _).trans h.places
  known := fun u hu => h.known u (mem_complete.mp hu).1

theorem lookup_completed (h : (j.completed.map (·.1)).Perm (List.range n))
    {c : Nat × Except Error Report.Generation} (hc : c ∈ j.completed) :
    j.completed.lookup c.1 = some c.2 := by
  have hnodup : (j.completed.map (·.1)).Nodup := h.nodup_iff.mpr List.nodup_range
  obtain ⟨before, after, hsplit⟩ := List.append_of_mem hc
  refine List.lookup_eq_some_iff.mpr ⟨before, after, hsplit, fun d hd => bne_iff_ne.mpr ?_⟩
  rw [hsplit, List.map_append, List.map_cons] at hnodup
  exact ((List.nodup_append.mp hnodup).2.2 d.1 (List.mem_map_of_mem hd) c.1 (by simp)).symm

theorem map_some_results (h : (j.completed.map (·.1)).Perm (List.range n)) :
    (j.results n).map some = (List.range n).map fun place => j.completed.lookup place := by
  have hall : ∀ place ∈ List.range n, ∃ r, j.completed.lookup place = some r := by
    intro place hplace
    obtain ⟨c, hc, rfl⟩ := List.mem_map.mp (h.mem_iff.mpr hplace)
    exact ⟨c.2, lookup_completed h hc⟩
  rw [results, List.map_filterMap, ← List.filterMap_eq_map]
  refine List.filterMap_congr fun place hplace => ?_
  obtain ⟨r, hr⟩ := hall place hplace
  rw [Function.comp_apply, hr]
  rfl

theorem length_results (h : (j.completed.map (·.1)).Perm (List.range n)) :
    (j.results n).length = n := by
  simpa using congrArg List.length (map_some_results h)

/-- Each result stands at its place. -/
theorem getElem?_results (h : (j.completed.map (·.1)).Perm (List.range n))
    {c : Nat × Except Error Report.Generation} (hc : c ∈ j.completed) :
    (j.results n)[c.1]? = some c.2 := by
  have hplace : c.1 < n := List.mem_range.mp (h.mem_iff.mp (List.mem_map_of_mem hc))
  have hsome := congrArg (·[c.1]?) (map_some_results h)
  simpa [hplace, lookup_completed h hc] using hsome

variable {turn : Task → World → (Progress ⊕ Except Error Report.Generation) × World}

theorem advance_of_stopped (h : j.isStopped = true) (place : Nat) : j.advance turn place = j :=
  if_pos h

theorem foldl_of_stopped (h : j.isStopped = true) (places : List Nat) :
    places.foldl (advance turn) j = j := by
  induction places with
  | nil => rfl
  | cons place places ih => rw [List.foldl_cons, advance_of_stopped h, ih]

end Joined

variable [JsonWording] {source : Source} {mode : Mode}
  {turn : Task → World → (Progress ⊕ Except Error Report.Generation) × World}

/-- What holds of a batch and goes through the turns of its tasks. -/
structure Joined.Kept (source : Source) (mode : Mode) (P : Joined → Prop) : Prop where
  goOn : ∀ j t progress made, P j → t ∈ j.tasks →
    ({ t with progress } : Task).fetch source made = t.fetch source j.world.made →
    P (j.goOn t.place progress ⟨j.world.files, made⟩)
  complete : ∀ j t, P j → t ∈ j.tasks →
    P (j.complete t.place (t.drive source mode j.world).1 (t.drive source mode j.world).2)

namespace Joined

theorem Kept.advance {P : Joined → Prop} (h : Kept source mode P)
    (hturn : Task.IsTurn source mode turn) (hj : P j) (place : Nat) : P (j.advance turn place) := by
  unfold Joined.advance
  split
  · exact hj
  split
  · exact hj
  next t hfind =>
    have ht := List.mem_of_find?_eq_some hfind
    obtain rfl : t.place = place := by simpa using List.find?_some hfind
    rcases hturn t j.world with ⟨progress, made, hnext, hfetch⟩ | hend
    · rw [hnext]
      exact h.goOn j t progress made hj ht hfetch
    · rw [hend]
      exact h.complete j t hj ht

theorem Kept.foldl {P : Joined → Prop} (h : Kept source mode P)
    (hturn : Task.IsTurn source mode turn) (hj : P j) (places : List Nat) :
    P (places.foldl (Joined.advance turn) j) := by
  induction places generalizing j with
  | nil => exact hj
  | cons place places ih => exact ih (h.advance hturn hj place)

/-- What holds at the start of a batch and is kept holds at its end. -/
theorem Kept.joinAll {P : Joined → Prop} (h : Kept source mode P) (hstart : P (ofInvocations is w))
    (turns : List Nat) : P (joinAll source mode turns is w) :=
  h.foldl Task.isTurn_drive (h.foldl Task.isTurn_poll hstart turns) _

theorem tracks_kept (source : Source) (mode : Mode) (is : List Invocation) :
    Kept source mode (Tracks · is) where
  goOn _ _ _ _ h _ _ := h.goOn _ _ _
  complete _ _ h ht := h.complete ht _ _

theorem drive_of_find? {place : Nat} {t : Task} (h : j.isStopped = false)
    (hfind : j.tasks.find? (·.place == place) = some t) :
    j.drive source mode place =
      j.complete place (t.drive source mode j.world).1 (t.drive source mode j.world).2 := by
  rw [drive, Joined.advance, if_neg (Bool.not_eq_true _ ▸ h), hfind]
  rfl

/-- What is still under way after one was driven to its end. -/
theorem mem_drive {place : Nat} (h : (j.drive source mode place).isStopped = false) {t : Task}
    (ht : t ∈ (j.drive source mode place).tasks) : t ∈ j.tasks ∧ t.place ≠ place := by
  cases hstopped : j.isStopped with
  | true =>
    rw [drive, advance_of_stopped hstopped, hstopped] at h
    cases h
  | false =>
    cases hfind : j.tasks.find? (·.place == place) with
    | none =>
      have hsame : j.drive source mode place = j := by
        simp [drive, Joined.advance, hstopped, hfind]
      rw [hsame] at ht
      exact ⟨ht, by simpa using List.find?_eq_none.mp hfind t ht⟩
    | some u =>
      rw [drive_of_find? hstopped hfind] at ht
      exact mem_complete.mp ht

theorem mem_foldl_drive {places : List Nat}
    (h : (places.foldl (Joined.drive source mode) j).isStopped = false) {t : Task}
    (ht : t ∈ (places.foldl (Joined.drive source mode) j).tasks) :
    t ∈ j.tasks ∧ t.place ∉ places := by
  induction places generalizing j with
  | nil => exact ⟨ht, List.not_mem_nil⟩
  | cons place places ih =>
    obtain ⟨hmem, hplaces⟩ := ih h ht
    have hrunning : (j.drive source mode place).isStopped = false := by
      cases hstopped : (j.drive source mode place).isStopped with
      | false => rfl
      | true =>
        have hend : places.foldl (Joined.drive source mode) (j.drive source mode place) =
            j.drive source mode place := foldl_of_stopped hstopped places
        rw [List.foldl_cons, hend, hstopped] at h
        cases h
    obtain ⟨hold, hne⟩ := mem_drive hrunning hmem
    exact ⟨hold, List.not_mem_cons_of_ne_of_not_mem hne hplaces⟩

/-- Unless a panic ends the program before, a batch has one result for each place. -/
theorem places_joinAll {turns : List Nat}
    (h : (joinAll source mode turns is w).isStopped = false) :
    ((joinAll source mode turns is w).completed.map (·.1)).Perm (List.range is.length) := by
  have htracks : (joinAll source mode turns is w).Tracks is :=
    (tracks_kept source mode is).joinAll (tracks_ofInvocations is w) turns
  have hnone : (joinAll source mode turns is w).tasks = [] := by
    refine List.eq_nil_iff_forall_not_mem.mpr fun t ht => (mem_foldl_drive h ht).2 ?_
    exact htracks.places.mem_iff.mp (List.mem_append_right _ (List.mem_map_of_mem ht))
  simpa [hnone] using htracks.places

/-- What is true of the tasks at the start and is left true by their turns is true at their last
turns, so that all that comes of a batch is what comes of such tasks. -/
theorem completed_joinAll {Q : Task → Prop} {R : Invocation → Except Error Report.Generation → Prop}
    (hstart : ∀ place i, Q { place, invocation := i })
    (hnext : ∀ t progress made made', Q t →
      ({ t with progress } : Task).fetch source made' = t.fetch source made → Q { t with progress })
    (hend : ∀ t w, Q t → R t.invocation (t.drive source mode w).1) {turns : List Nat} :
    ∀ c ∈ (joinAll source mode turns is w).completed, ∃ i, is[c.1]? = some i ∧ R i c.2 := by
  let P (j : Joined) : Prop := j.Tracks is ∧ (∀ t ∈ j.tasks, Q t) ∧
    ∀ c ∈ j.completed, ∃ i, is[c.1]? = some i ∧ R i c.2
  have hkept : Kept source mode P :=
    { goOn := by
        rintro j t progress made ⟨htracks, htasks, hcompleted⟩ ht hfetch
        refine ⟨htracks.goOn _ _ _, fun u hu => ?_, hcompleted⟩
        rcases mem_goOn hu with hu | ⟨v, hv, hplace, rfl⟩
        · exact htasks u hu
        · rw [htracks.unique hv ht hplace]
          exact hnext t progress j.world.made made (htasks t ht) hfetch
      complete := by
        rintro j t ⟨htracks, htasks, hcompleted⟩ ht
        refine ⟨htracks.complete ht _ _, fun u hu => htasks u (mem_complete.mp hu).1, ?_⟩
        intro c hc
        rcases List.mem_append.mp hc with hc | hc
        · exact hcompleted c hc
        · obtain rfl := List.mem_singleton.mp hc
          exact ⟨t.invocation, htracks.known t ht, hend t j.world (htasks t ht)⟩ }
  refine (hkept.joinAll ⟨tracks_ofInvocations is w, ?_, nofun⟩ turns).2.2
  intro t ht
  obtain ⟨place, hplace, rfl⟩ := List.mem_mapIdx.mp ht
  exact hstart place _

end Joined

theorem panicked_generateFrom (i : Invocation) (mode : Mode) (d : InterfaceDocument)
    (t : FileTree) : panicked (generateFrom i mode d t).1 = false := by
  simp only [generateFrom]
  split
  · rfl
  · split <;> rfl

theorem panicked_finish_iff (i : Invocation) (mode : Mode)
    (answer : Except FetchError InterfaceDocument) (t : FileTree) :
    panicked (finish i mode answer t).1 = true ↔ answer = .error .overflow := by
  cases answer with
  | error e => cases e <;> simp [finish, panicked, Error.isPanic]
  | ok d => simp [finish, panicked_generateFrom]

theorem panicked_generate_iff {i : Invocation} :
    panicked (generate source i mode w).1 = true ↔ i.source.attempts? = none := by
  rw [← i.source.fetch_overflow_iff source i.id w.made]
  exact panicked_finish_iff i mode _ w.files

/-- A panic ends a batch if the limit of one of its invocations overflows, and never otherwise. -/
theorem isStopped_joinAll_iff {turns : List Nat} :
    (joinAll source mode turns is w).isStopped = true ↔ ∃ i ∈ is, i.source.attempts? = none := by
  have hcompleted : ∀ c ∈ (joinAll source mode turns is w).completed, ∃ i, is[c.1]? = some i ∧
      (panicked c.2 = true ↔ i.source.attempts? = none) := by
    refine Joined.completed_joinAll
      (Q := fun t => ∀ made, (t.fetch source made).1 = .error .overflow ↔
        t.invocation.source.attempts? = none)
      (R := fun i r => panicked r = true ↔ i.source.attempts? = none) ?_ ?_ ?_
    · exact fun place i made => i.source.fetch_overflow_iff source i.id made
    · intro t progress made made' ht hfetch later
      cases progress with
      | waiting => exact t.invocation.source.fetch_overflow_iff source t.invocation.id later
      | asking request more =>
        -- A task that asks has a limit, for its fetch would have failed at once.
        have hasks := t.invocation.source.fetchFrom_ne_overflow source request more
        refine iff_of_false (hasks later) fun hnone => hasks made' ?_
        exact (congrArg Prod.fst hfetch).trans ((ht made).mpr hnone)
    · exact fun t w ht => (panicked_finish_iff t.invocation mode _ w.files).trans (ht w.made)
  constructor
  · intro h
    obtain ⟨c, hc, hpanicked⟩ := List.any_eq_true.mp h
    obtain ⟨i, hi, hiff⟩ := hcompleted c hc
    exact ⟨i, List.mem_of_getElem? hi, hiff.mp hpanicked⟩
  · rintro ⟨i, hi, hnone⟩
    by_contra hrunning
    obtain ⟨place, hplace, rfl⟩ := List.mem_iff_getElem.mp hi
    have hplaces := Joined.places_joinAll (Bool.not_eq_true _ ▸ hrunning)
    obtain ⟨c, hc, rfl⟩ := List.mem_map.mp (hplaces.mem_iff.mpr (List.mem_range.mpr hplace))
    obtain ⟨k, hk, hiff⟩ := hcompleted c hc
    obtain rfl : is[c.1] = k := by simpa [hplace] using hk
    exact hrunning (List.any_eq_true.mpr ⟨c, hc, hiff.mpr hnone⟩)

end Joined

section InTurn

/-- The invocations of a list under way, with places from a number on. -/
def tasksFrom (first : Nat) (is : List Invocation) : List Task :=
  is.mapIdx fun n invocation => { place := first + n, invocation }

theorem tasksFrom_cons (first : Nat) (i : Invocation) (is : List Invocation) :
    tasksFrom first (i :: is) =
      { place := first, invocation := i } :: tasksFrom (first + 1) is := by
  simp only [tasksFrom, List.mapIdx_cons, Nat.add_zero, Nat.add_assoc, Nat.add_comm 1]

theorem le_of_mem_tasksFrom {first : Nat} {is : List Invocation} {t : Task}
    (h : t ∈ tasksFrom first is) : first ≤ t.place := by
  obtain ⟨n, -, rfl⟩ := List.mem_mapIdx.mp h
  exact Nat.le_add_right first n

variable [JsonWording] {source : Source} {mode : Mode}

theorem generateAll_cons (source : Source) (mode : Mode) (w : World) (i : Invocation)
    (is : List Invocation) :
    generateAll source mode w (i :: is) =
      ((i, (generate source i mode w).1) ::
          (generateAll source mode (generate source i mode w).2 is).1,
        (generateAll source mode (generate source i mode w).2 is).2) := by
  rw [generateAll]

theorem map_fst_generateAll (w : World) (is : List Invocation) :
    (generateAll source mode w is).1.map (·.1) = is := by
  induction is generalizing w with
  | nil => rfl
  | cons i is ih => rw [generateAll_cons, List.map_cons, ih]

/-- Driving invocations to their ends one after the other is to generate one after the other. -/
theorem foldl_drive_eq {first : Nat} {is : List Invocation} {j : Joined}
    (htasks : j.tasks = tasksFrom first is) (hrunning : j.isStopped = false)
    (hfits : ∀ i ∈ is, i.source.attempts? ≠ none) :
    (List.range' first is.length).foldl (Joined.drive source mode) j =
      { tasks := []
        completed := j.completed ++
          (generateAll source mode j.world is).1.mapIdx fun n r => (first + n, r.2)
        world := (generateAll source mode j.world is).2 } := by
  induction is generalizing first j with
  | nil =>
    rcases j with ⟨tasks, completed, world⟩
    obtain rfl : tasks = [] := htasks
    simp [generateAll]
  | cons i is ih =>
    obtain ⟨hi, his⟩ := List.forall_mem_cons.mp hfits
    have hfirst : j.drive source mode first =
        j.complete first (generate source i mode j.world).1 (generate source i mode j.world).2 := by
      refine Joined.drive_of_find? hrunning (t := { place := first, invocation := i }) ?_
      rw [htasks, tasksFrom_cons, List.find?_cons_of_pos (by simp)]
    have hrest : (j.complete first (generate source i mode j.world).1
        (generate source i mode j.world).2).tasks = tasksFrom (first + 1) is := by
      simp only [Joined.complete, htasks, tasksFrom_cons]
      rw [List.filter_cons_of_neg (by simp), List.filter_eq_self]
      intro t ht
      exact bne_iff_ne.mpr (by have := le_of_mem_tasksFrom ht; omega)
    have hgoes : (j.complete first (generate source i mode j.world).1
        (generate source i mode j.world).2).isStopped = false := by
      rw [Joined.isStopped_complete, hrunning, Bool.false_or, ← Bool.not_eq_true]
      exact (not_congr panicked_generate_iff).mpr hi
    rw [List.length_cons, List.range'_succ, List.foldl_cons, hfirst, ih hrest hgoes his,
      generateAll_cons]
    simp [Joined.complete, List.mapIdx_cons, Nat.add_assoc, Nat.add_comm 1]

/-- A batch whose answers come in one interface after the other is run one interface after the
other, with each result at the place of its invocation. -/
theorem joinAll_in_turn {is : List Invocation} {w : World}
    (hfits : ∀ i ∈ is, i.source.attempts? ≠ none) :
    is.zip ((joinAll source mode [] is w).results is.length) = (generateAll source mode w is).1 ∧
      (joinAll source mode [] is w).world = (generateAll source mode w is).2 := by
  have htasks : (Joined.ofInvocations is w).tasks = tasksFrom 0 is := by
    simp [Joined.ofInvocations, tasksFrom]
  have hrun : joinAll source mode [] is w = _ :=
    List.range_eq_range' (n := is.length) ▸ foldl_drive_eq htasks rfl hfits
  have hrunning : (joinAll source mode [] is w).isStopped = false :=
    Bool.not_eq_true _ ▸ mt isStopped_joinAll_iff.mp fun ⟨i, hi, hnone⟩ => hfits i hi hnone
  have hplaces := Joined.places_joinAll hrunning
  have his : (generateAll source mode w is).1.map (·.1) = is := map_fst_generateAll w is
  have hlength : (generateAll source mode w is).1.length = is.length := by
    simpa using congrArg List.length his
  have hresults : (joinAll source mode [] is w).results is.length =
      (generateAll source mode w is).1.map (·.2) := by
    refine List.ext_getElem (by simp [Joined.length_results hplaces, hlength]) fun n hn hn' => ?_
    rw [List.length_map] at hn'
    have hcompleted : (n, ((generateAll source mode w is).1[n]).2) ∈
        (joinAll source mode [] is w).completed := by
      rw [hrun]
      exact List.mem_append_right _ (List.mem_mapIdx.mpr
        ⟨n, hn', Prod.ext (Nat.zero_add n) rfl⟩)
    have hresult := Joined.getElem?_results hplaces hcompleted
    rw [List.getElem?_eq_getElem hn, Option.some.injEq] at hresult
    rw [List.getElem_map, hresult]
  refine ⟨?_, by rw [hrun]; rfl⟩
  rw [hresults]
  exact (List.zip_of_prod his rfl).symm

end InTurn

end TypedApi.Run
