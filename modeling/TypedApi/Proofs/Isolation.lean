import TypedApi.CommandLine.Execution
import TypedApi.Proofs.Joining
import TypedApi.Proofs.Repetition

/-!
Batches of dry runs. When the source answers each request by that request alone, what becomes of an
invocation does not hang on the others: it comes to what it comes to when it is run by itself,
wherever it stands in a batch, whatever becomes of the others and whenever the answers come in. Only
a panic of one of them leaves nothing of the others.
-/
namespace TypedApi.Run

section Invocations

variable [JsonWording] {source : Source} {mode : Mode} {w : World} {i : Invocation}
  {is : List Invocation} {g : Report.Generation}

/-- A dry run does not look at the files. -/
theorem finish_dry (hdry : mode.dryRun = true) (i : Invocation)
    (answer : Except FetchError InterfaceDocument) (t u : FileTree) :
    (finish i mode answer t).1 = (finish i mode answer u).1 := by
  cases answer with
  | error e => rfl
  | ok d =>
    simp only [finish, generateFrom]
    cases TypeScript.Artifacts.generate ⟨i.naming, i.requestPath⟩ d.endpoint with
    | error e => rfl
    | ok a => simp only [produce, if_pos hdry]

theorem Task.fetch_steady (hsteady : source.IsSteady) (t : Task) (made made' : List Exchange) :
    (t.fetch source made).1 = (t.fetch source made').1 := by
  unfold Task.fetch
  cases t.progress with
  | waiting => exact hsteady.fetch_eq t.invocation.source t.invocation.id made made'
  | asking request more =>
    exact hsteady.fetchFrom_eq t.invocation.source request more made made'

/-- All that comes of a batch of dry runs is what comes of its invocations alone. -/
theorem completed_alone (hsteady : source.IsSteady) (hdry : mode.dryRun = true)
    (start : Invocation → World) {turns : List Nat} :
    ∀ c ∈ (joinAll source mode turns is w).completed, ∃ i, is[c.1]? = some i ∧
      c.2 = (generate source i mode (start i)).1 := by
  refine Joined.completed_joinAll
    (Q := fun t => ∀ made, (t.fetch source made).1 =
      (t.invocation.source.fetch source t.invocation.id (start t.invocation).made).1)
    (R := fun i r => r = (generate source i mode (start i)).1) ?_ ?_ ?_
  · exact fun place i made => hsteady.fetch_eq i.source i.id made (start i).made
  · intro t progress made made' ht hfetch later
    rw [Task.fetch_steady hsteady _ later made', hfetch]
    exact ht made
  · intro t w ht
    simp only [Task.drive, generate, ht w.made]
    exact finish_dry hdry t.invocation _ w.files (start t.invocation).files

/-- Each invocation gets the result that it comes to alone. -/
theorem zip_results_alone (hsteady : source.IsSteady) (hdry : mode.dryRun = true)
    (start : Invocation → World) {turns : List Nat}
    (hrunning : (joinAll source mode turns is w).isStopped = false) :
    is.zip ((joinAll source mode turns is w).results is.length) =
      is.map fun i => (i, (generate source i mode (start i)).1) := by
  have hplaces := Joined.places_joinAll hrunning
  have hresults : (joinAll source mode turns is w).results is.length =
      is.map fun i => (generate source i mode (start i)).1 := by
    refine List.ext_getElem (by simp [Joined.length_results hplaces]) fun n hn hn' => ?_
    rw [List.length_map] at hn'
    obtain ⟨c, hc, rfl⟩ := List.mem_map.mp (hplaces.mem_iff.mpr (List.mem_range.mpr hn'))
    obtain ⟨i, hi, hresult⟩ := completed_alone hsteady hdry start c hc
    have hplace := Joined.getElem?_results hplaces hc
    obtain rfl : is[c.1] = i := by simpa [hn'] using hi
    rw [List.getElem?_eq_getElem hn, Option.some.injEq] at hplace
    rw [List.getElem_map, hplace, hresult]
  rw [hresults]
  exact (List.zip_of_prod (by simp [Function.comp_def]) (by simp)).symm

/-- A report is about the interface of its invocation. -/
theorem id_of_generate (h : (generate source i mode w).1 = .ok g) : g.id = i.id := by
  rcases hrun : generate source i mode w with ⟨result, w'⟩
  rw [hrun] at h
  obtain rfl : result = .ok g := h
  obtain ⟨d, a, product, -, -, -, rfl⟩ := generate_eq_ok_iff.mp hrun
  rfl

end Invocations

section Reports

variable {is : List Invocation} {outcome : Invocation → Except Error Report.Generation}

theorem generated_map (is : List Invocation)
    (outcome : Invocation → Except Error Report.Generation) :
    (batchReport (is.map fun i => (i, outcome i))).generated =
      is.filterMap fun i => (outcome i).toOption := by
  have hgenerated : ∀ i, generated (i, outcome i) = (outcome i).toOption := by
    intro i
    cases outcome i with
    | error e => rfl
    | ok g => rfl
  simp only [batchReport, List.filterMap_map, Function.comp_def, hgenerated]

theorem failures_map (is : List Invocation)
    (outcome : Invocation → Except Error Report.Generation) :
    (batchReport (is.map fun i => (i, outcome i))).failures =
      is.filterMap fun i =>
        match outcome i with
        | .ok _ => none
        | .error e => some (i.id, e.text) := by
  have hfailure : ∀ i, failure (i, outcome i) =
      match outcome i with
      | .ok _ => none
      | .error e => some (i.id, e.text) := by
    intro i
    cases outcome i with
    | error e => rfl
    | ok g => rfl
  simp only [batchReport, List.filterMap_map, Function.comp_def, hfailure]

/-- Each invocation is accounted for once, by its id. -/
theorem ids_perm (h : ∀ i ∈ is, ∀ g, outcome i = .ok g → g.id = i.id) :
    let report := batchReport (is.map fun i => (i, outcome i))
    (report.generated.map (·.id) ++ report.failures.map (·.1)).Perm (is.map (·.id)) := by
  simp only [generated_map, failures_map]
  induction is with
  | nil => exact .nil
  | cons i is ih =>
    obtain ⟨hi, his⟩ := List.forall_mem_cons.mp h
    have hrest := ih his
    cases hresult : outcome i with
    | ok g =>
      simp only [List.filterMap_cons, hresult, Except.toOption, List.map_cons, hi g hresult]
      exact hrest.cons i.id
    | error e =>
      simp only [List.filterMap_cons, hresult, Except.toOption, List.map_cons]
      exact List.perm_middle.trans (hrest.cons i.id)

/-- A batch is a success unless something fails in it. -/
theorem isSuccess_map : (batchReport (is.map fun i => (i, outcome i))).isSuccess = false ↔
    ∃ i ∈ is, ∃ e, outcome i = .error e := by
  rw [Report.Batch.isSuccess, failures_map, List.isEmpty_eq_false_iff, ne_eq,
    List.filterMap_eq_nil_iff]
  simp only [not_forall, exists_prop]
  refine exists_congr fun i => and_congr_right fun _ => ?_
  cases outcome i with
  | error e => simp
  | ok g => simp

end Reports

section Batches

/-- A command for a batch fails unless there is a report of success. -/
theorem exitCode_concludeBatch (report : Option Report.Batch) :
    (CommandLine.concludeBatch report).exitCode ≠ 0 ↔
      ∀ b, report = some b → b.isSuccess = false := by
  cases report with
  | none => simp [CommandLine.concludeBatch, CommandLine.Outcome.exitCode]
  | some b =>
    cases hsuccess : b.isSuccess with
    | true => simp [CommandLine.concludeBatch, CommandLine.Outcome.exitCode, hsuccess]
    | false => simp [CommandLine.concludeBatch, CommandLine.Outcome.exitCode, hsuccess]

variable [JsonWording] {source : Source} {mode : Mode} {turns : List Nat} {is : List Invocation}
  {w : World}

theorem batch_eq_none_iff :
    (batch source turns is mode w).1 = none ↔
      (joinAll source mode turns is w).isStopped = true := by
  simp [batch]

theorem batch_eq_some_iff {report : Report.Batch} :
    (batch source turns is mode w).1 = some report ↔
      (joinAll source mode turns is w).isStopped = false ∧
        report = batchReport (is.zip ((joinAll source mode turns is w).results is.length)) := by
  rw [batch]
  cases (joinAll source mode turns is w).isStopped with
  | true => simp
  | false => simp [eq_comm]

/-- Over dry runs with a source that answers each request by the request alone, whenever its answers
come in. Every invocation comes to what it comes to when it is run by itself, and the report has
those that succeed and those that fail, each in the order of the batch and each once. There is no
report if an invocation ends in a panic by itself, which those with the largest number of retries
do and no others. The command fails if one of the invocations fails by itself, and not otherwise. -/
theorem batch_isolated (hsteady : source.IsSteady) (hdry : mode.dryRun = true)
    (start : Invocation → World) :
    let outcome := fun i => (generate source i mode (start i)).1
    (∀ i, panicked (outcome i) = true ↔ ¬i.source.retries.toNat + 1 < 2 ^ 32) ∧
    (∀ turns is w, (batch source turns is mode w).1 = none ↔
      ∃ i ∈ is, panicked (outcome i) = true) ∧
    (∀ turns is w report, (batch source turns is mode w).1 = some report →
      is.zip ((joinAll source mode turns is w).results is.length) =
        is.map (fun i => (i, outcome i)) ∧
      report.generated = is.filterMap (fun i => (outcome i).toOption) ∧
      report.failures = is.filterMap (fun i =>
        match outcome i with
        | .ok _ => none
        | .error e => some (i.id, e.text)) ∧
      (report.generated.map (·.id) ++ report.failures.map (·.1)).Perm (is.map (·.id))) ∧
    ∀ turns is w (f : CommandLine.BatchFlags), f.invocations w.files = .ok is → f.mode = mode →
      ((CommandLine.runBatch source turns f w).1.exitCode ≠ 0 ↔
        ∃ i ∈ is, ∃ e, outcome i = .error e) := by
  intro outcome
  have hpanics : ∀ i, panicked (outcome i) = true ↔ i.source.attempts? = none :=
    fun i => panicked_generate_iff
  have hnone : ∀ turns is w, (batch source turns is mode w).1 = none ↔
      ∃ i ∈ is, panicked (outcome i) = true := by
    intro turns is w
    simp only [batch_eq_none_iff, isStopped_joinAll_iff, hpanics]
  have hreport : ∀ turns is w report, (batch source turns is mode w).1 = some report →
      is.zip ((joinAll source mode turns is w).results is.length) =
          is.map (fun i => (i, outcome i)) ∧
        report = batchReport (is.map fun i => (i, outcome i)) := by
    intro turns is w report h
    obtain ⟨hrunning, rfl⟩ := batch_eq_some_iff.mp h
    have hzip := zip_results_alone hsteady hdry start hrunning
    exact ⟨hzip, congrArg batchReport hzip⟩
  refine ⟨fun i => (hpanics i).trans SourceSettings.attempts?_eq_none_iff, hnone, ?_, ?_⟩
  · intro turns is w report h
    obtain ⟨hzip, rfl⟩ := hreport turns is w report h
    exact ⟨hzip, generated_map is outcome, failures_map is outcome,
      ids_perm fun i _ g hg => id_of_generate hg⟩
  · rintro turns is w f hf rfl
    simp only [CommandLine.runBatch, hf]
    rw [exitCode_concludeBatch]
    cases hbatch : (batch source turns is f.mode w).1 with
    | none =>
      obtain ⟨i, hi, hpanicked⟩ := (hnone turns is w).mp hbatch
      refine iff_of_true nofun ⟨i, hi, ?_⟩
      cases hresult : outcome i with
      | ok g => simp [hresult, panicked] at hpanicked
      | error e => exact ⟨e, rfl⟩
    | some report =>
      obtain ⟨-, rfl⟩ := hreport turns is w report hbatch
      simp only [Option.some.injEq, forall_eq']
      exact isSuccess_map

end Batches

section Tokens

attribute [local instance] JsonWording.terse

/-- Shows its interface to those who have the token. -/
def guarded : Source where
  answer request _ :=
    if request.address.query = some "id=7&token=t" then
      .reply ⟨200⟩ ("\x7b\"errcode\":0,\"data\":\x7b\"path\":\"/ping\"," ++
        "\"res_body_type\":\"json\",\"res_body\":\x7b\"properties\":\x7b" ++
        "\"a b\":\x7b\"properties\":\x7b\"c\":\x7b\x7d\x7d\x7d," ++
        "\"aB\":\x7b\"properties\":\x7b\"d\":\x7b\x7d\x7d\x7d\x7d\x7d\x7d\x7d")
    else .reply ⟨200⟩ "\x7b\"errcode\":40011,\"errmsg\":\"no token\"\x7d"

def guest (token : Option String) (collisions : CollisionPolicy) (retries : UInt32) :
    Invocation where
  source := { baseUrl := "http://yapi.test", token, timeout := 10, retries }
  id := "7"
  output := "out"
  requestPath := none
  naming := { collisions }

/-- One interface, asked for three times: without the token, with it, and with it for names that
must not be taken. Only the second succeeds, whoever comes first. -/
theorem guests_isolated :
    let is := [guest none .suffix 1, guest (some "t") .suffix 1, guest (some "t") .reject 1]
    let run := batch guarded [2, 0, 2, 1] is { dryRun := true } {}
    guarded.IsSteady ∧ ∃ report, run.1 = some report ∧
      report.generated.map (·.responseType) = ["PingGETRes"] ∧
      report.failures = [("7", "failed to fetch interface 7: no token"),
        ("7", "failed to generate interface 7: " ++
          "name 'PingGETResAB' is already taken in this run")] := by
  intro is run
  have hsteady : guarded.IsSteady := fun _ _ _ => rfl
  have hdry : ({ dryRun := true } : Mode).dryRun = true := rfl
  obtain ⟨hpanics, hnone, hreports, -⟩ := batch_isolated hsteady hdry fun _ => {}
  cases hrun : run.1 with
  | none =>
    obtain ⟨i, hi, hpanicked⟩ := (hnone [2, 0, 2, 1] is {}).mp hrun
    have hfew : ∀ i ∈ is, i.source.retries = 1 := by decide
    rw [hpanics, hfew i hi] at hpanicked
    exact absurd (by decide) hpanicked
  | some report =>
    obtain ⟨-, hgenerated, hfailures, -⟩ := hreports [2, 0, 2, 1] is {} report hrun
    refine ⟨hsteady, report, rfl, ?_⟩
    rw [hgenerated, hfailures]
    decide +kernel

/-- The second guest is shown the interface when it comes alone, but one with the largest number of
retries leaves nothing of it. -/
theorem largest_retries_stop_all :
    let tireless := guest (some "t") .suffix 4294967295
    let other := guest (some "t") .suffix 1
    guarded.IsSteady ∧
      (generate guarded other { dryRun := true } {}).1.isOk = true ∧
      (∀ turns, ((batch guarded turns [other] { dryRun := true } {}).1).isSome = true) ∧
      ∀ turns, (batch guarded turns [tireless, other] { dryRun := true } {}).1 = none := by
  intro tireless other
  refine ⟨fun _ _ _ => rfl, by decide +kernel, fun turns => ?_, fun turns => ?_⟩
  · rw [Option.isSome_iff_ne_none, ne_eq, batch_eq_none_iff, isStopped_joinAll_iff]
    decide
  · rw [batch_eq_none_iff, isStopped_joinAll_iff]
    decide

end Tokens

end TypedApi.Run
