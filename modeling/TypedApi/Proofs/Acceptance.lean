import Mathlib.Data.List.Forall2
import TypedApi.Config.Invocation
import TypedApi.Config.OfToml
import TypedApi.Proofs.Trimming

/-!
What the check of a configuration asks for, what a builder makes of its settings, and so what the
invocations of an accepted configuration are.
-/
namespace TypedApi

namespace FilePath

theorem sameSteps_iff {a b : String} : sameSteps a b = true ↔ steps a = steps b := by
  simp [sameSteps]

end FilePath

theorem bind_eq_ok {ε α β : Type} {x : Except ε α} {f : α → Except ε β} {b : β} :
    x >>= f = .ok b ↔ ∃ a, x = .ok a ∧ f a = .ok b := by
  cases x with
  | error e => simp [bind, Except.bind]
  | ok a => simp [bind, Except.bind]

namespace InvocationBuilder

/-- All that has to be given is given. -/
structure Complete (b : InvocationBuilder) : Prop where
  address : ∃ url, b.baseUrl = some url ∧ Text.allBlank url = false ∧ isWebAddress url = true
  id : ∃ id, b.id = some id ∧ Text.allBlank id = false
  output : ∃ output, b.output = some output ∧ output ≠ ""
  timeout : b.timeout.getD Config.defaultTimeout ≠ 0

/-- The invocation that the settings describe. -/
def resolved (b : InvocationBuilder) : Invocation where
  source :=
    { baseUrl := withoutFinalSlashes (b.baseUrl.getD "")
      token := b.token.filter (· ≠ "")
      timeout := b.timeout.getD Config.defaultTimeout
      retries := b.retries.getD Config.defaultRetries }
  id := Text.mapChars Text.trim (b.id.getD "")
  output := b.output.getD ""
  requestPath := Text.notBlank b.requestPath
  naming := b.naming

theorem require_eq_ok {value : Option String} {setting : Config.Setting} {s : String} :
    require value setting = .ok s ↔ value = some s := by
  cases value with
  | none => simp [require]
  | some t => simp [require]

theorem build_eq_ok_iff {b : InvocationBuilder} {i : Invocation} :
    b.build = .ok i ↔ b.Complete ∧ b.resolved = i := by
  constructor
  · intro h
    unfold build at h
    obtain ⟨url, hurl, h⟩ := bind_eq_ok.mp h
    obtain ⟨hurl, hblank⟩ := Text.notBlank_eq_some.mp (require_eq_ok.mp hurl)
    cases haddress : isWebAddress url with
    | false => simp [haddress, throw, throwThe, MonadExceptOf.throw, bind, Except.bind] at h
    | true =>
      simp only [haddress, Bool.not_true, Bool.false_eq_true, if_false] at h
      obtain ⟨id, hid, h⟩ := bind_eq_ok.mp h
      obtain ⟨hid, hidb⟩ := Text.notBlank_eq_some.mp (require_eq_ok.mp hid)
      obtain ⟨output, hout, h⟩ := bind_eq_ok.mp h
      obtain ⟨hout, hne⟩ := Option.filter_eq_some_iff.mp (require_eq_ok.mp hout)
      by_cases htimeout : b.timeout.getD Config.defaultTimeout = 0
      · simp [htimeout, throw, throwThe, MonadExceptOf.throw, bind, Except.bind] at h
      · refine ⟨⟨⟨url, hurl, hblank, haddress⟩, ⟨id, hid, hidb⟩, ⟨output, hout, by simpa using hne⟩,
          htimeout⟩, ?_⟩
        simpa [htimeout, pure, Except.pure, resolved, hurl, hid, hout] using h
  · rintro ⟨⟨⟨url, hurl, hblank, haddress⟩, ⟨id, hid, hidb⟩, ⟨output, hout, hne⟩, htimeout⟩, rfl⟩
    have hr₁ : require (Text.notBlank b.baseUrl) .baseUrl = .ok url :=
      require_eq_ok.mpr (Text.notBlank_eq_some.mpr ⟨hurl, hblank⟩)
    have hr₂ : require (Text.notBlank b.id) .id = .ok id :=
      require_eq_ok.mpr (Text.notBlank_eq_some.mpr ⟨hid, hidb⟩)
    have hr₃ : require (b.output.filter (· ≠ "")) .output = .ok output := by
      simp [require_eq_ok, hout, hne]
    unfold build
    simp only [bind_eq_ok]
    refine ⟨url, hr₁, ?_⟩
    simp only [haddress, Bool.not_true, Bool.false_eq_true, if_false, bind_eq_ok]
    refine ⟨id, hr₂, output, hr₃, ?_⟩
    simp [htimeout, pure, Except.pure, resolved, hurl, hid, hout]

end InvocationBuilder

namespace Config

/-- What is asked of a configuration. -/
structure Accepted (c : Config) : Prop where
  address : ∀ url, c.source.baseUrl = some url → isWebAddress url = true
  timeout : c.source.timeout ≠ 0
  ids : ∀ e ∈ c.interfaces, Text.allBlank e.id = false
  outputs : ∀ e ∈ c.interfaces, e.output ≠ ""
  apart : c.interfaces.Pairwise fun e f => FilePath.steps e.output ≠ FilePath.steps f.output

theorem entryFault?_eq_none {earlier : List String} {entries : List Entry} :
    entryFault? earlier entries = none ↔
      (∀ e ∈ entries, Text.allBlank e.id = false) ∧ (∀ e ∈ entries, e.output ≠ "") ∧
        (∀ e ∈ entries, ∀ o ∈ earlier, FilePath.steps e.output ≠ FilePath.steps o) ∧
        entries.Pairwise fun e f => FilePath.steps e.output ≠ FilePath.steps f.output := by
  induction entries generalizing earlier with
  | nil => simp [entryFault?]
  | cons e rest ih =>
    have hshared : earlier.any (FilePath.sameSteps e.output) = true ↔
        ∃ o ∈ earlier, FilePath.steps e.output = FilePath.steps o := by
      simp [FilePath.sameSteps_iff]
    unfold entryFault?
    by_cases hid : Text.allBlank e.id = true
    · simp [hid]
    by_cases hout : e.output = ""
    · simp [hid, hout]
    by_cases hany : earlier.any (FilePath.sameSteps e.output) = true
    · obtain ⟨o, ho, heq⟩ := hshared.mp hany
      simp only [hid, hout, hany, Bool.false_eq_true, if_false, if_true, reduceCtorEq, false_iff]
      intro h
      exact h.2.2.1 e (by simp) o ho heq
    · have hnone : ∀ o ∈ earlier, FilePath.steps e.output ≠ FilePath.steps o :=
        fun o ho heq => hany (hshared.mpr ⟨o, ho, heq⟩)
      simp only [hid, hout, hany, Bool.false_eq_true, if_false, ih, List.pairwise_cons,
        List.forall_mem_cons]
      grind

theorem fault?_eq_none {c : Config} : c.fault? = none ↔ c.Accepted := by
  unfold fault?
  cases hbad : c.source.baseUrl.filter fun url => !isWebAddress url with
  | some url =>
    obtain ⟨hurl, hweb⟩ := Option.filter_eq_some_iff.mp hbad
    simp only [reduceCtorEq, false_iff]
    intro h
    simp [h.address url hurl] at hweb
  | none =>
    have haddress : ∀ url, c.source.baseUrl = some url → isWebAddress url = true := by
      simpa [Option.filter_eq_none_iff] using hbad
    by_cases htimeout : c.source.timeout = 0
    · simp only [htimeout, if_true, reduceCtorEq, false_iff]
      exact fun h => h.timeout htimeout
    · simp only [htimeout, if_false, entryFault?_eq_none]
      constructor
      · rintro ⟨hids, houts, -, hapart⟩
        exact ⟨haddress, htimeout, hids, houts, hapart⟩
      · intro h
        exact ⟨h.ids, h.outputs, by simp, h.apart⟩

theorem ofText_eq_ok_iff {text : String} {c : Config} :
    ofText text = .ok c ↔ (Toml.ofText? text).bind ofValue? = some c ∧ c.fault? = none := by
  unfold ofText
  cases hc : (Toml.ofText? text).bind ofValue? with
  | none => simp
  | some d =>
    cases hf : d.fault? with
    | some fault =>
      simp only [hf, reduceCtorEq, Option.some.injEq, false_iff, not_and]
      rintro rfl
      simp [hf]
    | none =>
      simp only [hf, Except.ok.injEq, Option.some.injEq]
      constructor
      · rintro rfl
        exact ⟨rfl, hf⟩
      · exact And.left

theorem accepted_of_ofText {text : String} {c : Config} (h : ofText text = .ok c) :
    c.Accepted :=
  fault?_eq_none.mp (ofText_eq_ok_iff.mp h).2

/-- The settings that an entry gives. -/
def entryBuilder (c : Config) (e : Entry) : InvocationBuilder :=
  (((InvocationBuilder.ofConfig c).withId e.id).withOutput e.output).withRequestPath e.requestPath

theorem entryInvocation_eq (c : Config) (e : Entry) :
    c.entryInvocation e = (c.entryBuilder e).build := rfl

section

variable {c : Config} {e : Entry} {i : Invocation} {is : List Invocation}

theorem resolved_of_entryInvocation (h : c.entryInvocation e = .ok i) :
    (c.entryBuilder e).Complete ∧ (c.entryBuilder e).resolved = i := by
  rw [entryInvocation_eq] at h
  exact InvocationBuilder.build_eq_ok_iff.mp h

theorem id_of_entryInvocation (h : c.entryInvocation e = .ok i) :
    i.id = Text.mapChars Text.trim e.id := by
  obtain ⟨-, rfl⟩ := resolved_of_entryInvocation h
  rfl

theorem output_of_entryInvocation (h : c.entryInvocation e = .ok i) : i.output = e.output := by
  obtain ⟨-, rfl⟩ := resolved_of_entryInvocation h
  rfl

theorem token_of_entryInvocation (h : c.entryInvocation e = .ok i) :
    i.source.token = c.source.token.filter (· ≠ "") := by
  obtain ⟨-, rfl⟩ := resolved_of_entryInvocation h
  rfl

/-- There is one invocation for each entry. -/
theorem forall₂_of_invocations (h : c.invocations = .ok is) :
    List.Forall₂ (fun e i => c.entryInvocation e = .ok i) c.interfaces is := by
  unfold invocations at h
  split at h
  · simp at h
  · generalize c.interfaces = entries at h
    induction entries generalizing is with
    | nil =>
      obtain rfl := Except.ok.inj h
      exact .nil
    | cons e rest ih =>
      rw [List.mapM_cons] at h
      obtain ⟨i, hi, h⟩ := bind_eq_ok.mp h
      obtain ⟨js, hjs, h⟩ := bind_eq_ok.mp h
      obtain rfl := Except.ok.inj h
      exact .cons hi (ih hjs)

theorem entryInvocation_of_getElem? (his : c.invocations = .ok is) {n : Nat}
    (he : c.interfaces[n]? = some e) (hi : is[n]? = some i) : c.entryInvocation e = .ok i := by
  obtain ⟨hn, rfl⟩ := List.getElem?_eq_some_iff.mp he
  obtain ⟨hn', rfl⟩ := List.getElem?_eq_some_iff.mp hi
  exact (forall₂_of_invocations his).get hn hn'

theorem outputs_of_invocations (h : c.invocations = .ok is) :
    is.map (·.output) = c.interfaces.map (·.output) := by
  have hall := forall₂_of_invocations h
  clear h
  generalize c.interfaces = entries at hall
  induction hall with
  | nil => rfl
  | cons hi _ ih => rw [List.map_cons, List.map_cons, ih, output_of_entryInvocation hi]

end

end Config
end TypedApi
