import TypedApi.Proofs.Acceptance

/-!
The invocations of a configuration that has been accepted. What is asked of it then is all that a
builder asks of its entries, so only what a configuration may leave out can be missing: its
entries, or the base address. Otherwise every entry has an invocation, and they differ only in what
the entries say.
-/
namespace TypedApi

/-- An address of the web begins with a letter. -/
theorem not_blank_of_isWebAddress {url : String} (h : isWebAddress url = true) :
    Text.allBlank url = false := by
  rw [← Bool.not_eq_true, Text.allBlank_iff]
  intro hblank
  rw [isWebAddress, Bool.or_eq_true, List.isPrefixOf_iff_prefix, List.isPrefixOf_iff_prefix] at h
  have hletter : 'h' ∈ url.toList := by
    rcases h with h | h
    · exact h.subset (by decide)
    · exact h.subset (by decide)
  exact absurd (hblank 'h' hletter) (by decide)

namespace Config

/-- The source that the invocations share. -/
def sharedSource (c : Config) (url : String) : SourceSettings where
  baseUrl := withoutFinalSlashes url
  token := c.source.token.filter (· ≠ "")
  timeout := c.source.timeout
  retries := c.source.retries

/-- What an entry stands for. -/
def invocationOf (c : Config) (url : String) (e : Entry) : Invocation where
  source := c.sharedSource url
  id := Text.mapChars Text.trim e.id
  output := e.output
  requestPath := Text.notBlank e.requestPath
  naming := c.naming

section

variable {c : Config} {e : Entry} {url : String}

/-- Nothing that a builder asks for is missing or wrong. -/
theorem Accepted.complete (h : c.Accepted) (he : e ∈ c.interfaces)
    (hurl : c.source.baseUrl = some url) : (c.entryBuilder e).Complete where
  address := ⟨url, hurl, not_blank_of_isWebAddress (h.address url hurl), h.address url hurl⟩
  id := ⟨e.id, rfl, h.ids e he⟩
  output := ⟨e.output, rfl, h.outputs e he⟩
  timeout := h.timeout

theorem resolved_entryBuilder (c : Config) (e : Entry) (hurl : c.source.baseUrl = some url) :
    (c.entryBuilder e).resolved = c.invocationOf url e := by
  have hpath : (c.entryBuilder e).requestPath = e.requestPath := Option.or_none
  have hbase : (c.entryBuilder e).baseUrl = some url := hurl
  rw [InvocationBuilder.resolved, hpath, hbase]
  rfl

theorem Accepted.entryInvocation_eq_ok (h : c.Accepted) (he : e ∈ c.interfaces)
    (hurl : c.source.baseUrl = some url) : c.entryInvocation e = .ok (c.invocationOf url e) := by
  rw [entryInvocation_eq, InvocationBuilder.build_eq_ok_iff]
  exact ⟨h.complete he hurl, resolved_entryBuilder c e hurl⟩

theorem entryInvocation_of_no_address (e : Entry) (h : c.source.baseUrl = none) :
    c.entryInvocation e = .error (.missing .baseUrl) := by
  have hbase : (c.entryBuilder e).baseUrl = none := h
  rw [entryInvocation_eq, InvocationBuilder.build, hbase]
  rfl

/-- Entries that all succeed are resolved one by one, in their order. -/
theorem mapM_entryInvocation {entries : List Entry} {f : Entry → Invocation}
    (h : ∀ e ∈ entries, c.entryInvocation e = .ok (f e)) :
    entries.mapM c.entryInvocation = .ok (entries.map f) := by
  induction entries with
  | nil => rfl
  | cons e rest ih =>
    obtain ⟨he, hrest⟩ := List.forall_mem_cons.mp h
    rw [List.mapM_cons, he, ih hrest]
    rfl

theorem invocations_eq_of_accepted (h : c.Accepted) :
    c.invocations =
      if c.interfaces = [] then .error (.missing .interfaces)
      else match c.source.baseUrl with
        | none => .error (.missing .baseUrl)
        | some url => .ok (c.interfaces.map (c.invocationOf url)) := by
  unfold invocations
  cases hentries : c.interfaces with
  | nil => rfl
  | cons e rest =>
    simp only [List.isEmpty_cons, Bool.false_eq_true, if_false, reduceCtorEq]
    cases hurl : c.source.baseUrl with
    | none =>
      -- The first entry has no address already.
      rw [List.mapM_cons, entryInvocation_of_no_address e hurl]
      rfl
    | some url =>
      exact mapM_entryInvocation fun e he =>
        h.entryInvocation_eq_ok (hentries ▸ he) hurl

end

/-- Of an accepted text the invocations can fail only for want of entries or else of a base
address. In all other cases there is one for each entry, in their order, which has the trimmed id
and the output of the entry, and all have the same source and way to make names. -/
theorem invocations_of_ofText {text : String} {c : Config} (h : ofText text = .ok c) :
    (∀ e, c.invocations = .error e ↔
      (c.interfaces = [] ∧ e = .missing .interfaces) ∨
        (c.interfaces ≠ [] ∧ c.source.baseUrl = none ∧ e = .missing .baseUrl)) ∧
    ∀ is, c.invocations = .ok is ↔
      c.interfaces ≠ [] ∧ ∃ url, c.source.baseUrl = some url ∧
        is = c.interfaces.map fun e =>
          { source := c.sharedSource url, id := Text.mapChars Text.trim e.id, output := e.output,
            requestPath := Text.notBlank e.requestPath, naming := c.naming } := by
  rw [invocations_eq_of_accepted (accepted_of_ofText h)]
  by_cases hentries : c.interfaces = []
  · simp [hentries, eq_comm]
  · rw [if_neg hentries]
    cases hurl : c.source.baseUrl with
    | none => simp [hentries, eq_comm]
    | some url => simp [hentries, eq_comm, invocationOf]

/-- White space around an id, slashes after the address, and a path and a token that say nothing. -/
def orchardText : String :=
  "[source]\nbase_url = \"https://yapi.test//\"\ntoken = \"\"\n\n" ++
    "[[interfaces]]\nid = \" 7\\t\"\noutput = \"a\"\nrequest_path = \" \"\n\n" ++
    "[[interfaces]]\nid = 8\noutput = \"./a\"\n"

def orchard : Config where
  source := { baseUrl := some "https://yapi.test//", token := some "" }
  interfaces := [⟨" 7\t", "a", some " "⟩, ⟨"8", "./a", none⟩]

theorem orchard_invocations :
    let source : SourceSettings :=
      { baseUrl := "https://yapi.test", token := none, timeout := 10, retries := 1 }
    ofText orchardText = .ok orchard ∧
      orchard.invocations = .ok [⟨source, "7", "a", none, {}⟩, ⟨source, "8", "./a", none, {}⟩] := by
  intro source
  have hparsed : (Toml.ofText? orchardText).bind ofValue? = some orchard := by decide +kernel
  have hfault : orchard.fault? = none := by decide +kernel
  have h := ofText_eq_ok_iff.mpr ⟨hparsed, hfault⟩
  have hentries : orchard.interfaces ≠ [] := by simp [orchard]
  exact ⟨h, ((invocations_of_ofText h).2 _).mpr ⟨hentries, "https://yapi.test//", rfl, rfl⟩⟩

end Config
end TypedApi
