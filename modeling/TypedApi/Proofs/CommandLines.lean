import Mathlib.Data.List.Nodup
import TypedApi.CommandLine.Execution
import TypedApi.Proofs.Acceptance

/-!
The two commands that generate, side by side. For an entry of the configuration `generate` starts
from its id and `batch` from the entry, and they come to the same invocation except where the id is
written with white space around it, or an empty token meets one of the configuration.
-/
namespace TypedApi.CommandLine

open Config (entryInvocation_of_getElem? id_of_entryInvocation output_of_entryInvocation
  resolved_of_entryInvocation token_of_entryInvocation)

section Arguments

/-- How an option with its value is written: as one argument or as two. -/
inductive Spelling
  | attached | separate

def Spelling.write (s : Spelling) (name value : String) : List String :=
  match s with
  | attached => ["--" ++ (name ++ "=" ++ value)]
  | separate => ["--" ++ name, value]

/-- A value that is an argument of its own must not look like an option. -/
def Spelling.Admits (s : Spelling) (value : String) : Prop :=
  s = separate → looksLikeOption value = false

theorem bne_equals {name : String} (h : '=' ∉ name.toList) : ∀ c ∈ name.toList, (c != '=') = true :=
  fun _ hc => bne_iff_ne.mpr fun heq => h (heq ▸ hc)

theorem splitLong_attached {name : String} (hname : '=' ∉ name.toList) (value : String) :
    splitLong (name.toList ++ '=' :: value.toList) = (name, some value) := by
  have htake : (name.toList ++ '=' :: value.toList).takeWhile (· != '=') = name.toList := by
    rw [List.takeWhile_append_of_pos (bne_equals hname)]
    simp
  simp [splitLong, htake]

theorem splitLong_separate {name : String} (hname : '=' ∉ name.toList) :
    splitLong name.toList = (name, none) := by
  have htake : name.toList.takeWhile (· != '=') = name.toList :=
    List.takeWhile_eq_self_iff.mpr (bne_equals hname)
  simp [splitLong, htake]

/-- Two dashes with something behind them are read as an option. -/
theorem readOptions_dashes (specs : List OptionSpec) (given : Given) {rest : String}
    (hrest : rest ≠ "") (args : List String) :
    readOptions specs ⟨given, none⟩ (("--" ++ rest) :: args) =
      (readLong specs (splitLong rest.toList).1 (splitLong rest.toList).2 given).bind
        (readOptions specs · args) := by
  have hdashes : "--" ++ rest ≠ "--" := by
    intro h
    exact hrest (by simpa using congrArg String.toList h)
  have hlooks : looksLikeOption ("--" ++ rest) = true := by simp [looksLikeOption]
  have hread : readOption specs ("--" ++ rest) given =
      readLong specs (splitLong rest.toList).1 (splitLong rest.toList).2 given := by
    simp [readOption]
  simp [readOptions, hdashes, hlooks, hread, bind]

/-- Reading an option with its value, in whichever way it is written. -/
theorem readOptions_write {s : Spelling} {specs : List OptionSpec} {name value : String}
    {given : Given} {spec : OptionSpec} (hname : '=' ∉ name.toList)
    (hplain : name ∉ ["", verboseLong, "help"])
    (hspec : (specs.find? (·.long == name)) = some spec) (htakes : spec.takesValue = true)
    (haccepts : spec.accepts value = true) (hnew : given.lookup name = none)
    (hadmits : s.Admits value) (args : List String) :
    readOptions specs ⟨given, none⟩ (s.write name value ++ args) =
      readOptions specs ⟨given ++ [(name, value)], none⟩ args := by
  simp only [List.mem_cons, List.not_mem_nil, or_false, not_or] at hplain
  obtain ⟨hempty, hverbose, hhelp⟩ := hplain
  obtain ⟨hlong, before, after, rfl, hbefore⟩ := List.find?_eq_some_iff_append.mp hspec
  rw [beq_iff_eq] at hlong
  have hgive : give spec value given = .ok (given ++ [(name, value)]) := by
    simp [give, hlong, hnew, haccepts]
  cases s with
  | attached =>
    have hfind : (before ++ spec :: after).find? (fun s => s.long == name && s.takesValue) =
        some spec := by
      rw [List.find?_eq_some_iff_append]
      refine ⟨by simp [hlong, htakes], before, after, rfl, fun other hother => ?_⟩
      have hne := hbefore other hother
      rw [Bool.not_eq_true'] at hne
      simp [hne]
    have hrest : name ++ "=" ++ value ≠ "" := by
      intro h
      simpa using congrArg String.toList h
    have hsplit := splitLong_attached hname value
    have hchars : (name ++ "=" ++ value).toList = name.toList ++ '=' :: value.toList := by simp
    have hread := readOptions_dashes (before ++ spec :: after) given hrest args
    rw [hchars, hsplit] at hread
    simp only [readLong, hfind, hgive] at hread
    exact hread
  | separate =>
    have hread := readOptions_dashes (before ++ spec :: after) given hempty (value :: args)
    rw [splitLong_separate hname] at hread
    simp only [readLong, hverbose, hhelp, if_false, hspec, htakes, if_true] at hread
    have hvalue : readOptions (before ++ spec :: after) ⟨given, some spec⟩ (value :: args) =
        readOptions (before ++ spec :: after) ⟨given ++ [(name, value)], none⟩ args := by
      simp [readOptions, hadmits rfl, hgive, bind, Except.bind]
    exact hread.trans hvalue

/-- The arguments for a token, if there is one. -/
def tokenArguments (s : Spelling) (token : Option String) : List String :=
  match token with
  | some t => s.write "token" t
  | none => []

theorem readOptions_token {s : Spelling} {specs : List OptionSpec} {given : Given}
    {spec : OptionSpec} {token : Option String}
    (hspec : (specs.find? (·.long == "token")) = some spec) (htakes : spec.takesValue = true)
    (haccepts : ∀ t, spec.accepts t = true) (hnew : given.lookup "token" = none)
    (htoken : ∀ t ∈ token, s.Admits t) :
    readOptions specs ⟨given, none⟩ (tokenArguments s token) =
      .ok (given ++ (token.map fun t => ("token", t)).toList) := by
  cases token with
  | none => simp [tokenArguments, readOptions]
  | some t =>
    have hread := readOptions_write (by decide) (by decide) hspec htakes (haccepts t) hnew
      (htoken t rfl) []
    rw [List.append_nil] at hread
    exact hread

variable {spelling : String → Spelling} {path id : String} {token : Option String}

theorem ofArgs_generate (hpath : path ≠ "") (hconfig : (spelling "config").Admits path)
    (hid : (spelling "id").Admits id) (htoken : ∀ t ∈ token, (spelling "token").Admits t)
    (environment : Option String) :
    Command.ofArgs environment ("generate" :: ((spelling "config").write "config" path ++
        ((spelling "id").write "id" id ++ tokenArguments (spelling "token") token))) =
      .ok (.generate { config := some path, id := some id, token := token.or environment }) := by
  have hcommand (args : List String) :
      Command.ofArgs environment ("generate" :: args) = commandOf environment "generate" args := by
    simp [Command.ofArgs]
  have hgiven : isNotEmpty path = true := by simp [isNotEmpty, hpath]
  rw [hcommand]
  simp only [commandOf]
  rw [readOptions_write (by decide) (by decide) rfl rfl hgiven rfl hconfig,
    readOptions_write (by decide) (by decide) rfl rfl rfl rfl hid,
    readOptions_token rfl rfl (fun _ => rfl) rfl htoken]
  cases token with
  | none => rfl
  | some t => rfl

theorem ofArgs_batch (hpath : path ≠ "") (hconfig : (spelling "config").Admits path)
    (htoken : ∀ t ∈ token, (spelling "token").Admits t) (environment : Option String) :
    Command.ofArgs environment
        ("batch" :: ((spelling "config").write "config" path ++
          tokenArguments (spelling "token") token)) =
      .ok (.batch { config := path, token := token.or environment }) := by
  have hcommand (args : List String) :
      Command.ofArgs environment ("batch" :: args) = commandOf environment "batch" args := by
    simp [Command.ofArgs]
  have hgiven : isNotEmpty path = true := by simp [isNotEmpty, hpath]
  rw [hcommand]
  simp only [commandOf]
  rw [readOptions_write (by decide) (by decide) rfl rfl hgiven rfl hconfig,
    readOptions_token rfl rfl (fun _ => rfl) rfl htoken]
  cases token with
  | none => rfl
  | some t => rfl

end Arguments

section Invocations

variable {c : Config} {e : Config.Entry} {i : Invocation}

/-- The invocation with another token. -/
def withToken (i : Invocation) (token : Option String) : Invocation :=
  { i with source := { i.source with token } }

theorem build_withToken (h : c.entryInvocation e = .ok i) (token : Option String) :
    { c.entryBuilder e with token := token }.build =
      .ok (withToken i (token.filter (· ≠ ""))) := by
  obtain ⟨hcomplete, rfl⟩ := resolved_of_entryInvocation h
  rw [InvocationBuilder.build_eq_ok_iff]
  exact ⟨⟨hcomplete.address, hcomplete.id, hcomplete.output, hcomplete.timeout⟩, rfl⟩

/-- Given an id and a token only, `generate` takes over the first entry whose id is written in the
same way. -/
theorem builder_of_id (path id : String) (token : Option String) :
    ({ config := some path, id := some id, token := token } : GenerateFlags).builder (some c) =
      match c.interfaces.find? fun e => e.id == id with
      | some e => { c.entryBuilder e with id := some id, token := token.or c.source.token }
      | none =>
        { InvocationBuilder.ofConfig c with id := some id, token := token.or c.source.token } := by
  unfold GenerateFlags.builder
  simp only [Option.bind_eq_bind, Option.bind_some]
  cases c.interfaces.find? fun e => e.id == id with
  | none => rfl
  | some e => rfl

theorem overrideToken_eq (b : BatchFlags) (i : Invocation) :
    b.overrideToken i = withToken i ((b.token.filter isNotEmpty).or i.source.token) := by
  unfold BatchFlags.overrideToken withToken
  cases b.token.filter isNotEmpty with
  | none => rfl
  | some token => rfl

/-- Dropping an empty token before the other is asked for, or after. -/
theorem filter_or_eq_iff (token configured : Option String) :
    (token.or configured).filter (· ≠ "") =
        (token.filter isNotEmpty).or (configured.filter (· ≠ "")) ↔
      (token = some "" → configured.filter (· ≠ "") = none) := by
  cases token with
  | none => simp
  | some t =>
    by_cases ht : t = ""
    · subst ht
      simp [Option.filter_some, isNotEmpty, eq_comm]
    · simp [Option.filter_some, isNotEmpty, ht]

/-- An entry whose id is written as it is resolved is found by that id, when its invocation is the
first one of the id. -/
theorem find?_entry {is : List Invocation} (his : c.invocations = .ok is) {n : Nat}
    (he : c.interfaces[n]? = some e) (hi : is[n]? = some i)
    (hfirst : ∀ j ∈ is.take n, j.id ≠ i.id) (hid : e.id = i.id) :
    (c.interfaces.find? fun e => e.id == i.id) = some e := by
  rw [List.find?_eq_some_iff_getElem]
  obtain ⟨hn, hen⟩ := List.getElem?_eq_some_iff.mp he
  refine ⟨by simp [hid], n, hn, hen, fun m hm => ?_⟩
  have hlength := (Config.forall₂_of_invocations his).length_eq
  have hmis : m < is.length := by omega
  have hresolved : c.entryInvocation c.interfaces[m] = .ok is[m] :=
    entryInvocation_of_getElem? his (List.getElem?_eq_getElem (by omega))
      (List.getElem?_eq_getElem hmis)
  have hother : is[m].id ≠ i.id :=
    hfirst is[m] (List.mem_take_iff_getElem.mpr ⟨m, by omega, rfl⟩)
  -- An earlier entry with this id as it stands would resolve to the id too.
  have hwritten : c.interfaces[m].id ≠ i.id := by
    intro hsame
    apply hother
    rw [id_of_entryInvocation hresolved, hsame, ← hid,
      ← id_of_entryInvocation (entryInvocation_of_getElem? his he hi), hid]
  simpa using hwritten

/-- Acceptance keeps the outputs apart, so an entry can be told by its output. -/
theorem entry_of_output (hc : c.Accepted) {f : Config.Entry} (he : e ∈ c.interfaces)
    (hf : f ∈ c.interfaces) (h : f.output = e.output) : f = e := by
  have hnodup : (c.interfaces.map fun e => FilePath.steps e.output).Nodup :=
    List.pairwise_map.mpr hc.apart
  exact List.inj_on_of_nodup_map hnodup hf he (by rw [h])

theorem readConfig_ok {files : FileTree} {path : String} (h : readConfig files path = .ok c) :
    path ≠ "" ∧ c.Accepted := by
  unfold readConfig at h
  constructor
  · rintro rfl
    simp [FileTree.read, FileTree.target] at h
  · cases hr : files.read path with
    | error e => simp [hr] at h
    | ok text =>
      rw [hr] at h
      exact Config.accepted_of_ofText h

theorem invocation_of_config {files : FileTree} {path : String}
    (hc : readConfig files path = .ok c) {g : GenerateFlags} (hg : g.config = some path) :
    g.invocation files = (g.builder (some c)).build := by
  simp [GenerateFlags.invocation, hg, hc, bind, Except.bind]

/-- What `generate` resolves the id of an invocation to, beside what `batch` runs for it. -/
theorem generate_resolves (hc : c.Accepted) {is : List Invocation} (his : c.invocations = .ok is)
    {n : Nat} (he : c.interfaces[n]? = some e) (hi : is[n]? = some i)
    (hfirst : ∀ j ∈ is.take n, j.id ≠ i.id) (path : String) (token : Option String) :
    (({ config := some path, id := some i.id, token := token } : GenerateFlags).builder
          (some c)).build =
        .ok (withToken i ((token.filter isNotEmpty).or i.source.token)) ↔
      Text.mapChars Text.trim e.id = e.id ∧ (token = some "" → i.source.token = none) := by
  have hresolved := entryInvocation_of_getElem? his he hi
  have hid := id_of_entryInvocation hresolved
  have htoken := token_of_entryInvocation hresolved
  rw [builder_of_id, htoken, ← filter_or_eq_iff, ← hid]
  constructor
  · intro h
    cases hfind : c.interfaces.find? fun e => e.id == i.id with
    | none =>
      -- No output is left where no entry is found.
      rw [hfind, InvocationBuilder.build_eq_ok_iff] at h
      obtain ⟨output, houtput, -⟩ := h.1.output
      simp [InvocationBuilder.ofConfig] at houtput
    | some f =>
      rw [hfind, InvocationBuilder.build_eq_ok_iff] at h
      obtain ⟨-, hsame⟩ := h
      have houtput : f.output = e.output := by
        rw [← output_of_entryInvocation hresolved]
        exact congrArg Invocation.output hsame
      have hfe : f = e := entry_of_output hc (List.mem_of_getElem? he)
        (List.mem_of_find?_eq_some hfind) houtput
      have hfid : f.id = i.id := by simpa using List.find?_some hfind
      exact ⟨by rw [← hfe, hfid], congrArg (fun i => i.source.token) hsame⟩
  · rintro ⟨hwritten, heq⟩
    rw [find?_entry his he hi hfirst hwritten.symm]
    have hbuild := build_withToken hresolved (token.or c.source.token)
    rw [heq] at hbuild
    rw [← hbuild, hwritten]
    rfl

/-- For the first invocation of its id, `generate` with that id and a token resolves to what
`batch` with the token runs, if and only if the id is written without white space around it and an
empty token meets none in the configuration: `generate` looks for the id as it is written, and an
empty token of `generate` hides that of the configuration, while `batch` ignores it. All this in
either spelling of the options, as long as no value that is an argument of its own looks like an
option; attached values may be anything. -/
theorem generate_resolves_batch {files : FileTree} {path : String}
    (hc : readConfig files path = .ok c) {is : List Invocation} (his : c.invocations = .ok is)
    {n : Nat} (he : c.interfaces[n]? = some e) (hi : is[n]? = some i)
    (hfirst : ∀ j ∈ is.take n, j.id ≠ i.id) (environment token : Option String)
    {spelling : String → Spelling} (hconfig : (spelling "config").Admits path)
    (hid : (spelling "id").Admits i.id) (htoken : ∀ t ∈ token, (spelling "token").Admits t) :
    ∃ (g : GenerateFlags) (b : BatchFlags),
      Command.ofArgs environment ("generate" :: ((spelling "config").write "config" path ++
          ((spelling "id").write "id" i.id ++ tokenArguments (spelling "token") token))) =
        .ok (.generate g) ∧
      Command.ofArgs environment ("batch" :: ((spelling "config").write "config" path ++
          tokenArguments (spelling "token") token)) = .ok (.batch b) ∧
      b.invocations files = .ok (is.map b.overrideToken) ∧
      (g.invocation files = .ok (b.overrideToken i) ↔
        Text.mapChars Text.trim e.id = e.id ∧
          (token.or environment = some "" → i.source.token = none)) := by
  obtain ⟨hpath, haccepted⟩ := readConfig_ok hc
  refine ⟨_, _, ofArgs_generate hpath hconfig hid htoken environment,
    ofArgs_batch hpath hconfig htoken environment, ?_, ?_⟩
  · simp [BatchFlags.invocations, hc, his, bind, Except.bind, pure, Except.pure]
  · rw [invocation_of_config hc rfl, overrideToken_eq]
    exact generate_resolves haccepted his he hi hfirst path (token.or environment)

end Invocations

def depotText : String :=
  "[source]\nbase_url = \"http://yapi.test\"\ntoken = \"cfg\"\n\n" ++
    "[[interfaces]]\nid = 1\noutput = \"a\"\n\n[[interfaces]]\nid = \" 2\"\noutput = \"b\"\n"

def depotFiles : FileTree := { entries := [(["yapit.toml"], .file depotText)] }

def depotConfig : Config where
  source := { baseUrl := some "http://yapi.test", token := some "cfg" }
  interfaces := [⟨"1", "a", none⟩, ⟨" 2", "b", none⟩]

def depotInvocation (id output : String) : Invocation where
  source :=
    { baseUrl := "http://yapi.test", token := some "cfg", timeout := 10, retries := 1 }
  id
  output
  requestPath := none
  naming := {}

theorem readConfig_depot : readConfig depotFiles "yapit.toml" = .ok depotConfig := by
  have hread : depotFiles.read "yapit.toml" = .ok depotText := rfl
  have hparsed : (Toml.ofText? depotText).bind Config.ofValue? = some depotConfig := by
    decide +kernel
  have hfault : depotConfig.fault? = none := by decide +kernel
  rw [readConfig, hread]
  exact Config.ofText_eq_ok_iff.mpr ⟨hparsed, hfault⟩

/-- Only the token is attached. -/
def depotSpelling (name : String) : Spelling := if name = "token" then .attached else .separate

/-- A token that is not empty replaces that of the configuration in both commands. -/
theorem depot_resolves :
    ∃ (g : GenerateFlags) (b : BatchFlags),
      Command.ofArgs none ["generate", "--config", "yapit.toml", "--id", "1", "--token=flag"] =
        .ok (.generate g) ∧
      Command.ofArgs none ["batch", "--config", "yapit.toml", "--token=flag"] = .ok (.batch b) ∧
      b.invocations depotFiles =
        .ok ([depotInvocation "1" "a", depotInvocation "2" "b"].map b.overrideToken) ∧
      g.invocation depotFiles = .ok (b.overrideToken (depotInvocation "1" "a")) := by
  obtain ⟨g, b, hg, hb, hbatch, hiff⟩ := generate_resolves_batch readConfig_depot
    (show depotConfig.invocations = .ok [depotInvocation "1" "a", depotInvocation "2" "b"] from rfl)
    (show depotConfig.interfaces[0]? = some ⟨"1", "a", none⟩ from rfl) rfl (by simp) none
    (some "flag") (show (depotSpelling "config").Admits "yapit.toml" from fun _ => by decide)
    (fun _ => by decide) (by simp [Spelling.Admits, depotSpelling])
  exact ⟨g, b, hg, hb, hbatch, hiff.mpr ⟨rfl, by simp⟩⟩

/-- With an empty token `batch` keeps the token of the configuration and `generate` drops it; and
`generate` finds no entry for the id of the second invocation. -/
theorem depot_resolves_otherwise :
    let dropped := withToken (depotInvocation "1" "a") none
    ({ config := "yapit.toml", token := some "" } : BatchFlags).invocations depotFiles =
      .ok [depotInvocation "1" "a", depotInvocation "2" "b"] ∧
    ({ config := some "yapit.toml", id := some "1", token := some "" } :
      GenerateFlags).invocation depotFiles = .ok dropped ∧
    dropped ≠ depotInvocation "1" "a" ∧
    ({ config := some "yapit.toml", id := some "2" } : GenerateFlags).invocation depotFiles =
      .error (.missing .output) := by
  intro dropped
  refine ⟨?_, ?_, ?_, ?_⟩
  · rw [BatchFlags.invocations, readConfig_depot]
    rfl
  · rw [invocation_of_config readConfig_depot rfl]
    rfl
  · decide
  · rw [invocation_of_config readConfig_depot rfl]
    rfl

end TypedApi.CommandLine
