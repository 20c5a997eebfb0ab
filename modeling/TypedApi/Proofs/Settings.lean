import TypedApi.Proofs.Resolution

/-!
Settings given to a builder one after the other. Whatever they are and in whatever order they come,
the values of the invocation that is built are as a builder asks for them, with one exception: the
base address is looked at before the slashes at its end are cut off. One with nothing but slashes
after its scheme is accepted, and what is left of it is no address of the web.
-/
namespace TypedApi

namespace InvocationBuilder

/-- A setting as it is given to a builder. -/
inductive Change
  | baseUrl (url : String)
  | token (token : Option String)
  | id (id : String)
  | output (output : String)
  | requestPath (path : Option String)
  | naming (naming : NamingSettings)

def Change.baseUrl? : Change → Option String
  | baseUrl url => some url
  | _ => none

def change (b : InvocationBuilder) : Change → InvocationBuilder
  | .baseUrl url => b.withBaseUrl url
  | .token token => b.withToken token
  | .id id => b.withId id
  | .output output => b.withOutput output
  | .requestPath path => b.withRequestPath path
  | .naming naming => b.withNaming naming

def after (b : InvocationBuilder) (changes : List Change) : InvocationBuilder :=
  changes.foldl change b

/-- The base address that is given last, or else the one there was. -/
def lastBaseUrl (b : InvocationBuilder) (changes : List Change) : Option String :=
  (changes.reverse.findSome? Change.baseUrl?).or b.baseUrl

theorem baseUrl_change (b : InvocationBuilder) (c : Change) :
    (b.change c).baseUrl = c.baseUrl?.or b.baseUrl := by
  cases c with
  | baseUrl url => rfl
  | token token => rfl
  | id id => rfl
  | output output => rfl
  | requestPath path => rfl
  | naming naming => rfl

theorem baseUrl_after (b : InvocationBuilder) (changes : List Change) :
    (b.after changes).baseUrl = b.lastBaseUrl changes := by
  induction changes generalizing b with
  | nil => rfl
  | cons c rest ih =>
    have hlater : (b.after (c :: rest)).baseUrl = (b.change c).lastBaseUrl rest := ih (b.change c)
    have hone : [c].findSome? Change.baseUrl? = c.baseUrl? := by
      cases hc : c.baseUrl? <;> simp [hc]
    rw [hlater, lastBaseUrl, lastBaseUrl, baseUrl_change, List.reverse_cons,
      List.findSome?_append, hone, Option.or_assoc]

end InvocationBuilder

/-! Addresses without the slashes at their ends -/

section Slashes

theorem rdropWhile_append_of_forall {α : Type} {p : α → Bool} (a : List α) {b : List α}
    (h : ∀ c ∈ b, p c = true) : (a ++ b).rdropWhile p = a.rdropWhile p := by
  rw [List.rdropWhile, List.reverse_append, List.dropWhile_append_of_pos (by simpa using h),
    List.rdropWhile]

theorem rdropWhile_append_of_ne_nil {α : Type} {p : α → Bool} (a : List α) {b : List α}
    (h : b.rdropWhile p ≠ []) : (a ++ b).rdropWhile p = a ++ b.rdropWhile p := by
  have hrest : (b.reverse.dropWhile p).isEmpty = false := by
    simpa [List.rdropWhile] using h
  rw [List.rdropWhile, List.reverse_append, List.dropWhile_append, hrest, List.rdropWhile]
  simp

theorem toList_withoutFinalSlashes (s : String) :
    (withoutFinalSlashes s).toList = s.toList.rdropWhile (· == '/') :=
  Text.toList_mapChars _ s

theorem getLast?_withoutFinalSlashes (s : String) :
    (withoutFinalSlashes s).toList.getLast? ≠ some '/' := by
  rw [toList_withoutFinalSlashes]
  intro hlast
  obtain ⟨before, hbefore⟩ := List.getLast?_eq_some_iff.mp hlast
  have hself := List.rdropWhile_idempotent (· == '/') s.toList
  rw [hbefore, List.rdropWhile_concat_pos _ _ _ (by rfl)] at hself
  -- What is left would be longer than itself.
  have hlength := (List.rdropWhile_prefix (· == '/') before).length_le
  rw [hself, List.length_append, List.length_singleton] at hlength
  omega

theorem withoutFinalSlashes_eq_self {s : String} (h : s.toList.getLast? ≠ some '/') :
    withoutFinalSlashes s = s := by
  apply String.ext
  rw [toList_withoutFinalSlashes, List.rdropWhile_eq_self_iff]
  intro hne hslash
  rw [List.getLast?_eq_some_getLast hne, beq_iff_eq.mp hslash] at h
  exact h rfl

def webSchemes : List String := ["http:", "https:"]

/-- Nothing but slashes follows the scheme. -/
def IsSchemeOnly (url : String) : Prop :=
  ∃ scheme ∈ webSchemes, ∃ n, url.toList = scheme.toList ++ List.replicate n '/'

variable {url : String}

theorem isWebAddress_iff : isWebAddress url = true ↔
    ∃ scheme ∈ webSchemes, ∃ rest, url.toList = (scheme.toList ++ ['/', '/']) ++ rest := by
  have hhttp : "http://".toList = "http:".toList ++ ['/', '/'] := rfl
  have hhttps : "https://".toList = "https:".toList ++ ['/', '/'] := rfl
  rw [isWebAddress, Bool.or_eq_true, List.isPrefixOf_iff_prefix, List.isPrefixOf_iff_prefix,
    hhttp, hhttps]
  constructor
  · rintro (⟨rest, hrest⟩ | ⟨rest, hrest⟩)
    · exact ⟨"http:", by simp [webSchemes], rest, hrest.symm⟩
    · exact ⟨"https:", by simp [webSchemes], rest, hrest.symm⟩
  · rintro ⟨scheme, hmem, rest, hrest⟩
    rw [hrest]
    simp only [webSchemes, List.mem_cons, List.not_mem_nil, or_false] at hmem
    rcases hmem with rfl | rfl
    · exact .inl (List.prefix_append _ _)
    · exact .inr (List.prefix_append _ _)

/-- Without the slashes at its end an address of the web is one, unless there is nothing else after
its scheme. -/
theorem isWebAddress_withoutFinalSlashes (h : isWebAddress url = true) :
    isWebAddress (withoutFinalSlashes url) = true ↔ ¬IsSchemeOnly url := by
  have hscheme : ∀ scheme ∈ webSchemes, scheme.toList.rdropWhile (· == '/') = scheme.toList ∧
      isWebAddress scheme = false := by decide
  constructor
  · rintro hweb ⟨scheme, hmem, n, hurl⟩
    obtain ⟨hself, hnot⟩ := hscheme scheme hmem
    have hleft : withoutFinalSlashes url = scheme := by
      apply String.ext
      rw [toList_withoutFinalSlashes, hurl, rdropWhile_append_of_forall _ (by simp), hself]
    simp [hleft, hnot] at hweb
  · intro hmore
    obtain ⟨scheme, hmem, rest, hurl⟩ := isWebAddress_iff.mp h
    refine isWebAddress_iff.mpr ⟨scheme, hmem, rest.rdropWhile (· == '/'), ?_⟩
    rw [toList_withoutFinalSlashes, hurl]
    refine rdropWhile_append_of_ne_nil _ fun hnil => hmore ⟨scheme, hmem, rest.length + 2, ?_⟩
    have hslashes : rest = List.replicate rest.length '/' := by
      rw [List.rdropWhile_eq_nil_iff] at hnil
      exact List.eq_replicate_of_mem fun c hc => by simpa using hnil c hc
    rw [hurl, List.append_assoc, Nat.add_comm, List.replicate_add, ← hslashes]
    rfl

end Slashes

/-! What is built -/

/-- The values are as a builder asks for them, the base address apart. -/
structure Invocation.InOrder (i : Invocation) : Prop where
  address : i.source.baseUrl.toList.getLast? ≠ some '/'
  id : i.id ≠ "" ∧ Text.mapChars Text.trim i.id = i.id
  output : i.output ≠ ""
  timeout : 1 ≤ i.source.timeout
  token : i.source.token ≠ some ""
  requestPath : ∀ path, i.requestPath = some path → Text.allBlank path = false

/-- A builder that has been given the values of an invocation. -/
def Invocation.builder (i : Invocation) : InvocationBuilder where
  baseUrl := some i.source.baseUrl
  token := i.source.token
  timeout := some i.source.timeout
  retries := some i.source.retries
  id := some i.id
  output := some i.output
  requestPath := i.requestPath
  naming := i.naming

namespace InvocationBuilder

variable {b : InvocationBuilder} {i : Invocation}

theorem Complete.inOrder (h : b.Complete) : b.resolved.InOrder := by
  obtain ⟨id, hid, hblank⟩ := h.id
  obtain ⟨output, houtput, hne⟩ := h.output
  refine ⟨getLast?_withoutFinalSlashes _, ⟨?_, Text.mapChars_trim_idem _⟩, ?_,
    Nat.one_le_iff_ne_zero.mpr h.timeout, ?_, fun path hpath => ?_⟩
  · rw [resolved, hid, Option.getD_some, ne_eq, Text.mapChars_trim_eq_empty, hblank]
    exact Bool.false_ne_true
  · rwa [resolved, houtput]
  · intro htoken
    have hkept := (Option.filter_eq_some_iff.mp htoken).2
    simp at hkept
  · exact (Text.notBlank_eq_some.mp hpath).2

/-- Values in order are resolved to themselves. -/
theorem resolved_builder (h : i.InOrder) : i.builder.resolved = i := by
  have haddress := withoutFinalSlashes_eq_self h.address
  have htoken : i.source.token.filter (· ≠ "") = i.source.token := by
    cases htoken : i.source.token with
    | none => rfl
    | some token =>
      have hne : token ≠ "" := by
        rintro rfl
        exact h.token htoken
      simp [Option.filter_some, hne]
  have hpath : Text.notBlank i.requestPath = i.requestPath := by
    cases hpath : i.requestPath with
    | none => rfl
    | some path => exact Text.notBlank_eq_some.mpr ⟨rfl, h.requestPath path hpath⟩
  simp only [resolved, Invocation.builder, Option.getD_some, haddress, htoken, hpath, h.id.2]

/-- They pass all checks once more if the base address does. -/
theorem build_builder_iff (h : i.InOrder) :
    i.builder.build = .ok i ↔ isWebAddress i.source.baseUrl = true := by
  rw [build_eq_ok_iff]
  constructor
  · rintro ⟨⟨⟨url, hurl, -, hweb⟩, -, -, -⟩, -⟩
    obtain rfl := Option.some.inj hurl
    exact hweb
  · intro hweb
    have hid : Text.allBlank i.id = false := by
      rw [← Bool.not_eq_true, ← Text.mapChars_trim_eq_empty, h.id.2]
      exact h.id.1
    exact ⟨⟨⟨_, rfl, not_blank_of_isWebAddress hweb, hweb⟩, ⟨_, rfl, hid⟩, ⟨_, rfl, h.output⟩,
      Nat.one_le_iff_ne_zero.mp h.timeout⟩, resolved_builder h⟩

/-- Whatever a builder starts from and is given, if it builds an invocation the values are in order
and the base address is the last one given, without the slashes at its end. It is an address of the
web, and so the invocation passes all checks again, if and only if something else than slashes
followed its scheme. -/
theorem build_after (b : InvocationBuilder) (changes : List Change) {i : Invocation}
    (h : (b.after changes).build = .ok i) :
    i.InOrder ∧ ∃ url, b.lastBaseUrl changes = some url ∧ isWebAddress url = true ∧
      i.source.baseUrl = withoutFinalSlashes url ∧
      (isWebAddress i.source.baseUrl = true ↔ ¬IsSchemeOnly url) ∧
      (i.builder.build = .ok i ↔ ¬IsSchemeOnly url) := by
  obtain ⟨hcomplete, rfl⟩ := build_eq_ok_iff.mp h
  obtain ⟨url, hurl, -, hweb⟩ := hcomplete.address
  have hstored : (b.after changes).resolved.source.baseUrl = withoutFinalSlashes url := by
    rw [resolved, hurl, Option.getD_some]
  have hiff := isWebAddress_withoutFinalSlashes hweb
  refine ⟨hcomplete.inOrder, url, by rw [← baseUrl_after, hurl], hweb, hstored, ?_, ?_⟩
  · rw [hstored, hiff]
  · rw [build_builder_iff hcomplete.inOrder, hstored, hiff]

/-- A later base address and an absent token and path, after a configuration. -/
theorem orchard_changed :
    let b := ofConfig Config.orchard
    let changes : List Change := [.baseUrl "http://", .id "\t9 ", .token none, .output "b",
      .requestPath (some "/pears"), .requestPath none, .baseUrl "http:///yapi.test/"]
    let i : Invocation :=
      { source :=
          { baseUrl := "http:///yapi.test", token := none, timeout := 10, retries := 1 }
        id := "9", output := "b", requestPath := some "/pears", naming := {} }
    (b.after changes).build = .ok i ∧ b.lastBaseUrl changes = some "http:///yapi.test/" ∧
      i.InOrder ∧ i.builder.build = .ok i ∧ ¬IsSchemeOnly "http:///yapi.test/" := by
  intro b changes i
  have hbuild : (b.after changes).build = .ok i := rfl
  obtain ⟨horder, url, hurl, -, -, hweb, hagain⟩ := build_after b changes hbuild
  obtain rfl : "http:///yapi.test/" = url := Option.some.inj hurl
  have hmore : ¬IsSchemeOnly "http:///yapi.test/" :=
    hweb.mp (show isWebAddress "http:///yapi.test" = true by decide)
  exact ⟨hbuild, hurl, horder, hagain.mpr hmore, hmore⟩

/-- A scheme with slashes is built into a base address that the builder itself refuses. -/
theorem scheme_stored :
    let changes : List Change := [.baseUrl "http://", .id "1", .output "out"]
    let i : Invocation :=
      { source := { baseUrl := "http:", token := none, timeout := 10, retries := 1 }
        id := "1", output := "out", requestPath := none, naming := {} }
    (({} : InvocationBuilder).after changes).build = .ok i ∧
      isWebAddress i.source.baseUrl = false ∧
      i.builder.build = .error (.badAddress "http:") :=
  ⟨rfl, rfl, rfl⟩

end InvocationBuilder
end TypedApi
