import Mathlib
import TypedApi.Proofs.Retries

/-!
Refusals by a source. A reply with another code than zero refuses the document and says why, but
the whole reply is read before its code counts. So the reason is passed on exactly if all keys are
texts and the data, if there is any, reads as a document or is null; otherwise the reply counts as
undecodable, and code and message are lost. There is no second request in either case, and only if
the limit on requests has no place in 32 bits there is no first one.
-/
namespace TypedApi

open Json (Literal Tree field?)

namespace Json

namespace Literal

/-- The integer that is written, if it is written without a fraction and an exponent. -/
def integer? (l : Literal) : Option Int :=
  if l.fraction.isEmpty && l.exponent.isNone then
    some (if l.negative then -(Text.natural 10 l.whole : Int) else Text.natural 10 l.whole)
  else none

/-- The number that results when digits are appended to another one. -/
def appended (n : Nat) (digits : List Char) : Nat :=
  digits.foldl (fun n c => 10 * n + (Text.hexValue? c).getD 0) n

theorem appended_cons (n : Nat) (c : Char) (rest : List Char) :
    appended n (c :: rest) = appended (10 * n + Text.natural 10 [c]) rest := by
  simp [appended, Text.natural]

theorem le_appended (n : Nat) (digits : List Char) : n ≤ appended n digits := by
  induction digits generalizing n with
  | nil => exact le_rfl
  | cons c rest ih =>
    rw [appended_cons]
    exact le_trans (by omega) (ih _)

/-- No digit is dropped from a number of 64 bits. -/
theorem absorb_of_lt {n : Nat} {digits : List Char} (h : appended n digits < UInt64.size) :
    absorb n digits = (appended n digits, []) := by
  induction digits generalizing n with
  | nil => rfl
  | cons c rest ih =>
    rw [appended_cons] at h ⊢
    have hroom : 10 * n + Text.natural 10 [c] < UInt64.size := (le_appended _ rest).trans_lt h
    simp only [absorb, hroom, if_true]
    exact ih h

theorem absorb_whole {l : Literal} (h : Text.natural 10 l.whole < UInt64.size) :
    absorb 0 l.whole = (Text.natural 10 l.whole, []) :=
  absorb_of_lt h

theorem int64?_of_integer? {l : Literal} {n : Int} (hl : l.integer? = some n) (hn : n ≠ 0)
    (hfits : Text.fitsInt64 n = true) : (Tree.number l).int64? = some n := by
  have hrange : -0x8000000000000000 ≤ n ∧ n < 0x8000000000000000 := by
    simpa [Text.fitsInt64] using hfits
  unfold integer? at hl
  split at hl
  case isFalse => cases hl
  case isTrue hplain =>
    have hsize : UInt64.size = 18446744073709551616 := rfl
    have hnumber : l.number? = some (.int n) := by
      cases hneg : l.negative with
      | false =>
        obtain rfl : (Text.natural 10 l.whole : Int) = n := by simpa [hneg] using hl
        simp [number?, absorb_whole (l := l) (by omega), hplain, hneg]
      | true =>
        obtain rfl : -(Text.natural 10 l.whole : Int) = n := by simpa [hneg] using hl
        have hpos : 0 < Text.natural 10 l.whole := by omega
        simp [number?, absorb_whole (l := l) (by omega), hplain, hneg, hpos, hfits]
    simp [Tree.int64?, hnumber, hfits]

end Literal

/-- Keys that are texts. -/
def named (fields : List (String × Tree)) : List (Option String × Tree) :=
  fields.map fun m => (some m.1, m.2)

theorem mapM_key_eq_some_iff {members : List (Option String × Tree)}
    {fields : List (String × Tree)} :
    (members.mapM fun m => m.1.map fun key => (key, m.2)) = some fields ↔
      members = named fields := by
  induction members generalizing fields with
  | nil => cases fields <;> simp [named]
  | cons m rest ih =>
    obtain ⟨key, tree⟩ := m
    cases key with
    | none => cases fields <;> simp [named]
    | some key =>
      simp only [List.mapM_cons, Option.map_some, Option.bind_eq_bind, Option.bind_some,
        Option.bind_eq_some_iff, ih, Option.pure_def, Option.some.injEq]
      constructor
      · rintro ⟨fields, rfl, rfl⟩
        rfl
      · intro h
        cases fields with
        | nil => cases h
        | cons f fields =>
          obtain ⟨hf, hfields⟩ := List.cons.inj h
          cases hf
          exact ⟨fields, hfields, rfl⟩

theorem lookup_eq_some_iff_mem {α : Type} {fields : List (String × α)}
    (h : (fields.map (·.1)).Nodup) (name : String) (a : α) :
    fields.lookup name = some a ↔ (name, a) ∈ fields := by
  induction fields with
  | nil => simp
  | cons f rest ih =>
    obtain ⟨key, b⟩ := f
    rw [List.map_cons, List.nodup_cons] at h
    by_cases hkey : name = key
    · subst hkey
      have hnot : (name, a) ∉ rest := fun ha => h.1 (List.mem_map_of_mem (f := (·.1)) ha)
      simp [hnot, eq_comm]
    · simp [List.lookup_cons, beq_eq_false_iff_ne.mpr hkey, hkey, ih h.2]

/-- The fields of an object with distinct keys are those of its members that are known. -/
theorem fields?_named {fields : List (String × Tree)} (h : (fields.map (·.1)).Nodup)
    (names : List String) :
    (Tree.object (named fields)).fields? names =
      some (fields.filter fun m => names.contains m.1) := by
  have hknown : ((fields.filter fun m => names.contains m.1).map (·.1)).Nodup :=
    h.sublist (List.filter_sublist.map _)
  simp only [Tree.fields?, mapM_key_eq_some_iff.mpr rfl, Option.bind_eq_bind, Option.bind_some,
    hknown, if_true]

/-- A key that is no text spoils the whole object. -/
theorem fields?_eq_none {members : List (Option String × Tree)} (h : ∃ m ∈ members, m.1 = none)
    (names : List String) : (Tree.object members).fields? names = none := by
  obtain ⟨m, hm, hkey⟩ := h
  cases hmap : members.mapM fun m => m.1.map fun key => (key, m.2) with
  | none => simp [Tree.fields?, hmap]
  | some fields =>
    rw [mapM_key_eq_some_iff.mp hmap] at hm
    obtain ⟨f, -, rfl⟩ := List.mem_map.mp hm
    cases hkey

theorem exists_named {members : List (Option String × Tree)} (h : ∀ m ∈ members, m.1 ≠ none) :
    ∃ fields, members = named fields := by
  induction members with
  | nil => exact ⟨[], rfl⟩
  | cons m rest ih =>
    obtain ⟨fields, rfl⟩ := ih fun n hn => h n (List.mem_cons_of_mem _ hn)
    obtain ⟨key, hkey⟩ := Option.ne_none_iff_exists.mp (h m (List.mem_cons_self ..))
    exact ⟨(key, m.2) :: fields, by simp [named, hkey]⟩

theorem mem_named {fields : List (String × Tree)} {name : String} {tree : Tree} :
    (some name, tree) ∈ named fields ↔ (name, tree) ∈ fields := by
  simp [named]

theorem lookup_known {α : Type} (fields : List (String × α)) {names : List String} {name : String}
    (h : name ∈ names) :
    (fields.filter fun m => names.contains m.1).lookup name = fields.lookup name := by
  induction fields with
  | nil => rfl
  | cons f rest ih =>
    obtain ⟨key, a⟩ := f
    by_cases hkey : name = key
    · subst hkey
      simp [h]
    · have hne : (name == key) = false := beq_eq_false_iff_ne.mpr hkey
      rw [List.filter_cons]
      cases hknown : names.contains key with
      | true => simp only [if_true, List.lookup_cons, hne, ih]
      | false => simp only [Bool.false_eq_true, if_false, List.lookup_cons, hne, ih]

theorem field?_known {α : Type} (fields : List (String × Tree)) {names : List String}
    {name : String} (h : name ∈ names) (missing : α) (read : Tree → Option α) :
    field? (fields.filter fun m => names.contains m.1) name missing read =
      field? fields name missing read := by
  rw [field?, lookup_known fields h, field?]

end Json

namespace Reply

/-- The members of a reply that refuses: the code is an integer other than zero, and there is a
message. Other members may hold anything. -/
structure IsRefusal (members : List (Option String × Tree)) (code : Int) (message : String) :
    Prop where
  distinct : (members.filterMap (·.1)).Nodup
  coded : ∃ l : Literal, (some "errcode", .number l) ∈ members ∧ l.integer? = some code
  nonzero : code ≠ 0
  fits : Text.fitsInt64 code = true
  worded : (some "errmsg", .string (some message)) ∈ members

/-- The members can be read, whatever the code is. -/
structure IsReadable (members : List (Option String × Tree)) : Prop where
  keys : ∀ m ∈ members, m.1 ≠ none
  data : ∀ data, (some "data", data) ∈ members →
    data = .null ∨ (InterfaceDocument.ofTree? (Json.maxDepth - 1) data).isSome = true

def data? : Tree → Option (Option InterfaceDocument) :=
  Tree.nullable? (InterfaceDocument.ofTree? (Json.maxDepth - 1))

theorem isSome_data? (data : Tree) : (data? data).isSome = true ↔
    data = .null ∨ (InterfaceDocument.ofTree? (Json.maxDepth - 1) data).isSome = true := by
  cases data <;> simp [data?, Tree.nullable?]

section

variable {fields : List (String × Tree)} {members : List (Option String × Tree)} {code : Int}
  {message : String}

theorem nodup_of_refusal (h : IsRefusal (Json.named fields) code message) :
    (fields.map (·.1)).Nodup := by
  have hdistinct := h.distinct
  simpa [Json.named, List.filterMap_map, Function.comp_def] using hdistinct

/-- With a code and a message, all depends on the data. -/
theorem ofTree?_of_refusal (h : IsRefusal (Json.named fields) code message) :
    ofTree? Json.maxDepth (.object (Json.named fields)) =
      (field? fields "data" none data?).map (Reply.mk code message) := by
  have hkeys := nodup_of_refusal h
  obtain ⟨l, hl, hcode⟩ := h.coded
  have hlookup : fields.lookup "errcode" = some (.number l) :=
    (Json.lookup_eq_some_iff_mem hkeys _ _).mpr (Json.mem_named.mp hl)
  have hmessage : field? fields "errmsg" "" Tree.text? = some message := by
    rw [field?, (Json.lookup_eq_some_iff_mem hkeys _ _).mpr (Json.mem_named.mp h.worded)]
    rfl
  rw [Json.maxDepth, ofTree?]
  simp only [Json.fields?_named hkeys, Option.bind_eq_bind, Option.bind_some]
  rw [Json.lookup_known fields (by simp), Json.field?_known fields (by simp),
    Json.field?_known fields (by simp), hlookup, hmessage]
  simp only [Option.bind_some, Json.Literal.int64?_of_integer? hcode h.nonzero h.fits]
  exact Option.map_eq_bind.symm

theorem isReadable_iff_data (h : IsRefusal (Json.named fields) code message) :
    IsReadable (Json.named fields) ↔ (field? fields "data" none data?).isSome = true := by
  have hkeys := nodup_of_refusal h
  have hread : IsReadable (Json.named fields) ↔
      ∀ data, fields.lookup "data" = some data → (data? data).isSome = true := by
    simp only [Json.lookup_eq_some_iff_mem hkeys, isSome_data?]
    constructor
    · exact fun hr data hdata => hr.data data (Json.mem_named.mpr hdata)
    · refine fun hdata => ⟨fun m hm => ?_, fun data hm => hdata data (Json.mem_named.mp hm)⟩
      obtain ⟨f, -, rfl⟩ := List.mem_map.mp hm
      simp
  rw [hread, field?]
  cases fields.lookup "data" with
  | none => simp
  | some data => simp

/-- The reply is read exactly if its members can be. -/
theorem ofTree?_refusal (h : IsRefusal members code message) :
    (IsReadable members → ∃ document,
      ofTree? Json.maxDepth (.object members) = some ⟨code, message, document⟩) ∧
    (¬IsReadable members → ofTree? Json.maxDepth (.object members) = none) := by
  by_cases hkeys : ∃ m ∈ members, m.1 = none
  · obtain ⟨m, hm, hkey⟩ := hkeys
    refine ⟨fun hr => absurd hkey (hr.keys m hm), fun _ => ?_⟩
    simp [Json.maxDepth, ofTree?, Json.fields?_eq_none ⟨m, hm, hkey⟩]
  · obtain ⟨fields, rfl⟩ := Json.exists_named fun m hm hkey => hkeys ⟨m, hm, hkey⟩
    rw [isReadable_iff_data h, ofTree?_of_refusal h]
    cases field? fields "data" none data? with
    | none => simp
    | some document => simp

/-- What a text with such members gives: never a document. -/
theorem ofText?_refusal [JsonWording] {body : String}
    (hbody : Tree.ofText? body = some (.object members)) (h : IsRefusal members code message) :
    (IsReadable members →
      InterfaceDocument.ofText? body = .error (.refused ⟨code, message⟩)) ∧
    (¬IsReadable members →
      InterfaceDocument.ofText? body = .error (.undecodable (JsonWording.notReply body))) := by
  have hread : ofText? body = ofTree? Json.maxDepth (.object members) := by
    rw [ofText?, hbody, Option.bind_eq_bind, Option.bind_some]
  constructor
  · intro hr
    obtain ⟨document, hdocument⟩ := (ofTree?_refusal h).1 hr
    simp [InterfaceDocument.ofText?, hread, hdocument, document?, h.nonzero]
  · intro hr
    simp [InterfaceDocument.ofText?, hread, (ofTree?_refusal h).2 hr]

end

end Reply

namespace SourceSettings

/-- A reply that refuses ends the fetch, whatever retries are left. The fetch fails with the code
and the message of the source exactly if the reply can be read, and otherwise as undecodable. Only
with the largest number of retries there is no request at all. -/
theorem fetch_refused [JsonWording] {s : SourceSettings} {source : Source} {request : Request}
    {id : String} {made : List Exchange} {status : HttpStatus} {body message : String}
    {members : List (Option String × Tree)} {code : Int} (hrequest : s.request id = .ok request)
    (hreply : (exchange source request made 0).answer = .reply status body)
    (hstatus : status.isSuccess = true) (hbody : Tree.ofText? body = some (.object members))
    (h : Reply.IsRefusal members code message) :
    (s.retries.toNat + 1 < 2 ^ 32 →
      (s.fetch source id made).2 = made ++ [exchange source request made 0] ∧
      ((s.fetch source id made).1 = .error (.refused ⟨code, message⟩) ↔
        Reply.IsReadable members) ∧
      (¬Reply.IsReadable members →
        (s.fetch source id made).1 = .error (.undecodable (JsonWording.notReply body)))) ∧
    (¬s.retries.toNat + 1 < 2 ^ 32 → s.fetch source id made = (.error .overflow, made)) := by
  refine ⟨fun hfits => ?_, fun hoverflow => fetch_of_overflow hoverflow source id made⟩
  have houtcome : s.outcomeAt source request made 0 =
      (InterfaceDocument.ofText? body).mapError FetchError.ofDocument := by
    simp [outcomeAt, hreply, outcome, hstatus]
  obtain ⟨hread, hunread⟩ := Reply.ofText?_refusal hbody h
  have hlast : isTransient (s.outcomeAt source request made 0) = false := by
    by_cases hr : Reply.IsReadable members
    · rw [houtcome, hread hr]
      rfl
    · rw [houtcome, hunread hr]
      rfl
  have hfetch : s.fetch source id made =
      (s.outcomeAt source request made 0, made ++ [exchange source request made 0]) := by
    rw [fetch, start_of_fits hfits hrequest]
    exact s.fetchFrom_last source request made (.inr hlast)
  rw [hfetch, houtcome]
  refine ⟨rfl, ?_, fun hr => by rw [hunread hr]; rfl⟩
  by_cases hr : Reply.IsReadable members
  · rw [hread hr]
    exact iff_of_true rfl hr
  · rw [hunread hr]
    exact iff_of_false (fun hrefused => by cases hrefused) hr

section Refusing

attribute [local instance] JsonWording.terse

def refusing (body : String) : Source where
  answer _ _ := .reply ⟨200⟩ body

/-- A member that nobody reads may hold anything. -/
theorem refusing_with_note :
    let s := harbour 3
    let body :=
      "\x7b\"note\":[1e999,\x7b\"data\":0\x7d],\"errmsg\":\"请登录...\",\"errcode\":-40011\x7d"
    let code : Literal := ⟨true, ['4', '0', '0', '1', '1'], [], none⟩
    let members := [
      (some "note", .array [.number ⟨false, ['1'], [], some (false, ['9', '9', '9'])⟩,
        .object [(some "data", .number ⟨false, ['0'], [], none⟩)]]),
      (some "errmsg", .string (some "请登录...")), (some "errcode", Tree.number code)]
    s.request "7" = .ok harbourRequest ∧ Tree.ofText? body = some (.object members) ∧
      Reply.IsRefusal members (-40011) "请登录..." ∧ Reply.IsReadable members ∧
      (s.fetch (refusing body) "7" []).1 = .error (.refused ⟨-40011, "请登录..."⟩) ∧
      (s.fetch (refusing body) "7" []).2 = [exchange (refusing body) harbourRequest [] 0] := by
  intro s body code members
  have hrequest : s.request "7" = .ok harbourRequest := by decide +kernel
  have hbody : Tree.ofText? body = some (.object members) := by cbv
  have hrefusal : Reply.IsRefusal members (-40011) "请登录..." :=
    ⟨by decide, ⟨code, by simp [members], rfl⟩, by decide, by decide, by simp [members]⟩
  have hreadable : Reply.IsReadable members := ⟨by simp [members], by simp [members]⟩
  have hreply : (exchange (refusing body) harbourRequest [] 0).answer = .reply ⟨200⟩ body := rfl
  obtain ⟨hone, hiff, -⟩ :=
    (fetch_refused hrequest hreply (by decide) hbody hrefusal).1 (by decide)
  exact ⟨hrequest, hbody, hrefusal, hreadable, hiff.mpr hreadable, hone⟩

/-- A source that asks for a login and sends an empty text as its data is not heard. -/
theorem refusing_with_text :
    let s := harbour 3
    let body := "\x7b\"errcode\":40011,\"errmsg\":\"请登录...\",\"data\":\"\"\x7d"
    let code : Literal := ⟨false, ['4', '0', '0', '1', '1'], [], none⟩
    let members := [(some "errcode", Tree.number code),
      (some "errmsg", .string (some "请登录...")), (some "data", .string (some ""))]
    s.request "7" = .ok harbourRequest ∧ Tree.ofText? body = some (.object members) ∧
      Reply.IsRefusal members 40011 "请登录..." ∧
      (s.fetch (refusing body) "7" []).1 = .error (.undecodable (JsonWording.notReply body)) := by
  intro s body code members
  have hrequest : s.request "7" = .ok harbourRequest := by decide +kernel
  have hbody : Tree.ofText? body = some (.object members) := by cbv
  have hrefusal : Reply.IsRefusal members 40011 "请登录..." :=
    ⟨by decide, ⟨code, by simp [members], rfl⟩, by decide, by decide, by simp [members]⟩
  have hunreadable : ¬Reply.IsReadable members := by
    intro h
    have hdata := h.data (.string (some "")) (by simp [members])
    simp [Json.maxDepth, InterfaceDocument.ofTree?, Tree.fields?] at hdata
  have houtcome : s.outcomeAt (refusing body) harbourRequest [] 0 =
      .error (.undecodable (JsonWording.notReply body)) := by
    have hread := (Reply.ofText?_refusal hbody hrefusal).2 hunreadable
    simp [outcomeAt, outcome, exchange, refusing, HttpStatus.isSuccess, hread, Except.mapError,
      FetchError.ofDocument]
  refine ⟨hrequest, hbody, hrefusal, ?_⟩
  have hlast : s.fetchFrom (refusing body) harbourRequest s.retries.toNat [] = _ :=
    s.fetchFrom_last (refusing body) harbourRequest [] (.inr (congrArg isTransient houtcome))
  rw [fetch, start_of_fits (by decide) hrequest]
  exact (congrArg Prod.fst hlast).trans houtcome

end Refusing

end SourceSettings
end TypedApi
