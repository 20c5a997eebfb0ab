import Mathlib.Data.ENat.Lattice
import TypedApi.Source.Fetch

/-!
How often a source is asked. A fetch goes on while answers are transient and retries are left, and
ends with the outcome of its last request. Only the largest number of retries is not honoured: the
limit has no place in 32 bits, so that the program ends without a request.
-/
namespace TypedApi

namespace SourceSettings

/-- The request that follows `n` others of the same fetch, and what becomes of it. -/
def exchange (source : Source) (request : Request) (made : List Exchange) (n : Nat) : Exchange :=
  ⟨request, source.answer request (made.countP (·.request.id == request.id) + n)⟩

/-- What the fetch would come to if that request were its last. -/
def outcomeAt [JsonWording] (s : SourceSettings) (source : Source) (request : Request)
    (made : List Exchange) (n : Nat) : Except FetchError InterfaceDocument :=
  s.outcome (exchange source request made n).answer

def isTransient : Except FetchError InterfaceDocument → Bool
  | .ok _ => false
  | .error e => e.isTransient

/-- The number of outcomes before the first that is not transient; infinite if all are. -/
noncomputable def leadingTransient (outcomes : Nat → Except FetchError InterfaceDocument) : ℕ∞ :=
  ⨅ (n : Nat) (_ : isTransient (outcomes n) = false), (n : ℕ∞)

section Fetching

variable (s : SourceSettings) (source : Source) (request : Request) (made : List Exchange)

/-- After one request more, the requests to come are those that came after it. -/
theorem exchange_later (n : Nat) :
    exchange source request (made ++ [exchange source request made 0]) n =
      exchange source request made (n + 1) := by
  have hcount : (made ++ [exchange source request made 0]).countP (·.request.id == request.id) + n =
      made.countP (·.request.id == request.id) + (n + 1) := by
    rw [List.countP_append]
    simp [exchange]
    omega
  rw [exchange, hcount]
  rfl

variable [JsonWording]

theorem fetchFrom_last {more : Nat}
    (h : more = 0 ∨ isTransient (s.outcomeAt source request made 0) = false) :
    s.fetchFrom source request more made =
      (s.outcomeAt source request made 0, made ++ [exchange source request made 0]) := by
  have hask : ask source request made = exchange source request made 0 := rfl
  unfold outcomeAt at h ⊢
  unfold fetchFrom
  simp only [hask]
  cases ho : s.outcome (exchange source request made 0).answer with
  | ok d => rfl
  | error e =>
    cases more with
    | zero => rfl
    | succ more =>
      have he : e.isTransient = false := by simpa [ho, isTransient] using h
      simp only [he, Bool.false_eq_true, if_false]

theorem fetchFrom_again {more : Nat}
    (h : isTransient (s.outcomeAt source request made 0) = true) :
    s.fetchFrom source request (more + 1) made =
      s.fetchFrom source request more (made ++ [exchange source request made 0]) := by
  have hask : ask source request made = exchange source request made 0 := rfl
  unfold outcomeAt at h
  rw [fetchFrom]
  simp only [hask]
  cases ho : s.outcome (exchange source request made 0).answer with
  | ok d => simp [ho, isTransient] at h
  | error e =>
    have he : e.isTransient = true := by simpa [ho, isTransient] using h
    simp only [he, if_true]

/-- The run of a fetch: the outcomes before the last one are transient, and the last one is not or
there is no retry left. -/
theorem fetchFrom_run (more : Nat) :
    ∃ last ≤ more,
      s.fetchFrom source request more made =
        (s.outcomeAt source request made last,
          made ++ (List.range (last + 1)).map (exchange source request made)) ∧
      (∀ n < last, isTransient (s.outcomeAt source request made n) = true) ∧
      (last < more → isTransient (s.outcomeAt source request made last) = false) := by
  induction more generalizing made with
  | zero => exact ⟨0, le_rfl, s.fetchFrom_last source request made (.inl rfl), by simp, by simp⟩
  | succ more ih =>
    cases hfirst : isTransient (s.outcomeAt source request made 0) with
    | false =>
      exact ⟨0, by omega, s.fetchFrom_last source request made (.inr hfirst), by simp,
        fun _ => hfirst⟩
    | true =>
      obtain ⟨last, hle, hrun, hbefore, hend⟩ := ih (made ++ [exchange source request made 0])
      have hlater : ∀ n, s.outcomeAt source request
          (made ++ [exchange source request made 0]) n =
            s.outcomeAt source request made (n + 1) := by
        intro n
        rw [outcomeAt, exchange_later]
        rfl
      refine ⟨last + 1, by omega, ?_, fun n hn => ?_, fun hlt => ?_⟩
      · rw [s.fetchFrom_again source request made hfirst, hrun, hlater, List.append_assoc]
        simp only [List.range_succ_eq_map (n := last + 1), List.map_cons, List.map_map,
          List.singleton_append]
        congr 4
        funext n
        exact exchange_later source request made n
      · cases n with
        | zero => exact hfirst
        | succ n => exact hlater n ▸ hbefore n (by omega)
      · exact hlater last ▸ hend (by omega)

end Fetching

section Counting

variable {outcomes : Nat → Except FetchError InterfaceDocument} {last more : Nat}

theorem le_leadingTransient (h : ∀ n < last, isTransient (outcomes n) = true) :
    (last : ℕ∞) ≤ leadingTransient outcomes := by
  refine le_iInf₂ fun n hn => ?_
  rw [Nat.cast_le]
  by_contra hlt
  rw [h n (by omega)] at hn
  cases hn

theorem leadingTransient_le (h : isTransient (outcomes last) = false) :
    leadingTransient outcomes ≤ last :=
  iInf₂_le last h

/-- There is one request for each leading transient outcome and one more, if the retries suffice. -/
theorem requests_eq (hle : last ≤ more) (hbefore : ∀ n < last, isTransient (outcomes n) = true)
    (hend : last < more → isTransient (outcomes last) = false) :
    ((last + 1 : Nat) : ℕ∞) = min ((more + 1 : Nat) : ℕ∞) (1 + leadingTransient outcomes) := by
  have hleading := le_leadingTransient hbefore
  rcases hle.lt_or_eq with hlt | rfl
  · have heq : leadingTransient outcomes = last :=
      le_antisymm (leadingTransient_le (hend hlt)) hleading
    rw [heq, min_eq_right]
    · push_cast
      exact add_comm _ _
    · rw [add_comm]
      exact_mod_cast (by omega : last + 1 ≤ more + 1)
  · rw [min_eq_left]
    push_cast
    rw [add_comm]
    exact add_le_add le_rfl hleading

end Counting

theorem attempts?_eq_none_iff {s : SourceSettings} :
    s.attempts? = none ↔ ¬s.retries.toNat + 1 < 2 ^ 32 := by
  simp [attempts?, UInt32.size]

theorem start_of_fits {s : SourceSettings} (hfits : s.retries.toNat + 1 < 2 ^ 32) {id : String}
    {request : Request} (h : s.request id = .ok request) :
    s.start id = .ok (request, s.retries.toNat) := by
  have hattempts : s.attempts? = some (s.retries + 1) := if_pos hfits
  have hmore : (s.retries + 1).toNat - 1 = s.retries.toNat := by
    rw [UInt32.toNat_add]
    simp only [UInt32.toNat_one]
    omega
  rw [start, hattempts]
  simp only [h, hmore]

theorem fetch_of_overflow [JsonWording] {s : SourceSettings} (h : ¬s.retries.toNat + 1 < 2 ^ 32)
    (source : Source) (id : String) (made : List Exchange) :
    s.fetch source id made = (.error .overflow, made) := by
  rw [fetch, start, attempts?_eq_none_iff.mpr h]

/-- Where there is an address to ask and the limit has a place in 32 bits, a fetch ends with the
outcome of its last request, and all outcomes before that are transient. It makes one request for
each leading transient outcome and one more, but not more than the retries and one. With the largest
number of retries there is no request and no outcome, whatever the source would say. -/
theorem fetch_requests [JsonWording] {s : SourceSettings} {request : Request} {id : String}
    (source : Source) (made : List Exchange) (h : s.request id = .ok request) :
    let outcomes := s.outcomeAt source request made
    (s.retries.toNat + 1 < 2 ^ 32 → ∃ last,
      s.fetch source id made =
        (outcomes last, made ++ (List.range (last + 1)).map (exchange source request made)) ∧
      (∀ n < last, isTransient (outcomes n) = true) ∧
      ((last + 1 : Nat) : ℕ∞) =
        min ((s.retries.toNat + 1 : Nat) : ℕ∞) (1 + leadingTransient outcomes)) ∧
    (¬s.retries.toNat + 1 < 2 ^ 32 → s.fetch source id made = (.error .overflow, made)) := by
  intro outcomes
  constructor
  · intro hfits
    obtain ⟨last, hle, hrun, hbefore, hend⟩ :=
      s.fetchFrom_run source request made s.retries.toNat
    refine ⟨last, ?_, hbefore, requests_eq hle hbefore hend⟩
    rw [fetch, start_of_fits hfits h]
    exact hrun
  · exact fun hoverflow => fetch_of_overflow hoverflow source id made

section Overflow

variable [JsonWording] (s : SourceSettings)

theorem outcome_ne_overflow (a : Answer) : s.outcome a ≠ .error .overflow := by
  cases a with
  | failed f => simp [outcome]
  | brokenOff status f =>
    cases hstatus : status.isSuccess with
    | true => simp [outcome, hstatus]
    | false => simp [outcome, hstatus]
  | reply status body =>
    cases hstatus : status.isSuccess with
    | false => simp [outcome, hstatus]
    | true =>
      simp only [outcome, hstatus, if_true]
      cases InterfaceDocument.ofText? body with
      | ok d => nofun
      | error e => cases e <;> nofun

theorem fetchFrom_ne_overflow (source : Source) (request : Request) (more : Nat)
    (made : List Exchange) :
    (s.fetchFrom source request more made).1 ≠ .error .overflow := by
  obtain ⟨last, -, hrun, -⟩ := s.fetchFrom_run source request made more
  rw [hrun]
  exact s.outcome_ne_overflow _

/-- Nothing but the limit on the number of requests overflows. -/
theorem fetch_overflow_iff (source : Source) (id : String) (made : List Exchange) :
    (s.fetch source id made).1 = .error .overflow ↔ s.attempts? = none := by
  unfold fetch start
  cases s.attempts? with
  | none => simp
  | some attempts =>
    cases s.request id with
    | error f => simp
    | ok request => simpa using s.fetchFrom_ne_overflow source request _ made

end Overflow

section Recovering

attribute [local instance] JsonWording.terse

def harbour (retries : UInt32) : SourceSettings where
  baseUrl := "http://yapi.test"
  token := none
  timeout := 10
  retries

def harbourRequest : Request where
  id := "7"
  address :=
    { scheme := .http, host := .domain "yapi.test", segments := ["api", "interface", "get"],
      query := some "id=7" }
  timeout := 10

/-- Late for so many requests. -/
def recovering (failures : Nat) : Source where
  answer _ earlier :=
    if earlier < failures then .failed { isTimeout := true, chain := ["operation timed out"] }
    else .reply ⟨200⟩ "\x7b\"errcode\":0,\"data\":\x7b\x7d\x7d"

theorem recovering_requests :
    let s := harbour 3
    s.request "7" = .ok harbourRequest ∧ s.retries.toNat + 1 < 2 ^ 32 ∧
      (s.fetch (recovering 2) "7" []).2.length = 3 ∧
      ((3 : Nat) : ℕ∞) = min ((s.retries.toNat + 1 : Nat) : ℕ∞)
        (1 + leadingTransient (s.outcomeAt (recovering 2) harbourRequest [])) := by
  intro s
  have hrequest : s.request "7" = .ok harbourRequest := by decide +kernel
  have hfits : s.retries.toNat + 1 < 2 ^ 32 := by decide
  have hlength : (s.fetch (recovering 2) "7" []).2.length = 3 := by decide +kernel
  obtain ⟨last, hfetch, -, hcount⟩ :=
    (fetch_requests (recovering 2) [] hrequest).1 hfits
  have hlast : last + 1 = 3 := by simpa [hfetch] using hlength
  exact ⟨hrequest, hfits, hlength, hlast ▸ hcount⟩

/-- With the most retries there are, a source that is late once is not asked at all. -/
theorem largest_requests :
    let s := harbour 4294967295
    let outcomes := s.outcomeAt (recovering 1) harbourRequest []
    s.request "7" = .ok harbourRequest ∧
      s.fetch (recovering 1) "7" [] = (.error .overflow, []) ∧
      (outcomes 1).isOk = true ∧
      min ((s.retries.toNat + 1 : Nat) : ℕ∞) (1 + leadingTransient outcomes) = 2 := by
  intro s outcomes
  have hleading : leadingTransient outcomes = ((1 : Nat) : ℕ∞) :=
    le_antisymm (leadingTransient_le (by decide +kernel))
      (le_leadingTransient fun n hn => by
        rw [Nat.lt_one_iff.mp hn]
        decide +kernel)
  refine ⟨by decide +kernel, fetch_of_overflow (by decide) _ _ _, by decide +kernel, ?_⟩
  rw [hleading]
  decide

end Recovering

end SourceSettings
end TypedApi
