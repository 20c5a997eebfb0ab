import TypedApi.Document.Endpoint
import TypedApi.Source.Lookup
import TypedApi.Source.Status

/-!
Fetching interface documents. A failure that may pass, which is a source out of reach or late or
one with trouble of its own, is tried again a limited number of times.
-/
namespace TypedApi

/-- Why the HTTP client has no answer, as it tells: whether it is for want of a connection, whether
it is for want of time, and what it says of the failure and of its causes, from the nearest. -/
structure HttpFailure where
  isConnect : Bool := false
  isTimeout : Bool := false
  chain : List String := []
deriving DecidableEq, Repr

/-- What the HTTP client has for one request, after it has followed all redirects. A redirect that
it does not follow is a reply, and too many of them are a failure; so is a reply that is late or
breaks off. -/
inductive Answer
  | reply (status : HttpStatus) (body : String)
  /-- A status has come, but not all of the body. -/
  | brokenOff (status : HttpStatus) (f : HttpFailure)
  | failed (f : HttpFailure)
deriving DecidableEq, Repr

/-- A source by its answers: to a request that comes after so many earlier ones for the same
interface. Whether an answer comes in time is left to the source. -/
structure Source where
  answer : (request : Request) → (earlier : Nat) → Answer

/-- A request that was made, and what became of it. -/
structure Exchange where
  request : Request
  answer : Answer
deriving DecidableEq, Repr

/-- Whether the request came to the source at all. -/
def Exchange.arrived (e : Exchange) : Bool :=
  match e.answer with
  | .failed f => !f.isConnect
  | _ => true

inductive FetchError
  | refused (r : Refusal)
  /-- There is nothing to ask. -/
  | impossible (lookup : String) (f : LookupFault)
  | http (lookup : String) (f : HttpFailure)
  | status (s : HttpStatus)
  | undecodable (cause : String)
  /-- The limit on the number of requests has no place in 32 bits. This is not reported like other
  errors: the program ends here, with all that is under way. -/
  | overflow
deriving DecidableEq, Repr

namespace FetchError

/-- The message, and after it the causes from the nearest to the farthest. -/
def chain : FetchError → List String
  | refused r => [r.message]
  | impossible lookup f => ("request to " ++ lookup ++ " failed") :: f.chain
  | http lookup f => ("request to " ++ lookup ++ " failed") :: f.chain
  | status s => ["schema source returned HTTP " ++ s.text]
  | undecodable cause => [(DocumentError.undecodable cause).message, cause]
  | overflow => ["attempt to add with overflow"]

def message (e : FetchError) : String := e.chain.headD ""

/-- Worth another request. -/
def isTransient : FetchError → Bool
  | http _ f => f.isConnect || f.isTimeout
  | status s => s.isServerError
  | _ => false

def ofDocument : DocumentError → FetchError
  | .undecodable cause => undecodable cause
  | .refused r => refused r

end FetchError

namespace SourceSettings

variable [JsonWording]

/-- The status of an answer counts before its body is read. -/
def outcome (s : SourceSettings) : Answer → Except FetchError InterfaceDocument
  | .failed f => .error (.http s.lookupAddress f)
  | .brokenOff status f =>
    if status.isSuccess then .error (.http s.lookupAddress f) else .error (.status status)
  | .reply status body =>
    if status.isSuccess then (InterfaceDocument.ofText? body).mapError FetchError.ofDocument
    else .error (.status status)

/-- One request, which comes after those already made. -/
def ask (source : Source) (request : Request) (made : List Exchange) : Exchange :=
  ⟨request, source.answer request (made.countP (·.request.id == request.id))⟩

/-- Asks until the outcome is not transient, but not more than `more` times again. -/
def fetchFrom (s : SourceSettings) (source : Source) (request : Request) (more : Nat)
    (made : List Exchange) : Except FetchError InterfaceDocument × List Exchange :=
  let exchange := ask source request made
  let made := made ++ [exchange]
  match s.outcome exchange.answer with
  | .ok d => (.ok d, made)
  | .error e =>
    match more with
    | 0 => (.error e, made)
    | more + 1 =>
      if e.isTransient then s.fetchFrom source request more made else (.error e, made)

/-- The limit on the number of requests, if it has a place in 32 bits. Sums of machine words are
checked; a build without the checks would come round to zero instead, which allows for one
request. -/
def attempts? (s : SourceSettings) : Option UInt32 :=
  if s.retries.toNat + 1 < UInt32.size then some (s.retries + 1) else none

/-- The request that a fetch begins with, and how many may follow it. The limit is computed before
anything else. -/
def start (s : SourceSettings) (id : String) : Except FetchError (Request × Nat) :=
  match s.attempts? with
  | none => .error .overflow
  | some attempts =>
    match s.request id with
    | .error f => .error (.impossible s.lookupAddress f)
    | .ok request => .ok (request, attempts.toNat - 1)

/-- The document of an interface, and all requests made up to then. -/
def fetch (s : SourceSettings) (source : Source) (id : String) (made : List Exchange) :
    Except FetchError InterfaceDocument × List Exchange :=
  match s.start id with
  | .error e => (.error e, made)
  | .ok (request, more) => s.fetchFrom source request more made

end SourceSettings
end TypedApi
