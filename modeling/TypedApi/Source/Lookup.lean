import TypedApi.Config.Invocation
import TypedApi.Web.Address

/-!
The requests for interface documents.
-/
namespace TypedApi

/-- What the HTTP client is asked for. -/
structure Request where
  /-- The interface that is looked up. -/
  id : String
  address : WebAddress
  /-- The seconds that it may take until all of the answer is there. -/
  timeout : Nat
deriving DecidableEq, Repr

/-- The address as it is sent. -/
def Request.target (r : Request) : WebAddress := r.address.withoutFragment

/-- Why there is no request. -/
inductive LookupFault
  | noAddress (f : AddressFault)
  | notAskable (a : WebAddress)
deriving DecidableEq, Repr

/-- The messages from the nearest cause to the farthest. -/
def LookupFault.chain : LookupFault → List String
  | noAddress f => ["builder error", f.message]
  | notAskable a =>
    ["builder error for url (" ++ a.text ++ ")", "Parsed Url is not a valid Uri"]

namespace SourceSettings

/-- The address of the lookup as it is configured, without its query. -/
def lookupAddress (s : SourceSettings) : String :=
  withoutFinalSlashes s.baseUrl ++ "/api/interface/get"

def query (s : SourceSettings) (id : String) : List (String × String) :=
  ("id", id) :: (s.token.map fun t => ("token", t)).toList

/-- The request for an interface. -/
def request (s : SourceSettings) (id : String) : Except LookupFault Request :=
  match WebAddress.ofText s.lookupAddress with
  | .error f => .error (.noAddress f)
  | .ok a =>
    let a := a.withoutUser.addQuery (s.query id)
    if a.isAskable then .ok ⟨id, a, s.timeout⟩ else .error (.notAskable a)

end SourceSettings
end TypedApi
