import TypedApi.Source.Fetch

/-!
Requests and replies as they travel over a connection that is closed after one reply.
-/
namespace TypedApi

/-- Whom to connect to, and what to ask for there. -/
structure HttpTarget where
  host : String
  port : Nat
  /-- The host as the request names it. -/
  authority : String
  resource : String
deriving DecidableEq, Repr

namespace HttpTarget

/-- Only plain connections are served. -/
def ofAddress? (a : WebAddress) : Option HttpTarget :=
  match a.scheme with
  | .https => none
  | .http =>
    let host := match a.host with
      | .ipv6 ip => ip.text
      | host => host.text
    some ⟨host, a.port.getD a.scheme.defaultPort, a.authority, a.resource⟩

def request (t : HttpTarget) : String :=
  "GET " ++ t.resource ++ " HTTP/1.0\r\nHost: " ++ t.authority ++
    "\r\nUser-Agent: yapit/0.1.0\r\nAccept: */*\r\nConnection: close\r\n\r\n"

end HttpTarget

namespace HttpFailure

def ofChain (address : WebAddress) (causes : List String) : HttpFailure where
  chain := ("error sending request for url (" ++ address.text ++ ")") :: causes

/-- There is no network. -/
def unreachable (address : WebAddress) : HttpFailure :=
  { ofChain address
      ["client error (Connect)", "tcp connect error", "Network is unreachable (os error 101)"] with
    isConnect := true }

/-- The connection is closed without a reply. -/
def dropped (address : WebAddress) : HttpFailure :=
  ofChain address ["client error (SendRequest)", "connection closed before message completed"]

end HttpFailure

/-- The status in the first line of a reply. -/
def HttpStatus.ofReply? (line : List Char) : Option HttpStatus :=
  match Text.pieces (· == ' ') line with
  | version :: code :: _ =>
    if "HTTP/1.".toList.isPrefixOf version && code.length == 3 && code.all Char.isDigit then
      some ⟨Text.natural 10 code⟩
    else none
  | _ => none

/-- The body begins after the first empty line. -/
def bodyOf : List Char → List Char
  | '\r' :: '\n' :: '\r' :: '\n' :: rest => rest
  | _ :: rest => bodyOf rest
  | [] => []

/-- What was received before the connection was closed; anything but a reply is as good as
nothing. -/
def Answer.ofReceived (address : WebAddress) (text : String) : Answer :=
  let cs := text.toList
  match HttpStatus.ofReply? (cs.takeWhile (· != '\r')) with
  | some status => .reply status (.ofList (bodyOf cs))
  | none => .failed (.dropped address)

end TypedApi
