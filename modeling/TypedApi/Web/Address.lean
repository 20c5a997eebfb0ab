import TypedApi.Web.Domain
import TypedApi.Web.Form
import TypedApi.Web.IpAddress

/-!
Addresses of the web, read leniently and written in one way: scheme and host in small letters, no
port that goes without saying, no steps to the directory above, all else percent encoded.
-/
namespace TypedApi

inductive WebScheme
  | http | https
deriving DecidableEq, Repr

namespace WebScheme

def name : WebScheme → String
  | http => "http"
  | https => "https"

def defaultPort : WebScheme → Nat
  | http => 80
  | https => 443

end WebScheme

inductive WebHost
  | domain (name : String)
  | ipv4 (a : Ipv4)
  | ipv6 (a : Ipv6)
deriving DecidableEq, Repr

def WebHost.text : WebHost → String
  | domain name => name
  | ipv4 a => a.text
  | ipv6 a => "[" ++ a.text ++ "]"

/-- The parts of an address. All texts in it are encoded. -/
structure WebAddress where
  scheme : WebScheme
  username : String := ""
  /-- Empty if there is none. -/
  password : String := ""
  host : WebHost
  /-- None for the one that goes without saying. -/
  port : Option Nat := none
  /-- What stands between slashes; never an empty list. -/
  segments : List String := [""]
  query : Option String := none
  fragment : Option String := none
deriving DecidableEq, Repr

/-- Why a text is no address that can be asked. -/
inductive AddressFault
  /-- There is no scheme. -/
  | relative
  | otherScheme
  | emptyHost
  | badDomain
  | badIpv4
  | badIpv6
  | badPort
deriving DecidableEq, Repr

def AddressFault.message : AddressFault → String
  | relative => "relative URL without a base"
  | otherScheme => "URL scheme is not allowed"
  | emptyHost => "empty host"
  | badDomain => "invalid international domain name"
  | badIpv4 => "invalid IPv4 address"
  | badIpv6 => "invalid IPv6 address"
  | badPort => "invalid port number"

namespace WebHost

private def orFault {α : Type} (fault : AddressFault) : Option α → Except AddressFault α
  | some a => .ok a
  | none => .error fault

/-- Brackets hold a long address; a name that ends in a number is a short one. -/
def ofChars (s : List Char) : Except AddressFault WebHost :=
  match s with
  | [] => .error .emptyHost
  | '[' :: rest =>
    if rest.getLast? == some ']' then .ipv6 <$> orFault .badIpv6 (Ipv6.ofChars? rest.dropLast)
    else .error .badIpv6
  | _ => do
    let name ← orFault .badDomain ((Percent.decodeText? s).bind fun t => Domain.ofChars? t.toList)
    if name.isEmpty then .error .emptyHost
    else if Ipv4.endsInNumber name then .ipv4 <$> orFault .badIpv4 (Ipv4.ofChars? name)
    else return .domain (.ofList name)

end WebHost

namespace WebAddress

/-! The characters that each part encodes. -/

def escapedInQuery : List Char := " \"#<>'".toList

def escapedInFragment : List Char := " \"<>`".toList

def escapedInPath : List Char := escapedInFragment ++ ['#', '?', '^', '{', '}']

def escapedInUser : List Char := escapedInPath ++ "/:;=@[\\]|".toList

private def encoded (escaped s : List Char) : String := .ofList (Percent.encode escaped s)

/-- Spaces and controls at the ends do not count, nor do tabs and line breaks anywhere. -/
private def clean (s : List Char) : List Char :=
  let isEdge (c : Char) := c.toNat ≤ 0x20
  let trimmed := ((s.dropWhile isEdge).reverse.dropWhile isEdge).reverse
  trimmed.filter fun c => c != '\t' && c != '\n' && c != '\r'

private def isSchemeChar (c : Char) : Bool := c.isAlphanum || c == '+' || c == '-' || c == '.'

private def splitScheme? (s : List Char) : Option (String × List Char) :=
  let name := s.takeWhile isSchemeChar
  match s.drop name.length with
  | ':' :: rest =>
    if name.head?.any Char.isAlpha then some (.ofList (name.map Char.toLower), rest) else none
  | _ => none

private def isSlash (c : Char) : Bool := c == '/' || c == '\\'

private def endsAuthority (c : Char) : Bool := isSlash c || c == '?' || c == '#'

/-- Username, password, and what stands after the last at sign. -/
private def splitUser (authority : List Char) : (String × String) × List Char :=
  let host := (authority.reverse.takeWhile (· != '@')).reverse
  let user := (authority.take (authority.length - host.length)).dropLast
  let name := user.takeWhile (· != ':')
  let password := user.drop (name.length + 1)
  ((encoded escapedInUser name, encoded escapedInUser password), host)

/-- Splits at the first colon that is not in brackets. -/
private def splitPort (inBrackets : Bool) : List Char → List Char × Option (List Char)
  | [] => ([], none)
  | c :: rest =>
    if c == ':' && !inBrackets then ([], some rest)
    else
      let (host, port) := splitPort (c == '[' || (inBrackets && c != ']')) rest
      (c :: host, port)

/-- The port, where it is not that of the scheme. -/
private def portOf (scheme : WebScheme) : Option (List Char) → Except AddressFault (Option Nat)
  | none | some [] => .ok none
  | some s =>
    let n := Text.natural 10 s
    if !s.all Char.isDigit || n > 0xFFFF then .error .badPort
    else .ok (if n = scheme.defaultPort then none else some n)

/-- One dot or two, each of which may be encoded. -/
private def isDots (count : Nat) (s : List Char) : Bool :=
  match count, s with
  | 0, [] => true
  | count + 1, '.' :: rest => isDots count rest
  | count + 1, '%' :: '2' :: e :: rest => (e == 'e' || e == 'E') && isDots count rest
  | _, _ => false

/-- A letter and a colon or bar name a drive, which a step upwards does not leave. -/
private def isDrive : List Char → Bool
  | [c, d] => c.isAlpha && (d == ':' || d == '|')
  | _ => false

private def leave : List (List Char) → List (List Char)
  | [] => []
  | s :: above => if isDrive s then s :: above else above

/-- Carries out steps within a path. The segments so far stand in reverse order. A step at the end
leaves an empty segment. -/
private def walk (above : List (List Char)) : List (List Char) → List (List Char)
  | [] => above.reverse
  | s :: rest =>
    let arrived (above : List (List Char)) := if rest.isEmpty then [] :: above else above
    if isDots 2 s then walk (arrived (leave above)) rest
    else if isDots 1 s then walk (arrived above) rest
    else walk (s :: above) rest

private def segmentsOf (path : List Char) : List String :=
  let steps := match path with
    | c :: rest => Text.pieces isSlash (if isSlash c then rest else c :: rest)
    | [] => [[]]
  (walk [] (steps.map (Percent.encode escapedInPath))).map String.ofList

private def partAfter (mark : Char) (escaped : List Char) : List Char → Option String
  | [] => none
  | c :: rest => if c == mark then some (encoded escaped rest) else none

private def ofParts (scheme : WebScheme) (s : List Char) : Except AddressFault WebAddress := do
  let authority := s.takeWhile fun c => !endsAuthority c
  let ((username, password), host) := splitUser authority
  let (host, port) := splitPort false host
  let host ← WebHost.ofChars host
  let port ← portOf scheme port
  let s := s.drop authority.length
  let path := s.takeWhile fun c => c != '?' && c != '#'
  let s := s.drop path.length
  let query := s.takeWhile (· != '#')
  return {
    scheme, username, password, host, port
    segments := segmentsOf path
    query := partAfter '?' escapedInQuery query
    fragment := partAfter '#' escapedInFragment (s.drop query.length) }

/-- Any number of slashes, also none, may stand before the host. -/
def ofText (text : String) : Except AddressFault WebAddress :=
  match splitScheme? (clean text.toList) with
  | none => .error .relative
  | some ("http", s) => ofParts .http (s.dropWhile isSlash)
  | some ("https", s) => ofParts .https (s.dropWhile isSlash)
  | some _ => .error .otherScheme

private def userText (a : WebAddress) : String :=
  if a.username = "" && a.password = "" then ""
  else a.username ++ (if a.password = "" then "" else ":" ++ a.password) ++ "@"

private def marked (mark : String) : Option String → String
  | some s => mark ++ s
  | none => ""

/-- Host and port. -/
def authority (a : WebAddress) : String := a.host.text ++ marked ":" (a.port.map toString)

/-- Path and query. -/
def resource (a : WebAddress) : String := "/" ++ "/".intercalate a.segments ++ marked "?" a.query

def text (a : WebAddress) : String :=
  a.scheme.name ++ "://" ++ a.userText ++ a.authority ++ a.resource ++ marked "#" a.fragment

/-- Adds pairs at the end of the query. -/
def addQuery (a : WebAddress) (pairs : List (String × String)) : WebAddress :=
  let added := Form.encodePairs pairs
  match a.query with
  | none | some "" => { a with query := some added }
  | some q => { a with query := some (q ++ "&" ++ added) }

/-- Takes username and password away, which do not belong to what is asked for; they stay if they
stand for no text. -/
def withoutUser (a : WebAddress) : WebAddress :=
  match Percent.decodeText? a.username.toList, Percent.decodeText? a.password.toList with
  | some name, password =>
    if name = "" && password.isNone then a else { a with username := "", password := "" }
  | none, _ => a

/-- A fragment is for the reader of a document and is not sent. -/
def withoutFragment (a : WebAddress) : WebAddress := { a with fragment := none }

/-- Hosts whose names have quotes or braces are addresses, but no request can name them. -/
def isAskable (a : WebAddress) : Bool :=
  !a.authority.toList.any ['"', '`', '{', '}'].contains

end WebAddress
end TypedApi
