import TypedApi.Config.Basic

/-!
Invocations: all that is needed to generate one interface. A builder collects settings, of which
later ones win, and then checks that nothing is missing.
-/
namespace TypedApi

structure SourceSettings where
  baseUrl : String
  token : Option String
  /-- In seconds. -/
  timeout : Nat
  retries : UInt32
deriving DecidableEq, Repr

structure Invocation where
  source : SourceSettings
  id : String
  output : String
  /-- The address of the generated call, where it is not the documented path. -/
  requestPath : Option String
  naming : NamingSettings
deriving DecidableEq, Repr

structure InvocationBuilder where
  baseUrl : Option String := none
  token : Option String := none
  timeout : Option Nat := none
  retries : Option UInt32 := none
  id : Option String := none
  output : Option String := none
  requestPath : Option String := none
  naming : NamingSettings := {}
deriving DecidableEq, Repr

/-- The text without the slashes at its end. -/
def withoutFinalSlashes (s : String) : String :=
  Text.mapChars (fun cs => (cs.reverse.dropWhile (· == '/')).reverse) s

namespace InvocationBuilder

/-- The settings that all interfaces of a configuration share. -/
def ofConfig (c : Config) : InvocationBuilder where
  baseUrl := c.source.baseUrl
  token := c.source.token
  timeout := some c.source.timeout
  retries := some c.source.retries
  naming := c.naming

def withBaseUrl (b : InvocationBuilder) (url : String) : InvocationBuilder :=
  { b with baseUrl := some url }

/-- An absent token leaves the earlier one. -/
def withToken (b : InvocationBuilder) (token : Option String) : InvocationBuilder :=
  { b with token := token.or b.token }

def withId (b : InvocationBuilder) (id : String) : InvocationBuilder := { b with id := some id }

def withOutput (b : InvocationBuilder) (output : String) : InvocationBuilder :=
  { b with output := some output }

/-- An absent path leaves the earlier one. -/
def withRequestPath (b : InvocationBuilder) (path : Option String) : InvocationBuilder :=
  { b with requestPath := path.or b.requestPath }

def withNaming (b : InvocationBuilder) (naming : NamingSettings) : InvocationBuilder :=
  { b with naming }

def require (value : Option String) (setting : Config.Setting) : Except Config.Error String :=
  match value with
  | some s => .ok s
  | none => .error (.missing setting)

def build (b : InvocationBuilder) : Except Config.Error Invocation := do
  let baseUrl ← require (Text.notBlank b.baseUrl) .baseUrl
  if !isWebAddress baseUrl then throw (.badAddress baseUrl)
  let id ← require (Text.notBlank b.id) .id
  let output ← require (b.output.filter (· ≠ "")) .output
  let timeout := b.timeout.getD Config.defaultTimeout
  if timeout = 0 then throw .noTimeout
  return {
    source :=
      { baseUrl := withoutFinalSlashes baseUrl
        token := b.token.filter (· ≠ "")
        timeout
        retries := b.retries.getD Config.defaultRetries }
    id := Text.mapChars Text.trim id
    output
    requestPath := Text.notBlank b.requestPath
    naming := b.naming }

end InvocationBuilder

namespace Config

def entryInvocation (c : Config) (e : Entry) : Except Error Invocation :=
  (((InvocationBuilder.ofConfig c).withId e.id).withOutput e.output).withRequestPath
    e.requestPath |>.build

/-- One invocation for each entry, in their order. -/
def invocations (c : Config) : Except Error (List Invocation) :=
  if c.interfaces.isEmpty then .error (.missing .interfaces)
  else c.interfaces.mapM c.entryInvocation

end Config
end TypedApi
