import TypedApi.Files.Path
import TypedApi.Naming.Policy
import TypedApi.Text.Lines

/-!
The configuration file: where documents come from, how names are made, and which interfaces are
generated into which directories.
-/
namespace TypedApi

namespace Config

def fileName : String := "yapit.toml"

def defaultTimeout : Nat := 10

def defaultRetries : UInt32 := 1

/-- The section `source`. -/
structure SourceSection where
  baseUrl : Option String := none
  token : Option String := none
  /-- In seconds. -/
  timeout : Nat := defaultTimeout
  retries : UInt32 := defaultRetries
deriving DecidableEq, Repr

/-- One of the `interfaces`. -/
structure Entry where
  id : String
  output : String
  requestPath : Option String := none
deriving DecidableEq, Repr

end Config

structure Config where
  source : Config.SourceSection := {}
  naming : NamingSettings := {}
  interfaces : List Config.Entry := []
deriving DecidableEq, Repr

/-- A base address has to be one of the web. -/
def isWebAddress (url : String) : Bool :=
  "http://".toList.isPrefixOf url.toList || "https://".toList.isPrefixOf url.toList

def badAddressMessage (url : String) : String :=
  "base_url '" ++ url ++ "' must start with http:// or https://"

namespace Config

/-- What may be wrong with a file that can be parsed. -/
inductive Fault
  | badAddress (url : String)
  | noTimeout
  | emptyId
  | emptyOutput
  | sharedOutput (output : String)
deriving DecidableEq, Repr

namespace Fault

def message : Fault → String
  | badAddress url => badAddressMessage url
  | noTimeout => "timeout_secs must be at least 1"
  | emptyId => "interface id must not be empty"
  | emptyOutput => "output path must not be empty"
  | sharedOutput output => "output '" ++ output ++ "' is used by more than one interface"

/-- The text in the file that a fault is shown at. -/
def mark : Fault → String
  | badAddress url => url
  | noTimeout => "timeout_secs"
  | emptyId => "id"
  | emptyOutput => "output"
  | sharedOutput output => output

end Fault

/-- A stretch of a text, in bytes. -/
structure Span where
  offset : Nat
  length : Nat
deriving DecidableEq, Repr

/-- The first occurrence of `mark` in a text. -/
def Span.find? (text mark : String) : Option Span :=
  (Text.before? mark.toList text.toList).map fun before =>
    ⟨(String.ofList before).utf8ByteSize, mark.utf8ByteSize⟩

/-- A setting without which nothing can be generated. -/
inductive Setting
  | interfaces | baseUrl | id | output
deriving DecidableEq, Repr

namespace Setting

def name : Setting → String
  | interfaces => "interfaces"
  | baseUrl => "source.base_url"
  | id => "id"
  | output => "output"

def hint : Setting → String
  | interfaces => "add at least one [[interfaces]] entry with an id and an output"
  | baseUrl => "pass --base-url or set base_url under [source] in yapit.toml"
  | id => "pass --id with the interface id"
  | output => "pass --output with a target directory"

end Setting

/-- Why there is nothing to run. -/
inductive Error
  | unreadable (path : String)
  | unparsable
  | faulty (fault : Fault) (span : Option Span)
  | missing (setting : Setting)
  | badAddress (url : String)
  | noTimeout
deriving DecidableEq, Repr

namespace Error

def message : Error → String
  | unreadable path => "failed to read '" ++ path ++ "'"
  | unparsable => "failed to parse yapit.toml"
  | faulty fault _ => fault.message
  | missing s => "missing required setting '" ++ s.name ++ "'"
  | badAddress url => "invalid value for 'source.base_url': " ++ badAddressMessage url
  | noTimeout => "invalid value for 'source.timeout_secs': must be at least 1"

def code : Error → Option String
  | unreadable _ => none
  | unparsable => some "yapit::parse_error"
  | faulty _ _ => some "yapit::validation_error"
  | missing _ => some "yapit::missing_config"
  | badAddress _ | noTimeout => some "yapit::invalid_config"

def help : Error → Option String
  | unreadable _ => some "pass --config or create a yapit.toml in the current directory"
  | missing s => some s.hint
  | _ => none

end Error
end Config
end TypedApi
