import TypedApi.Config.Basic
import TypedApi.Toml.Document

/-!
Reading a configuration from TOML. Records have the known fields and no others, or are arrays of
the values of their fields; a word of a fixed choice is written in lower case.
-/
namespace TypedApi.Config

open Toml (Value)

/-- The fields that are given. Of an array, what goes beyond the fields does not count. -/
def fields? (names : List String) : Value → Option (List (String × Value))
  | .table entries => if entries.all fun e => names.contains e.1 then some entries else none
  | .array items => some (names.zip items)
  | _ => none

def field? {α : Type} (fields : List (String × Value)) (name : String) (missing : α)
    (read : Value → Option α) : Option α :=
  match fields.lookup name with
  | some v => read v
  | none => some missing

def text? : Value → Option String
  | .string s => some s
  | _ => none

def optionalText? (fields : List (String × Value)) (name : String) : Option (Option String) :=
  field? fields name none fun v => (text? v).map some

/-- A number that is not negative and stays below a bound. -/
def below? (bound : Nat) : Value → Option Nat
  | .integer (some n) => if 0 ≤ n ∧ n < bound then some n.toNat else none
  | _ => none

def isEmptyValue : Value → Bool
  | .table [] | .array [] => true
  | _ => false

/-- One of a fixed choice of words; it may also be the key of a table with one empty entry. -/
def choice? {α : Type} (words : List (String × α)) : Value → Option α
  | .string s => words.lookup s
  | .table [(key, v)] => if isEmptyValue v then words.lookup key else none
  | _ => none

def sourceSection? (v : Value) : Option SourceSection := do
  let fields ← fields? ["base_url", "token", "timeout_secs", "retries"] v
  return {
    baseUrl := ← optionalText? fields "base_url"
    token := ← optionalText? fields "token"
    timeout := ← field? fields "timeout_secs" defaultTimeout (below? UInt64.size)
    retries := ← field? fields "retries" defaultRetries fun v =>
      (below? UInt32.size v).map UInt32.ofNat }

def roleSuffixWords : List (String × RoleSuffix) :=
  [RoleSuffix.short, .long].map fun r => (r.name, r)

def collisionWords : List (String × CollisionPolicy) :=
  [CollisionPolicy.suffix, .reject].map fun c => (c.name, c)

def namingSettings? (v : Value) : Option NamingSettings := do
  let fields ← fields? ["role_suffix", "collisions"] v
  return {
    roleSuffix := ← field? fields "role_suffix" .short (choice? roleSuffixWords)
    collisions := ← field? fields "collisions" .suffix (choice? collisionWords) }

/-- An id is a text, or a number that is not negative. -/
def id? : Value → Option String
  | .string s => some s
  | v => (below? UInt64.size v).map toString

def entry? (v : Value) : Option Entry := do
  let fields ← fields? ["id", "output", "request_path"] v
  return {
    id := ← (fields.lookup "id").bind id?
    output := ← (fields.lookup "output").bind text?
    requestPath := ← optionalText? fields "request_path" }

def entries? : Value → Option (List Entry)
  | .array items => items.mapM entry?
  | _ => none

def ofValue? (v : Value) : Option Config := do
  let fields ← fields? ["source", "naming", "interfaces"] v
  return {
    source := ← field? fields "source" {} sourceSection?
    naming := ← field? fields "naming" {} namingSettings?
    interfaces := ← field? fields "interfaces" [] entries? }

/-- The first fault of the entries, given the outputs of those before. -/
def entryFault? (earlier : List String) : List Entry → Option Fault
  | [] => none
  | e :: rest =>
    if Text.allBlank e.id then some .emptyId
    else if e.output = "" then some .emptyOutput
    else if earlier.any (FilePath.sameSteps e.output) then some (.sharedOutput e.output)
    else entryFault? (e.output :: earlier) rest

def fault? (c : Config) : Option Fault :=
  match c.source.baseUrl.filter fun url => !isWebAddress url with
  | some url => some (.badAddress url)
  | none => if c.source.timeout = 0 then some .noTimeout else entryFault? [] c.interfaces

/-- Reads and checks the text of a configuration file. -/
def ofText (text : String) : Except Error Config :=
  match (Toml.ofText? text).bind ofValue? with
  | none => .error .unparsable
  | some c =>
    match c.fault? with
    | some fault => .error (.faulty fault (Span.find? text fault.mark))
    | none => .ok c

end TypedApi.Config
