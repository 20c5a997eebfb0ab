import Std.Async.DNS
import Std.Async.TCP
import TypedApi.CommandLine.Replay
import TypedApi.Source.Http

/-!
The program: looks at the files that a command line is about, runs it, and carries out what the run
asks for.
-/
namespace TypedApi.Main

open Std.Async CommandLine

attribute [local instance] JsonWording.terse

def diskPath (location : List String) : String := "/" ++ "/".intercalate location

/-- What is found at a location. A file that is no text counts as an empty one. -/
def inspect (location : List String) : IO (Option FileEntry) := do
  match ← (IO.FS.readFile (diskPath location)).toBaseIO with
  | .ok content => return some (.file content)
  | .error (.noFileOrDirectory ..) => return none
  | .error (.userError _) => return some (.file "")
  | .error _ => return some .directory

/-- Adds what is found on the way of a path. -/
def look (files : FileTree) (path : String) : IO FileTree := do
  let mut files := files
  for location in files.way path do
    if let some entry ← inspect location then files := files.put location entry
  return files

/-- The directory that the program was started in, and those above it. -/
def startTree : IO FileTree := do
  let here := (FilePath.parts (← IO.currentDir).toString).filter (· ≠ "")
  let above := (List.range here.length).map fun n => here.take (n + 1)
  return ⟨above.map fun location => (location, .directory), here⟩

partial def receive (client : TCP.Socket.Client) (received : ByteArray) : Async ByteArray := do
  match ← client.recv? 65536 with
  | some bytes => receive client (received ++ bytes)
  | none => return received

def socketAddress (address : Std.Net.IPAddr) (port : UInt16) : Std.Net.SocketAddress :=
  match address with
  | .v4 a => .v4 ⟨a, port⟩
  | .v6 a => .v6 ⟨a, port⟩

/-- A connection to the first address of the host. -/
def connect (target : HttpTarget) : Async TCP.Socket.Client := do
  let addresses ← DNS.getAddrInfo target.host (toString target.port)
  match addresses[0]? with
  | none => throw (.userError "no address")
  | some address =>
    let client ← TCP.Socket.Client.mk
    client.connect (socketAddress address (UInt16.ofNat target.port))
    return client

def exchangeOver (client : TCP.Socket.Client) (target : HttpTarget) (address : WebAddress) :
    Async Answer := do
  client.send target.request.toUTF8
  return .ofReceived address ((String.fromUTF8? (← receive client .empty)).getD "")

/-- Makes one request. -/
def ask (address : WebAddress) : IO Answer := do
  match HttpTarget.ofAddress? address with
  | none => return .failed (.unreachable address)
  | some target =>
    match ← (connect target).block.toBaseIO with
    | .error _ => return .failed (.unreachable address)
    | .ok client =>
      match ← (exchangeOver client target address).block.toBaseIO with
      | .ok answer => return answer
      | .error _ => return .failed (.dropped address)

/-- Repeats the run until all its requests are answered. -/
partial def runAll (command : Command) (files : FileTree) (known : List Exchange) :
    IO (Outcome × FileTree) := do
  let (outcome, world) := runCommand (knownSource known) [] command ⟨files, []⟩
  match nextRequest? known world.made with
  | none => return (outcome, world.files)
  | some e => runAll command files (known ++ [{ e with answer := ← ask e.request.address }])

def carryOut (changes : List (List String × FileEntry)) : IO Unit := do
  for (location, entry) in changes do
    match entry with
    | .directory => IO.FS.createDirAll (diskPath location)
    | .file content => IO.FS.writeFile (diskPath location) content

def errorText (e : Config.Error) : String :=
  "error: " ++ e.message ++ "\n" ++
    match e.help with
    | some h => "help: " ++ h ++ "\n"
    | none => ""

def usageText : String :=
  "usage: yapit [-v] (generate | batch | check) [options]\n"

def present (outcome : Outcome) : IO UInt32 := do
  let (out, err) := match outcome with
    | .done o => (o.out, o.err)
    | .failed o message => (o.out, o.err ++ message ++ "\n")
    | .misconfigured e => ("", errorText e)
    | .stopped .usage => ("", usageText)
    | .stopped .help => (usageText, "")
    | .stopped .version => (versionText, "")
    | .crashed => ("", "panic: " ++ FetchError.overflow.message ++ "\n")
  (← IO.getStdout).putStr out
  (← IO.getStderr).putStr err
  return outcome.exitCode.toUInt32

def start (args : List String) : IO UInt32 := do
  match Command.ofArgs (← IO.getEnv "YAPI_TOKEN") args with
  | .error s => present (.stopped s)
  | .ok command =>
    let files ← startTree
    let files ← match command.configPath? with
      | some path => look files path
      | none => pure files
    let files ← (command.outputPaths files).foldlM look files
    let (outcome, changed) ← runAll command files []
    carryOut (changed.since files)
    present outcome

end TypedApi.Main

def main (args : List String) : IO UInt32 := TypedApi.Main.start args
