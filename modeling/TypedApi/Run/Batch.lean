import TypedApi.Run.Generate

/-!
Generating many interfaces. All of them are under way together, and whichever has its answer goes
on. Each is on its own: a failure stops none of the others, and only a panic stops them all.
-/
namespace TypedApi.Run

/-- How far an invocation has come that is under way. -/
inductive Progress
  | waiting
  /-- The next request, and how many may follow it. -/
  | asking (request : Request) (more : Nat)
deriving DecidableEq, Repr

/-- An invocation that is under way, with its place in the batch. -/
structure Task where
  place : Nat
  invocation : Invocation
  progress : Progress := .waiting

/-- The program has ended here. -/
def panicked : Except Error Report.Generation → Bool
  | .ok _ => false
  | .error e => e.isPanic

/-- Invocations that are run together. -/
structure Joined where
  tasks : List Task
  /-- Places and results of those that are through, in the order of completion. -/
  completed : List (Nat × Except Error Report.Generation) := []
  world : World := {}

section

variable [JsonWording] (source : Source) (mode : Mode)

/-- The outcome of each invocation when one is run after the other. -/
def generateAll (w : World) :
    List Invocation → List (Invocation × Except Error Report.Generation) × World
  | [] => ([], w)
  | i :: is =>
    let (result, w) := generate source i mode w
    let (results, w) := generateAll w is
    ((i, result) :: results, w)

namespace Task

/-- The rest of the fetch, if nothing else goes on meanwhile. -/
def fetch (t : Task) (made : List Exchange) :
    Except FetchError InterfaceDocument × List Exchange :=
  match t.progress with
  | .waiting => t.invocation.source.fetch source t.invocation.id made
  | .asking request more => t.invocation.source.fetchFrom source request more made

/-- Goes on to the end. -/
def drive (t : Task) (w : World) : Except Error Report.Generation × World :=
  let (answer, made) := t.fetch source w.made
  let (result, files) := finish t.invocation mode answer w.files
  (result, ⟨files, made⟩)

/-- Goes on up to the answer of the next request, or to the end. -/
def poll (t : Task) (w : World) : (Progress ⊕ Except Error Report.Generation) × World :=
  match t.progress with
  | .waiting =>
    match t.invocation.source.start t.invocation.id with
    | .error e => (.inr (.error (.fetch t.invocation.id e)), w)
    | .ok (request, more) => (.inl (.asking request more), w)
  | .asking request more =>
    let exchange := SourceSettings.ask source request w.made
    let made := w.made ++ [exchange]
    let answer := t.invocation.source.outcome exchange.answer
    match answer, more with
    | .error e, more + 1 =>
      if e.isTransient then (.inl (.asking request more), ⟨w.files, made⟩)
      else (.inr (.error (.fetch t.invocation.id e)), ⟨w.files, made⟩)
    | _, _ =>
      let (result, files) := finish t.invocation mode answer w.files
      (.inr result, ⟨files, made⟩)

end Task

namespace Joined

def ofInvocations (is : List Invocation) (w : World) : Joined where
  tasks := is.mapIdx fun place invocation => { place, invocation }
  world := w

/-- A panic has ended the program. -/
def isStopped (j : Joined) : Bool := j.completed.any (panicked ·.2)

/-- The invocation at the place has come so far. -/
def goOn (j : Joined) (place : Nat) (progress : Progress) (world : World) : Joined where
  tasks := j.tasks.map fun t => if t.place == place then { t with progress } else t
  completed := j.completed
  world

/-- The invocation at the place is through. -/
def complete (j : Joined) (place : Nat) (result : Except Error Report.Generation)
    (world : World) : Joined where
  tasks := j.tasks.filter (·.place != place)
  completed := j.completed ++ [(place, result)]
  world

/-- The invocation at the place takes its turn, if it is still under way. -/
def advance (turn : Task → World → (Progress ⊕ Except Error Report.Generation) × World)
    (j : Joined) (place : Nat) : Joined :=
  if j.isStopped then j
  else match j.tasks.find? (·.place == place) with
    | none => j
    | some t =>
      match turn t j.world with
      | (.inl progress, world) => j.goOn place progress world
      | (.inr result, world) => j.complete place result world

def poll : Joined → Nat → Joined := advance (Task.poll source mode)

def drive : Joined → Nat → Joined :=
  advance fun t w => (t.drive source mode w).map .inr id

/-- The results in the order of the places. -/
def results (j : Joined) (count : Nat) : List (Except Error Report.Generation) :=
  (List.range count).filterMap fun place => j.completed.lookup place

end Joined

/-- Runs invocations together. First they take these turns, each up to the answer of a request; then
those that are left are brought to their ends, one after the other. So every way in which their
answers may come in is one of these runs. -/
def joinAll (turns : List Nat) (is : List Invocation) (w : World) : Joined :=
  let j := turns.foldl (Joined.poll source mode) (.ofInvocations is w)
  (List.range is.length).foldl (Joined.drive source mode) j

end

def generated : Invocation × Except Error Report.Generation → Option Report.Generation
  | (_, .ok g) => some g
  | (_, .error _) => none

def failure : Invocation × Except Error Report.Generation → Option (String × String)
  | (_, .ok _) => none
  | (i, .error e) => some (i.id, e.text)

def batchReport (results : List (Invocation × Except Error Report.Generation)) : Report.Batch :=
  ⟨results.filterMap generated, results.filterMap failure⟩

/-- The report on invocations that were run together, unless a panic has ended them. -/
def batch [JsonWording] (source : Source) (turns : List Nat) (is : List Invocation) (mode : Mode)
    (w : World) : Option Report.Batch × World :=
  let j := joinAll source mode turns is w
  (if j.isStopped then none else some (batchReport (is.zip (j.results is.length))), j.world)

end TypedApi.Run
