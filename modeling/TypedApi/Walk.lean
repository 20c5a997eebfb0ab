import TypedApi.Diagnostic
import TypedApi.Naming.Registry

/-!
Walks: what the declaring of a payload asks of a registry, one request after the other. A walk is
data; running it against a registry gives its value, or the collision that ended it.
-/
namespace TypedApi

inductive Walk (α : Type) where
  | done (value : α)
  /-- Goes on with the name that is issued for the candidate. -/
  | allocating (candidate : String) (next : String → Walk α)
  | reporting (d : Diagnostic) (next : Walk α)
  /-- Goes on with the convention of the registry. -/
  | consulting (next : Convention → Walk α)

/-- What a walk leaves behind, also when it fails. -/
structure WalkState where
  registry : Registry
  diagnostics : List Diagnostic := []

/-- A candidate and the name that was issued for it. -/
structure Allocation where
  candidate : String
  name : String
deriving DecidableEq, Repr

/-- The candidate was taken. -/
def Allocation.isRenamed (a : Allocation) : Bool := a.name != a.candidate

namespace Walk

variable {α β : Type}

/-- Continues a walk at its value. -/
def andThen : Walk α → (α → Walk β) → Walk β
  | done a, f => f a
  | allocating candidate next, f => allocating candidate fun name => (next name).andThen f
  | reporting d next, f => reporting d (next.andThen f)
  | consulting next, f => consulting fun c => (next c).andThen f

instance : Monad Walk where
  pure := done
  bind := andThen

def allocate (candidate : String) : Walk String := allocating candidate done

def report (d : Diagnostic) : Walk Unit := reporting d (done ())

def convention : Walk Convention := consulting done

/-- Carries the walk out. Only a rejected collision of names ends it early. -/
def run : Walk α → WalkState → Except NamingError α × WalkState
  | done a, s => (.ok a, s)
  | allocating candidate next, s =>
    match s.registry.allocate candidate with
    | .ok (name, registry) => (next name).run { s with registry }
    | .error e => (.error e, s)
  | reporting d next, s => next.run { s with diagnostics := s.diagnostics ++ [d] }
  | consulting next, s => (next s.registry.convention).run s

instance : CoeFun (Walk α) fun _ => WalkState → Except NamingError α × WalkState := ⟨run⟩

/-- The allocations that a run makes, in order; one that is refused is not among them. -/
def allocations : Walk α → Registry → List Allocation
  | done _, _ => []
  | allocating candidate next, r =>
    match r.allocate candidate with
    | .ok (name, r) => ⟨candidate, name⟩ :: (next name).allocations r
    | .error _ => []
  | reporting _ next, r => next.allocations r
  | consulting next, r => (next r.convention).allocations r

end Walk
end TypedApi
