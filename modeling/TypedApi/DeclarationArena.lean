import TypedApi.Declaration

/-!
Declarations in one list, with those nested in a declaration told by their places. A declaration is
pushed before its fields are known; they are set when all that is nested in it has been pushed.
-/
namespace TypedApi

/-- A declaration, and the places of those nested directly in it. -/
structure ArenaNode where
  declaration : Declaration
  children : List Nat := []
deriving DecidableEq, Repr

/-- Declarations in discovery order, the root first. -/
structure DeclarationArena where
  nodes : List ArenaNode
deriving DecidableEq, Repr

namespace ArenaNode

def addChildren (places : List Nat) (n : ArenaNode) : ArenaNode :=
  { n with children := n.children ++ places }

def setFields (fields : List Field) (n : ArenaNode) : ArenaNode :=
  { n with declaration := { n.declaration with fields } }

end ArenaNode

namespace DeclarationArena

def rootPlace : Nat := 0

def withRoot (d : Declaration) : DeclarationArena := ⟨[{ declaration := d }]⟩

/-- The arena with one declaration more, which is nested in the one at `parent`, and its place. -/
def push (a : DeclarationArena) (parent : Nat) (d : Declaration) : DeclarationArena × Nat :=
  let place := a.nodes.length
  let nodes := a.nodes ++ [{ declaration := d }]
  (⟨nodes.modify parent (·.addChildren [place])⟩, place)

def setFields (a : DeclarationArena) (place : Nat) (fields : List Field) : DeclarationArena :=
  ⟨a.nodes.modify place (·.setFields fields)⟩

/-- All declarations in discovery order. -/
def declarations (a : DeclarationArena) : List Declaration := a.nodes.map (·.declaration)

/-- For each declaration the places of those nested directly in it. -/
def childPlaces (a : DeclarationArena) : List (List Nat) := a.nodes.map (·.children)

def root? (a : DeclarationArena) : Option Declaration := a.declarations[rootPlace]?

/-- The declaration of that name. -/
def find? (a : DeclarationArena) (name : String) : Option Declaration :=
  a.declarations.find? (·.name == name)

/-- Adds what is nested at a place, of two children the later first, and then what stands there. It
fails at a place that is not there, and where it would not come to an end. -/
def visit (a : DeclarationArena) (place : Nat) (out : List Declaration) :
    Option (List Declaration) := do
  let node ← a.nodes[place]?
  let out ← node.children.reverse.foldlM (fun out child => a |>.visit child out) out
  return out ++ [node.declaration]
partial_fixpoint

/-- The declarations in the order in which they are written. -/
def emissionOrder? (a : DeclarationArena) : Option (List Declaration) := a.visit rootPlace []

end DeclarationArena
end TypedApi
