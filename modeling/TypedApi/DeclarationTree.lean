import TypedApi.Declaration

/-!
Declarations with those nested in them. Discovery order lists a declaration before what is nested
in it; emission order lists it after.
-/
namespace TypedApi

structure DeclarationTree where
  declaration : Declaration
  children : List DeclarationTree := []

namespace DeclarationTree

mutual

/-- All declarations in discovery order. -/
def declarations : DeclarationTree → List Declaration
  | ⟨d, children⟩ => d :: forestDeclarations children

def forestDeclarations : List DeclarationTree → List Declaration
  | [] => []
  | t :: ts => t.declarations ++ forestDeclarations ts

end

mutual

/-- All declarations in emission order: of two nested in the same one, the later comes first. -/
def emissionOrder : DeclarationTree → List Declaration
  | ⟨d, children⟩ => forestEmissionOrder children ++ [d]

def forestEmissionOrder : List DeclarationTree → List Declaration
  | [] => []
  | t :: ts => forestEmissionOrder ts ++ t.emissionOrder

end

def rootName (t : DeclarationTree) : String := t.declaration.name

def names (t : DeclarationTree) : List String := t.declarations.map (·.name)

/-- The declaration of that name. -/
def find? (t : DeclarationTree) (name : String) : Option Declaration :=
  t.declarations.find? (·.name == name)

def placesFrom (start : Nat) : List DeclarationTree → List Nat
  | [] => []
  | t :: ts => start :: placesFrom (start + t.declarations.length) ts

mutual

def childPlacesFrom (start : Nat) : DeclarationTree → List (List Nat)
  | ⟨_, children⟩ => placesFrom (start + 1) children :: forestChildPlaces (start + 1) children

def forestChildPlaces (start : Nat) : List DeclarationTree → List (List Nat)
  | [] => []
  | t :: ts => t.childPlacesFrom start ++ forestChildPlaces (start + t.declarations.length) ts

end

/-- For each declaration in discovery order, the places in that order of those nested directly
in it. -/
def childPlaces (t : DeclarationTree) : List (List Nat) := t.childPlacesFrom 0

end DeclarationTree
end TypedApi
