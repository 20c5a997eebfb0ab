import TypedApi.Code.Builder
import TypedApi.DeclarationArena
import TypedApi.DeclarationTree
import TypedApi.TypeScript.Literal
import TypedApi.TypeScript.TypeText

/-!
Exported interfaces, and how a declaration becomes one.
-/
namespace TypedApi.TypeScript

open Code (Fragment Builder)

structure InterfaceMember where
  name : String
  type : String
  optional : Bool := false
  doc : Option String := none

structure Interface where
  name : String
  doc : Option String := none
  members : List InterfaceMember := []

def docFragments : Option String → List Fragment
  | some s => [.ofDoc s]
  | none => []

def InterfaceMember.fragments (m : InterfaceMember) : List Fragment :=
  let mark := if m.optional then "?: " else ": "
  docFragments m.doc ++ [.line (propertyKey m.name ++ mark ++ m.type ++ ";")]

def Interface.fragments (i : Interface) : List Fragment :=
  let head := "export interface " ++ i.name ++ " \x7b"
  docFragments i.doc ++
    if i.members.isEmpty then [.line (head ++ "\x7d")]
    else [.block head (i.members.flatMap (·.fragments)) (some "\x7d")]

def Interface.ofDeclaration (d : Declaration) : Interface :=
  ⟨d.name, d.doc, d.fields.map fun f => ⟨f.name, typeText f.type, f.optional, f.doc⟩⟩

def declarationFragments (d : Declaration) : List Fragment := (Interface.ofDeclaration d).fragments

/-- The declarations as interfaces, one blank line between any two. -/
def emitDeclarations (b : Builder) (ds : List Declaration) : Builder :=
  b.applyGroups (ds.map declarationFragments)

def emitTree (b : Builder) (t : DeclarationTree) : Builder := emitDeclarations b t.emissionOrder

def emitArena? (b : Builder) (a : DeclarationArena) : Option Builder :=
  a.emissionOrder?.map (emitDeclarations b)

end TypedApi.TypeScript
