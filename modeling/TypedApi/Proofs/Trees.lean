import TypedApi.DeclarationTree

/-!
The listing of trees: places of a forest from those of its parts, and places under a function that
is applied to all declarations.
-/
namespace TypedApi.DeclarationTree

section Listing

mutual

theorem length_childPlacesFrom (start : Nat) (t : DeclarationTree) :
    (t.childPlacesFrom start).length = t.declarations.length := by
  match t with
  | ⟨d, ts⟩ => simp [childPlacesFrom, declarations, length_forestChildPlaces (start + 1) ts]

theorem length_forestChildPlaces (start : Nat) (ts : List DeclarationTree) :
    (forestChildPlaces start ts).length = (forestDeclarations ts).length := by
  match ts with
  | [] => rfl
  | t :: ts =>
    simp [forestChildPlaces, forestDeclarations, length_childPlacesFrom start t,
      length_forestChildPlaces (start + t.declarations.length) ts]

end

theorem forestDeclarations_append (ts us : List DeclarationTree) :
    forestDeclarations (ts ++ us) = forestDeclarations ts ++ forestDeclarations us := by
  induction ts with
  | nil => rfl
  | cons t ts ih =>
    rw [List.cons_append, forestDeclarations, forestDeclarations, ih, List.append_assoc]

theorem placesFrom_append (start : Nat) (ts us : List DeclarationTree) :
    placesFrom start (ts ++ us) =
      placesFrom start ts ++ placesFrom (start + (forestDeclarations ts).length) us := by
  induction ts generalizing start with
  | nil => rfl
  | cons t ts ih =>
    rw [List.cons_append, placesFrom, placesFrom, ih, forestDeclarations, List.length_append,
      List.cons_append, Nat.add_assoc]

theorem forestChildPlaces_append (start : Nat) (ts us : List DeclarationTree) :
    forestChildPlaces start (ts ++ us) =
      forestChildPlaces start ts ++
        forestChildPlaces (start + (forestDeclarations ts).length) us := by
  induction ts generalizing start with
  | nil => rfl
  | cons t ts ih =>
    rw [List.cons_append, forestChildPlaces, forestChildPlaces, ih, forestDeclarations,
      List.length_append, List.append_assoc, Nat.add_assoc]

end Listing

variable (f : Declaration → Declaration)

mutual

def map : DeclarationTree → DeclarationTree
  | ⟨d, children⟩ => ⟨f d, forestMap children⟩

def forestMap : List DeclarationTree → List DeclarationTree
  | [] => []
  | t :: ts => t.map :: forestMap ts

end

mutual

theorem declarations_map (t : DeclarationTree) : (t.map f).declarations = t.declarations.map f := by
  obtain ⟨d, children⟩ := t
  rw [map, declarations, declarations, forestDeclarations_map children, List.map_cons]

theorem forestDeclarations_map (ts : List DeclarationTree) :
    forestDeclarations (forestMap f ts) = (forestDeclarations ts).map f := by
  match ts with
  | [] => rfl
  | t :: ts =>
    rw [forestMap, forestDeclarations, forestDeclarations, declarations_map t,
      forestDeclarations_map ts, List.map_append]

end

theorem placesFrom_map (ts : List DeclarationTree) (start : Nat) :
    placesFrom start (forestMap f ts) = placesFrom start ts := by
  induction ts generalizing start with
  | nil => rfl
  | cons t ts ih =>
    rw [forestMap, placesFrom, placesFrom, declarations_map, List.length_map, ih]

mutual

theorem childPlacesFrom_map (t : DeclarationTree) (start : Nat) :
    (t.map f).childPlacesFrom start = t.childPlacesFrom start := by
  obtain ⟨d, children⟩ := t
  rw [map, childPlacesFrom, childPlacesFrom, placesFrom_map, forestChildPlaces_map children]

theorem forestChildPlaces_map (ts : List DeclarationTree) (start : Nat) :
    forestChildPlaces start (forestMap f ts) = forestChildPlaces start ts := by
  match ts with
  | [] => rfl
  | t :: ts =>
    rw [forestMap, forestChildPlaces, forestChildPlaces, declarations_map, List.length_map,
      childPlacesFrom_map t, forestChildPlaces_map ts]

end

theorem forestMap_append (ts us : List DeclarationTree) :
    forestMap f (ts ++ us) = forestMap f ts ++ forestMap f us := by
  induction ts with
  | nil => rfl
  | cons t ts ih => rw [List.cons_append, forestMap, forestMap, ih, List.cons_append]

end TypedApi.DeclarationTree
