import TypedApi.Toml.Value

/-!
Tables under construction. A table is opened once: by a header, or by the dotted keys that lead
through it. Values, and with them arrays and tables written in line, are closed from the start.
-/
namespace TypedApi.Toml

/-- How a table has come to be: on the way to another header, by a header of its own, or by a
dotted key. -/
inductive Origin
  | passed | header | dotted
deriving DecidableEq, Repr

mutual

inductive Item
  | value (v : Value)
  | table (t : Table)
  /-- An array of tables; only the last one is still open. -/
  | tables (closed : List Table) (last : Table)

inductive Table
  | mk (origin : Origin) (entries : List (String × Item))

end

namespace Table

def origin : Table → Origin
  | mk o _ => o

def entries : Table → List (String × Item)
  | mk _ es => es

def empty (o : Origin) : Table := mk o []

def get? (t : Table) (key : String) : Option Item := t.entries.lookup key

/-- Sets an entry, at its place if there is one and else at the end. -/
def put (t : Table) (key : String) (item : Item) : Table :=
  if t.entries.any (·.1 == key) then
    mk t.origin (t.entries.map fun e => if e.1 == key then (key, item) else e)
  else mk t.origin (t.entries ++ [(key, item)])

/-- Changes the table at the end of a path. Tables that are missing on the way are made; a dotted
key may not pass through a table that a header has opened. -/
def update (dotted : Bool) (change : Table → Option Table) : List String → Table → Option Table
  | [], t => change t
  | key :: path, t =>
    match t.get? key with
    | none => do
      let sub ← update dotted change path (empty (if dotted then .dotted else .passed))
      return t.put key (.table sub)
    | some (.value _) => none
    | some (.tables closed last) => do
      return t.put key (.tables closed (← update dotted change path last))
    | some (.table sub) =>
      if dotted && sub.origin == .header then none
      else do return t.put key (.table (← update dotted change path sub))

/-- Adds an entry; an entry of that key must not be there. The table is the one that is open or
one that dotted keys have made. -/
def assign (path : List String) (v : Value) (t : Table) : Option Table :=
  match path.getLast? with
  | none => none
  | some key =>
    let way := path.dropLast
    update true (fun t =>
      if (t.origin == .dotted) == way.isEmpty || (t.get? key).isSome then none
      else some (t.put key (.value v))) way t

/-- Opens the table of a header. -/
def openTable (path : List String) (t : Table) : Option Table :=
  match path.getLast? with
  | none => none
  | some key =>
    update false (fun t =>
      match t.get? key with
      | none => some (t.put key (.table (empty .header)))
      | some (.table sub) =>
        if sub.origin == .passed then some (t.put key (.table (mk .header sub.entries))) else none
      | some _ => none) path.dropLast t

/-- Opens one more table of an array of tables. -/
def openElement (path : List String) (t : Table) : Option Table :=
  match path.getLast? with
  | none => none
  | some key =>
    update false (fun t =>
      match t.get? key with
      | none => some (t.put key (.tables [] (empty .header)))
      | some (.tables closed last) => some (t.put key (.tables (closed ++ [last]) (empty .header)))
      | some _ => none) path.dropLast t

mutual

def value : Table → Value
  | mk _ es => .table (entryValues es)

private def entryValues : List (String × Item) → List (String × Value)
  | [] => []
  | (key, item) :: es => (key, itemValue item) :: entryValues es

private def itemValue : Item → Value
  | .value v => v
  | .table t => t.value
  | .tables closed last => .array (tableValues closed ++ [last.value])

private def tableValues : List Table → List Value
  | [] => []
  | t :: ts => t.value :: tableValues ts

end

end Table
end TypedApi.Toml
