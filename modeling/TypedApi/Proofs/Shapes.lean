import TypedApi.Proofs.Nesting
import TypedApi.Proofs.Trees
import TypedApi.Schema.OfJson
import TypedApi.TypeScript.Convention

/-!
The shape of a schema. What a schema says beside its types, its keys and its items reaches the
fields of its declarations and the diagnostics, but nothing that is asked of a registry. A walk of
a schema therefore goes alongside that of the bare schema, and two schemas of one shape get the
same names.
-/
namespace TypedApi

/-! Values of one shape -/

namespace Json.Value

def members : Value → List (String × Value)
  | object members => members
  | _ => []

/-- The properties of a schema that is written as this value. -/
def properties (v : Value) : List (String × Value) := ((v.get? "properties").map members).getD []

/-- What is under `items` counts if it is an object; of a list, the first entry counts. -/
def element? : Value → Option Value
  | object members => some (object members)
  | array (v :: _) => some v
  | _ => none

/-- The schema of the items. -/
def items? (v : Value) : Option Value := (v.get? "items").bind element?

mutual

/-- Two values agree on `type`, on the keys of `properties` and their order and on `items`, at
every place that properties and items lead to. -/
inductive SameShape : Value → Value → Prop
  | intro {v w : Value} (htype : v.get? "type" = w.get? "type")
    (hproperties : SameProperties v.properties w.properties)
    (hitems : SameItems v.items? w.items?) : SameShape v w

inductive SameProperties : List (String × Value) → List (String × Value) → Prop
  | nil : SameProperties [] []
  | cons {key : String} {v w : Value} {vs ws : List (String × Value)} (h : SameShape v w)
    (hrest : SameProperties vs ws) : SameProperties ((key, v) :: vs) ((key, w) :: ws)

inductive SameItems : Option Value → Option Value → Prop
  | none : SameItems none none
  | some {v w : Value} (h : SameShape v w) : SameItems (some v) (some w)

end

end Json.Value

/-! Bare schemas -/

namespace Schema

mutual

/-- Only the declared types, the keys and the items. -/
def bare : Schema → Schema
  | ⟨declaredType, _, properties, _, items, _, _⟩ =>
    { declaredType, properties := bareProperties properties, items := bareItems items }

def bareProperties : List (String × Schema) → List (String × Schema)
  | [] => []
  | (key, s) :: rest => (key, s.bare) :: bareProperties rest

def bareItems : Option Schema → Option Schema
  | none => none
  | some s => some s.bare

end

@[simp] theorem bare_declaredType (s : Schema) : s.bare.declaredType = s.declaredType := by
  cases s
  rw [bare]

@[simp] theorem bare_properties (s : Schema) : s.bare.properties = bareProperties s.properties := by
  cases s
  rw [bare]

theorem bareItems_eq (items : Option Schema) : bareItems items = items.map bare := by
  cases items with
  | none => rw [bareItems, Option.map_none]
  | some s => rw [bareItems, Option.map_some]

@[simp] theorem bare_items (s : Schema) : s.bare.items = s.items.map bare := by
  cases s
  rw [bare, bareItems_eq]

theorem bareProperties_eq (properties : List (String × Schema)) :
    bareProperties properties = properties.map fun p => (p.1, p.2.bare) := by
  induction properties with
  | nil => rw [bareProperties, List.map_nil]
  | cons p rest ih => rw [bareProperties, ih, List.map_cons]

theorem bare_isEmpty (s : Schema) : s.bare.properties.isEmpty = s.properties.isEmpty := by
  rw [bare_properties, bareProperties_eq, List.isEmpty_map]

@[simp] theorem bare_kind (s : Schema) : s.bare.kind = s.kind := by
  rw [kind, bare_isEmpty, bare_declaredType, bare_items, Option.isSome_map, kind]

theorem bare_layersToObject? (s : Schema) : s.bare.layersToObject? = s.layersToObject? := by
  induction s using Schema.induction with
  | node s _ hitems =>
    rw [layersToObject?_eq, layersToObject?_eq, bare_kind, bare_isEmpty, bare_items]
    cases s.kind with
    | array =>
      cases hi : s.items with
      | none => rfl
      | some e => simp [hitems e hi]
    | object | scalar | unknown => rfl

end Schema

/-! Lowering -/

namespace Schema

open Json (Value)

theorem ofMembers_eq (members : List (String × Value)) :
    ofMembers members = members.map fun m => (m.1, ofJson m.2) := by
  induction members with
  | nil => rw [ofMembers, List.map_nil]
  | cons m rest ih => rw [ofMembers, ih, List.map_cons]

theorem propertiesOfJson_eq (v : Value) :
    propertiesOfJson v = v.members.map fun m => (m.1, ofJson m.2) := by
  cases v with
  | object members => rw [propertiesOfJson, ofMembers_eq, Value.members]
  | null | bool _ | number _ | string _ | array _ => simp [propertiesOfJson, Value.members]

theorem propertiesOfMembers_eq (members : List (String × Value)) :
    propertiesOfMembers members =
      (Value.object members).properties.map fun m => (m.1, ofJson m.2) := by
  rw [Value.properties, Value.get?]
  induction members with
  | nil =>
    rw [propertiesOfMembers, List.lookup_nil, Option.map_none, Option.getD_none, List.map_nil]
  | cons m rest ih =>
    obtain ⟨key, v⟩ := m
    rw [propertiesOfMembers]
    by_cases hk : key = "properties"
    · simp [hk, propertiesOfJson_eq]
    · have hne : ("properties" == key) = false := by simpa using Ne.symm hk
      rw [if_neg hk, ih, List.lookup_cons, hne]

theorem itemsOfMembers_eq (members : List (String × Value)) :
    itemsOfMembers members = (Value.object members).items?.map ofJson := by
  have helement : ∀ v, (if isObject v then some (ofJson v) else firstOfJson v) =
      v.element?.map ofJson := by
    intro v
    cases v with
    | object members => rfl
    | array entries =>
      cases entries with
      | nil => simp [isObject, firstOfJson, headOfJson, Value.element?]
      | cons v rest => simp [isObject, firstOfJson, headOfJson, Value.element?]
    | null | bool _ | number _ | string _ => simp [isObject, firstOfJson, Value.element?]
  rw [Value.items?, Value.get?]
  induction members with
  | nil => rw [itemsOfMembers, List.lookup_nil, Option.bind_none, Option.map_none]
  | cons m rest ih =>
    obtain ⟨key, v⟩ := m
    rw [itemsOfMembers, helement]
    by_cases hk : key = "items"
    · simp [hk]
    · have hne : ("items" == key) = false := by simpa using Ne.symm hk
      rw [if_neg hk, ih, List.lookup_cons, hne]

/-- What lowering takes from the members that make up the shape of a schema. -/
theorem bare_ofJson (v : Value) :
    (ofJson v).bare =
      { declaredType := typeOfJson (v.get? "type")
        properties := v.properties.map fun m => (m.1, (ofJson m.2).bare)
        items := v.items?.map fun e => (ofJson e).bare } := by
  cases v with
  | object members =>
    rw [ofJson, bare, propertiesOfMembers_eq, itemsOfMembers_eq, bareProperties_eq, bareItems_eq,
      List.map_map, Option.map_map, Value.get?]
    rfl
  | null | bool _ | number _ | string _ | array _ =>
    simp [ofJson, bare, bareProperties, bareItems, Value.properties, Value.items?, Value.get?,
      typeOfJson]

theorem bare_of_sameShape {v w : Value} (h : v.SameShape w) :
    (ofJson v).bare = (ofJson w).bare := by
  refine Value.SameShape.rec (motive_1 := fun v w _ => (ofJson v).bare = (ofJson w).bare)
    (motive_2 := fun ps qs _ => ps.map (fun m => (m.1, (ofJson m.2).bare)) =
      qs.map fun m => (m.1, (ofJson m.2).bare))
    (motive_3 := fun i j _ => i.map (fun e => (ofJson e).bare) = j.map fun e => (ofJson e).bare)
    ?intro ?nil ?cons ?none ?some h
  case intro =>
    intro v w htype _ _ hproperties hitems
    rw [bare_ofJson, bare_ofJson, htype, hproperties, hitems]
  case nil => rfl
  case cons =>
    intro key v w vs ws _ _ hfirst hrest
    rw [List.map_cons, List.map_cons, hfirst, hrest]
  case none => rfl
  case some =>
    intro v w _ h
    rw [Option.map_some, Option.map_some, h]

end Schema

/-! What a field refers to -/

namespace TypeRef

/-- The type, if it refers to a declaration. -/
def linked? : TypeRef → Option TypeRef
  | named name => some (named name)
  | array element => element.linked?.map array
  | _ => none

theorem linked?_of_reference {t : TypeRef} (h : t.reference? = none) : t.linked? = none := by
  induction t with
  | named name => cases h
  | array element ih => rw [linked?, ih h, Option.map_none]
  | scalar _ | openMap | unknown => rfl

end TypeRef

/-- The key, and the type as far as it refers to a declaration. -/
def Field.bare (f : Field) : Field := { name := f.name, type := f.type.linked?.getD .unknown }

def Declaration.bare (d : Declaration) : Declaration :=
  { name := d.name, fields := d.fields.map Field.bare }

theorem sampled_linked? (sample : Option Example) : (sampled sample).type.linked? = none :=
  TypeRef.linked?_of_reference (sampled_reference sample)

/-- Where a declared scalar or a sample gives the type, it refers to nothing. -/
theorem Schema.infer_leaf {s : Schema} (h : s.kind = .scalar ∨ s.kind = .unknown)
    (nested : Option String) : (s.infer nested).type.linked? = none := by
  rw [infer_eq]
  rcases h with h | h
  · rw [h]
    simp only
    split
    · rfl
    · exact sampled_linked? s.sample
  · rw [h]
    exact sampled_linked? s.sample

theorem Schema.infer_bare (s : Schema) (nested : Option String) :
    (s.bare.infer nested).type.linked? = (s.infer nested).type.linked? := by
  induction s using Schema.induction with
  | node s _ hitems =>
    cases hk : s.kind with
    | object =>
      rw [infer_eq, infer_eq, bare_kind, bare_isEmpty, hk]
    | array =>
      rw [infer_eq, infer_eq, bare_kind, bare_items, hk]
      cases hi : s.items with
      | none => rfl
      | some e => exact congrArg (Option.map TypeRef.array) (hitems e hi)
    | scalar =>
      rw [infer_leaf (.inl hk), infer_leaf (.inl (s.bare_kind.trans hk))]
    | unknown =>
      rw [infer_leaf (.inr hk), infer_leaf (.inr (s.bare_kind.trans hk))]

/-! Walks alongside each other -/

namespace Walk

variable {α β γ δ : Type} {R : α → β → Prop} {S : γ → δ → Prop}

/-- Both walks ask for the same, one name after the other, whatever they report, and their values
are in `R`. -/
inductive Alongside (R : α → β → Prop) : Walk α → Walk β → Prop
  | done {a : α} {b : β} (h : R a b) : Alongside R (done a) (done b)
  | allocating {candidate : String} {next : String → Walk α} {next' : String → Walk β}
    (h : ∀ name, Alongside R (next name) (next' name)) :
    Alongside R (allocating candidate next) (allocating candidate next')
  | reportingLeft {d : Diagnostic} {next : Walk α} {w : Walk β} (h : Alongside R next w) :
    Alongside R (reporting d next) w
  | reportingRight {d : Diagnostic} {next : Walk β} {w : Walk α} (h : Alongside R w next) :
    Alongside R w (reporting d next)
  | consulting {next : Convention → Walk α} {next' : Convention → Walk β}
    (h : ∀ c, Alongside R (next c) (next' c)) : Alongside R (consulting next) (consulting next')

theorem Alongside.bind {w : Walk α} {w' : Walk β} {k : α → Walk γ} {k' : β → Walk δ}
    (h : Alongside R w w') (hk : ∀ a b, R a b → Alongside S (k a) (k' b)) :
    Alongside S (w >>= k) (w' >>= k') := by
  change Alongside S (w.andThen k) (w'.andThen k')
  induction h with
  | done h => exact hk _ _ h
  | allocating _ ih => exact .allocating ih
  | reportingLeft _ ih => exact .reportingLeft ih
  | reportingRight _ ih => exact .reportingRight ih
  | consulting _ ih => exact .consulting ih

theorem alongside_pure {a : α} {b : β} (h : R a b) : Alongside R (pure a) (pure b) := .done h

theorem alongside_refl (w : Walk α) : Alongside Eq w w := by
  induction w with
  | done a => exact .done rfl
  | allocating candidate next ih => exact .allocating ih
  | reporting d next ih => exact .reportingLeft (.reportingRight ih)
  | consulting next ih => exact .consulting ih

/-- Equal registries give walks alongside each other the same error or related values, and are
left equal. -/
theorem Alongside.run {w : Walk α} {w' : Walk β} (h : Alongside R w w') {s s' : WalkState}
    (hr : s.registry = s'.registry) :
    (w.run s).2.registry = (w'.run s').2.registry ∧
      ((∃ e, (w.run s).1 = .error e ∧ (w'.run s').1 = .error e) ∨
        ∃ a b, (w.run s).1 = .ok a ∧ (w'.run s').1 = .ok b ∧ R a b) := by
  induction h generalizing s s' with
  | @done a b h => exact ⟨hr, .inr ⟨a, b, rfl, rfl, h⟩⟩
  | @allocating candidate next next' _ ih =>
    cases ha : s.registry.allocate candidate with
    | error e =>
      have ha' : s'.registry.allocate candidate = .error e := hr ▸ ha
      simp only [Walk.run, ha, ha']
      exact ⟨hr, .inl ⟨e, rfl, rfl⟩⟩
    | ok given =>
      have ha' : s'.registry.allocate candidate = .ok given := hr ▸ ha
      simp only [Walk.run, ha, ha']
      exact ih given.1 rfl
  | reportingLeft _ ih => exact ih hr
  | reportingRight _ ih => exact ih hr
  | consulting _ ih =>
    simp only [Walk.run, hr]
    exact ih s'.registry.convention hr

end Walk

/-! A walk alongside that of the bare schema -/

namespace DeclarationTree

open Walk (Alongside alongside_pure)

theorem noteInference_alongside (owner key : String) (i j : Inference) :
    Alongside Eq (noteInference owner key i) (noteInference owner key j) := by
  -- Whatever the inference is, it is reported at most once and nothing is asked.
  have hreports : ∀ i, noteInference owner key i = pure () ∨
      ∃ d, noteInference owner key i = Walk.report d := by
    intro i
    unfold noteInference
    dsimp only
    split
    · exact .inr ⟨_, rfl⟩
    · split
      · exact .inr ⟨_, rfl⟩
      · exact .inl rfl
  have hright : ∀ w : Walk Unit, (w = pure () ∨ ∃ d, w = Walk.report d) →
      Alongside Eq (pure ()) w := by
    rintro w (rfl | ⟨d, rfl⟩)
    · exact alongside_pure rfl
    · exact .reportingRight (.done rfl)
  rcases hreports i with hi | ⟨d, hi⟩
  · rw [hi]
    exact hright _ (hreports j)
  · rw [hi]
    exact .reportingLeft (hright _ (hreports j))

theorem nestedName_bare (owner key : String) (position : Nat) (property : Schema) :
    nestedName owner key position property.bare = nestedName owner key position property := by
  rw [nestedName, nestedName, property.bare_layersToObject?]

/-- Trees that are the same once they are bare. -/
def SameTrees (one other : List DeclarationTree) : Prop :=
  forestMap Declaration.bare one = forestMap Declaration.bare other

/-- The same of what the properties of an object come to. -/
def SameFields (one other : List Field × List DeclarationTree) : Prop :=
  one.1.map Field.bare = other.1.map Field.bare ∧ SameTrees one.2 other.2

/-- If what the properties have nested in them is declared alongside, so are the properties. -/
theorem declareProperties_alongside_of {properties : List (String × Schema)}
    (h : ∀ p ∈ properties, ∀ name,
      Alongside SameTrees (declareNested name p.2) (declareNested name p.2.bare))
    (owner : String) (required required' : List String) (position : Nat) :
    Alongside SameFields (declareProperties owner required position properties)
      (declareProperties owner required' position (Schema.bareProperties properties)) := by
  induction properties generalizing position with
  | nil =>
    rw [declareProperties, Schema.bareProperties, declareProperties]
    exact alongside_pure ⟨rfl, rfl⟩
  | cons p rest ih =>
    obtain ⟨key, property⟩ := p
    obtain ⟨hproperty, hrest⟩ := List.forall_mem_cons.mp h
    rw [declareProperties, Schema.bareProperties, declareProperties, nestedName_bare]
    refine (Walk.alongside_refl (nestedName owner key position property)).bind
      fun nested _ hnested => ?_
    subst hnested
    refine (noteInference_alongside owner key _ _).bind fun _ _ _ => ?_
    refine Alongside.bind (R := SameTrees) ?hbelow fun below below' hbelow => ?_
    case hbelow =>
      cases nested with
      | none => exact alongside_pure rfl
      | some name => exact hproperty name
    refine (ih hrest (position + 1)).bind fun one other hsame => alongside_pure ⟨?_, ?_⟩
    · simp only [List.map_cons, hsame.1, List.cons.injEq, and_true]
      simp only [Field.bare, Field.documented, property.infer_bare]
    · rw [SameTrees] at hbelow ⊢
      rw [forestMap_append, forestMap_append, hbelow, hsame.2]

theorem declareNested_alongside (s : Schema) (name : String) :
    Alongside SameTrees (declareNested name s) (declareNested name s.bare) := by
  induction s using Schema.induction generalizing name with
  | node s hproperties hitems =>
    rw [declareNested_eq, declareNested_eq, Schema.bare_kind, Schema.bare_items]
    cases s.kind with
    | object =>
      rw [Schema.bare_properties]
      refine (declareProperties_alongside_of hproperties name _ _ 0).bind
        fun one other hsame => alongside_pure ?_
      have htrees : forestMap Declaration.bare one.2 = forestMap Declaration.bare other.2 := hsame.2
      simp only [SameTrees, forestMap, map, Declaration.bare, Declaration.documented, hsame.1,
        htrees]
    | array =>
      cases hi : s.items with
      | none => exact alongside_pure rfl
      | some e => exact hitems e hi name
    | scalar | unknown => exact alongside_pure rfl

theorem ofSchema_alongside (s : Schema) (candidate : String) :
    Alongside (fun t u => t.map Declaration.bare = u.map Declaration.bare)
      (ofSchema s candidate) (ofSchema s.bare candidate) := by
  refine (Walk.alongside_refl (Walk.allocate candidate)).bind fun name _ hname => ?_
  subst hname
  rw [Schema.bare_kind, Schema.bare_properties]
  have hdeclared : Alongside SameFields (declareProperties name s.required 0 s.properties)
      (declareProperties name s.bare.required 0 (Schema.bareProperties s.properties)) :=
    declareProperties_alongside_of (fun p _ => declareNested_alongside p.2) name _ _ 0
  cases s.kind with
  | object =>
    refine hdeclared.bind fun one other hsame => alongside_pure ?_
    have htrees : forestMap Declaration.bare one.2 = forestMap Declaration.bare other.2 := hsame.2
    simp only [map, Declaration.bare, Declaration.documented, hsame.1, htrees]
  | array | scalar | unknown => exact .reportingLeft (.reportingRight (alongside_pure rfl))

theorem skeleton_of_bare {t u : DeclarationTree}
    (h : t.map Declaration.bare = u.map Declaration.bare) :
    t.names = u.names ∧ t.childPlaces = u.childPlaces ∧
      t.declarations.map Declaration.bare = u.declarations.map Declaration.bare := by
  have hnames : ∀ t : DeclarationTree, (t.map Declaration.bare).names = t.names := by
    intro t
    rw [names, names, declarations_map, List.map_map]
    rfl
  refine ⟨?_, ?_, ?_⟩
  · rw [← hnames t, h, hnames u]
  · rw [childPlaces, childPlaces, ← childPlacesFrom_map Declaration.bare t, h, childPlacesFrom_map]
  · rw [← declarations_map, h, declarations_map]

/-- Two schema values of one shape, however they are documented, come to the same on equal
registries: to one error, or to trees with the same names in the same places, whose fields have the
same keys in the same order and refer to the same declarations under the same array layers. The
registries stay equal. -/
theorem ofSchema_of_sameShape {v w : Json.Value} (h : v.SameShape w) (candidate : String)
    {s s' : WalkState} (hr : s.registry = s'.registry) :
    let one := (ofSchema (Schema.ofJson v) candidate).run s
    let other := (ofSchema (Schema.ofJson w) candidate).run s'
    one.2.registry = other.2.registry ∧
      ((∃ e, one.1 = .error e ∧ other.1 = .error e) ∨
        ∃ t u, one.1 = .ok t ∧ other.1 = .ok u ∧ t.names = u.names ∧
          t.childPlaces = u.childPlaces ∧
          t.declarations.map Declaration.bare = u.declarations.map Declaration.bare) := by
  intro one other
  -- Both go alongside one bare schema.
  have hbare := Schema.bare_of_sameShape h
  obtain ⟨hone, hfirst⟩ := (ofSchema_alongside (Schema.ofJson v) candidate).run hr
  have hself : s'.registry = s'.registry := rfl
  obtain ⟨hother, hsecond⟩ := (ofSchema_alongside (Schema.ofJson w) candidate).run hself
  rw [hbare] at hone hfirst
  refine ⟨hone.trans hother.symm, ?_⟩
  rcases hfirst with ⟨e, he, hbe⟩ | ⟨t, b, ht, hb, htb⟩
  · rcases hsecond with ⟨e', he', hbe'⟩ | ⟨u, b, hu, hb, hub⟩
    · rw [hbe] at hbe'
      exact .inl ⟨e, he, he'.trans hbe'.symm⟩
    · rw [hbe] at hb
      cases hb
  · rcases hsecond with ⟨e', he', hbe'⟩ | ⟨u, b', hu, hb', hub⟩
    · rw [hb] at hbe'
      cases hbe'
    · rw [hb, Except.ok.injEq] at hb'
      have hsame : t.map Declaration.bare = u.map Declaration.bare := by rw [htb, hb', hub]
      exact .inr ⟨t, u, ht, hu, skeleton_of_bare hsame⟩

/-- An order whose lines have an amount. -/
def terseOrder : Json.Value :=
  .object [("type", .string "object"), ("properties", .object [
    ("lines", .object [("items", .object [("properties", .object [
      ("amount", .object [("type", .string "integer")])])])]),
    ("id", .object []),
    ("lines ", .object [("items", .object [("properties", .object [("a", .null)])])])])]

/-- The same with a documentation that changes the types of fields and adds a diagnostic. -/
def documentedOrder : Json.Value :=
  .object [("description", .string "An order."), ("type", .string "object"),
    ("required", .array [.string "id"]), ("properties", .object [
      ("lines", .object [("example", .string "none"), ("items", .array [.object [
        ("properties", .object [
          ("amount", .object [("type", .string "integer"), ("format", .string "int64")])])]])]),
      ("id", .object [("example", .array [.null])]),
      ("lines ", .object [("items", .object [
        ("properties", .object [("a", .object [("title", .string "A")])])])])])]

theorem order_sameShape : terseOrder.SameShape documentedOrder := by
  have amount : Json.Value.SameShape (.object [("type", .string "integer")])
      (.object [("type", .string "integer"), ("format", .string "int64")]) := .intro rfl .nil .none
  have lines : Json.Value.SameShape
      (.object [("items", .object [("properties", .object [("a", .null)])])])
      (.object [("items", .object [
        ("properties", .object [("a", .object [("title", .string "A")])])])]) :=
    .intro rfl .nil (.some (.intro rfl (.cons (.intro rfl .nil .none) .nil) .none))
  exact .intro rfl (.cons (.intro rfl .nil (.some (.intro rfl (.cons amount .nil) .none)))
    (.cons (.intro rfl .nil .none) (.cons lines .nil))) .none

/-- The names of both orders, also the one with a number. -/
theorem order_of_sameShape :
    let start : WalkState := ⟨⟨{}, TypeScript.convention, []⟩, []⟩
    let one := (ofSchema (Schema.ofJson terseOrder) "OrderRes").run start
    let other := (ofSchema (Schema.ofJson documentedOrder) "OrderRes").run start
    terseOrder.SameShape documentedOrder ∧ one.2.diagnostics.length = 2 ∧
      other.2.diagnostics.length = 3 ∧ one.2.registry = other.2.registry ∧
      ∃ t u, one.1 = .ok t ∧ other.1 = .ok u ∧
        t.names = ["OrderRes", "OrderResLinesItem", "OrderResLinesItem2"] ∧ t.names = u.names ∧
        t.childPlaces = u.childPlaces ∧
        t.declarations.map Declaration.bare = u.declarations.map Declaration.bare := by
  intro start one other
  have hstart : start.registry = start.registry := rfl
  obtain ⟨hregistry, hresults⟩ := ofSchema_of_sameShape order_sameShape "OrderRes" hstart
  refine ⟨order_sameShape, rfl, rfl, hregistry, ?_⟩
  rcases hresults with ⟨e, he, -⟩ | ⟨t, u, ht, hu, hnames, hrest⟩
  · cases he
  · refine ⟨t, u, ht, hu, ?_, hnames, hrest⟩
    cases ht
    rfl

end DeclarationTree
end TypedApi
