import TypedApi.Proofs.Nesting
import TypedApi.Proofs.Registry
import TypedApi.Proofs.Trees

/-!
The name of the root is a prefix and nothing more. A walk under one root and the same walk under
another go in step: whatever one asks of its registry the other asks with the other prefix, and
what is free or taken, and which numbers are tried, depends on what follows the prefix alone. So
all roots share one outcome, in which names are given without their root.
-/
namespace TypedApi

/-! Names under a root -/

def TypeRef.under (root : String) : TypeRef → TypeRef
  | .named name => .named (root ++ name)
  | .array element => .array (element.under root)
  | t => t

def Field.under (root : String) (f : Field) : Field := { f with type := f.type.under root }

def Declaration.under (root : String) (d : Declaration) : Declaration :=
  { d with name := root ++ d.name, fields := d.fields.map (Field.under root) }

def Diagnostic.under (root : String) (d : Diagnostic) : Diagnostic :=
  { d with location := d.location.map (root ++ ·) }

def Allocation.under (root : String) (a : Allocation) : Allocation :=
  ⟨root ++ a.candidate, root ++ a.name⟩

def Inference.under (root : String) (i : Inference) : Inference :=
  { i with type := i.type.under root }

def Registry.under (root : String) (r : Registry) : Registry :=
  { r with issued := r.issued.map (root ++ ·) }

def WalkState.under (root : String) (s : WalkState) : WalkState where
  registry := s.registry.under root
  diagnostics := s.diagnostics.map (Diagnostic.under root)

/-- Only a name that is taken is said with its root. -/
def NamingError.under (root : String) : NamingError → NamingError
  | .degeneratePath path => .degeneratePath path
  | .collision name => .collision (root ++ name)

namespace DeclarationTree

mutual

def under (root : String) : DeclarationTree → DeclarationTree
  | ⟨d, children⟩ => ⟨d.under root, forestUnder root children⟩

def forestUnder (root : String) : List DeclarationTree → List DeclarationTree
  | [] => []
  | t :: ts => t.under root :: forestUnder root ts

end

mutual

theorem under_eq_map (root : String) (t : DeclarationTree) :
    t.under root = t.map (Declaration.under root) := by
  obtain ⟨d, children⟩ := t
  rw [under, map, forestUnder_eq_map root children]

theorem forestUnder_eq_map (root : String) (ts : List DeclarationTree) :
    forestUnder root ts = forestMap (Declaration.under root) ts := by
  match ts with
  | [] => rfl
  | t :: ts => rw [forestUnder, forestMap, under_eq_map root t, forestUnder_eq_map root ts]

end

theorem declarations_under (root : String) (t : DeclarationTree) :
    (t.under root).declarations = t.declarations.map (Declaration.under root) := by
  rw [under_eq_map, declarations_map]

theorem childPlacesFrom_under (root : String) (t : DeclarationTree) (start : Nat) :
    (t.under root).childPlacesFrom start = t.childPlacesFrom start := by
  rw [under_eq_map, childPlacesFrom_map]

theorem forestUnder_append (root : String) (ts us : List DeclarationTree) :
    forestUnder root (ts ++ us) = forestUnder root ts ++ forestUnder root us := by
  simp only [forestUnder_eq_map, forestMap_append]

end DeclarationTree

/-! The registry -/

namespace Registry

variable (root : String) (r : Registry)

theorem isIssued_under (name : String) :
    (r.under root).isIssued (root ++ name) = r.isIssued name := by
  rw [Bool.eq_iff_iff, isIssued_iff, isIssued_iff, under, List.mem_map]
  constructor
  · rintro ⟨other, hother, heq⟩
    exact (String.append_right_inj root).mp heq ▸ hother
  · exact fun h => ⟨name, h, rfl⟩

theorem numbered_under (candidate : String) (n : Nat) :
    numbered (root ++ candidate) n = root ++ numbered candidate n :=
  String.append_assoc ..

theorem freeNumber?_under (candidate : String) :
    (r.under root).freeNumber? (root ++ candidate) = r.freeNumber? candidate := by
  simp only [freeNumber?, numbered_under, isIssued_under]
  rw [under, List.length_map]

theorem freeName_under (candidate : String) :
    (r.under root).freeName (root ++ candidate) = root ++ r.freeName candidate := by
  rw [freeName, freeNumber?_under, freeName]
  cases r.freeNumber? candidate with
  | none => rfl
  | some n => exact numbered_under root candidate n

theorem issue_under (name : String) :
    (r.under root).issue (root ++ name) = (r.issue name).under root := by
  simp [issue, under]

/-- What an allocation comes to under a root. -/
def allocationUnder :
    Except NamingError (String × Registry) → Except NamingError (String × Registry)
  | .ok (name, r) => .ok (root ++ name, r.under root)
  | .error e => .error (e.under root)

theorem allocate_under (candidate : String) :
    (r.under root).allocate (root ++ candidate) = allocationUnder root (r.allocate candidate) := by
  rw [allocate, allocate, isIssued_under, freeName_under, issue_under, issue_under]
  cases r.isIssued candidate with
  | false => rfl
  | true =>
    have hsettings : (r.under root).settings = r.settings := rfl
    rw [hsettings]
    cases r.settings.collisions <;> rfl

end Registry

/-! Walks in step -/

namespace Walk

variable {α β γ δ : Type} {root : String}

/-- The second walk does under the root what the first does without one, and ends with what `f`
makes of its value. -/
inductive Under (root : String) (f : α → β) : Walk α → Walk β → Prop
  | done (a : α) : Under root f (done a) (done (f a))
  | allocating {candidate : String} {next : String → Walk α} {next' : String → Walk β}
    (h : ∀ name, Under root f (next name) (next' (root ++ name))) :
    Under root f (allocating candidate next) (allocating (root ++ candidate) next')
  | reporting {d : Diagnostic} {next : Walk α} {next' : Walk β} (h : Under root f next next') :
    Under root f (reporting d next) (reporting (d.under root) next')
  | consulting {next : Convention → Walk α} {next' : Convention → Walk β}
    (h : ∀ c, Under root f (next c) (next' c)) : Under root f (consulting next) (consulting next')

theorem Under.bind {f : α → β} {g : γ → δ} {w : Walk α} {w' : Walk β} {k : α → Walk γ}
    {k' : β → Walk δ} (h : Under root f w w') (hk : ∀ a, Under root g (k a) (k' (f a))) :
    Under root g (w >>= k) (w' >>= k') := by
  change Under root g (w.andThen k) (w'.andThen k')
  induction h with
  | done a => exact hk a
  | allocating _ ih => exact .allocating ih
  | reporting _ ih => exact .reporting ih
  | consulting _ ih => exact .consulting ih

theorem under_pure {f : α → β} {a : α} {b : β} (h : f a = b) :
    Under root f (pure a) (pure b) :=
  h ▸ .done a

theorem under_allocate (candidate : String) :
    Under root (root ++ ·) (allocate candidate) (allocate (root ++ candidate)) :=
  .allocating fun name => .done name

theorem under_report (d : Diagnostic) : Under root id (report d) (report (d.under root)) :=
  .reporting (.done ())

theorem under_convention : Under root id convention convention :=
  .consulting fun c => .done c

/-- What a run comes to under a root, when values are changed by `f`. -/
def runUnder (root : String) (f : α → β) (run : Except NamingError α × WalkState) :
    Except NamingError β × WalkState :=
  (match run.1 with
    | .ok a => .ok (f a)
    | .error e => .error (e.under root), run.2.under root)

/-- Walks in step have runs in step. -/
theorem Under.run {f : α → β} {w : Walk α} {w' : Walk β} (h : Under root f w w') (s : WalkState) :
    w'.run (s.under root) = runUnder root f (w.run s) := by
  induction h generalizing s with
  | done a => rfl
  | @allocating candidate next next' _ ih =>
    have ha : (s.under root).registry.allocate (root ++ candidate) =
        Registry.allocationUnder root (s.registry.allocate candidate) :=
      s.registry.allocate_under root candidate
    cases hgiven : s.registry.allocate candidate with
    | error e => simp only [Walk.run, ha, hgiven, Registry.allocationUnder, runUnder]
    | ok given =>
      simp only [Walk.run, ha, hgiven, Registry.allocationUnder]
      exact ih given.1 { s with registry := given.2 }
  | @reporting d next next' _ ih =>
    have hreport : { s.under root with
        diagnostics := (s.under root).diagnostics ++ [d.under root] } =
          ({ s with diagnostics := s.diagnostics ++ [d] } : WalkState).under root := by
      simp [WalkState.under]
    rw [Walk.run, hreport]
    exact ih { s with diagnostics := s.diagnostics ++ [d] }
  | consulting _ ih => exact ih s.registry.convention s

/-- Nothing but a taken name ends a run early. -/
theorem run_error {w : Walk α} {s : WalkState} {e : NamingError} (h : (w.run s).1 = .error e) :
    ∃ name, e = .collision name := by
  induction w generalizing s with
  | done a => cases h
  | allocating candidate next ih =>
    by_cases hc : candidate ∈ s.registry.issued
    · cases hp : s.registry.settings.collisions with
      | suffix =>
        simp only [run, Registry.allocate_renamed hc hp] at h
        exact ih _ h
      | reject =>
        simp only [run, Registry.allocate_rejected hc hp, Except.error.injEq] at h
        exact ⟨candidate, h.symm⟩
    · simp only [run, Registry.allocate_of_free hc] at h
      exact ih _ h
  | reporting d next ih => exact ih h
  | consulting next ih => exact ih _ h

theorem Under.allocations {f : α → β} {w : Walk α} {w' : Walk β} (h : Under root f w w')
    (r : Registry) :
    w'.allocations (r.under root) = (w.allocations r).map (Allocation.under root) := by
  induction h generalizing r with
  | done a => rfl
  | @allocating candidate next next' _ ih =>
    have ha := r.allocate_under root candidate
    cases hgiven : r.allocate candidate with
    | error e => simp only [Walk.allocations, ha, hgiven, Registry.allocationUnder, List.map_nil]
    | ok given =>
      simp only [Walk.allocations, ha, hgiven, Registry.allocationUnder, List.map_cons, ih]
      rfl
  | reporting _ ih => exact ih r
  | consulting _ ih => exact ih r.convention r

end Walk

/-! Types -/

section

variable (root : String)

theorem TypeRef.under_of_reference {t : TypeRef} (h : t.reference? = none) : t.under root = t := by
  induction t with
  | named name => cases h
  | array element ih => rw [under, ih h]
  | scalar _ | openMap | unknown => rfl

theorem TypeRef.isUnknown_under (t : TypeRef) : (t.under root).isUnknown = t.isUnknown := by
  induction t with
  | array element ih => exact ih
  | named _ | scalar _ | openMap | unknown => rfl

theorem Inference.under_of_reference {i : Inference} (h : i.type.reference? = none) :
    i.under root = i := by
  rw [under, TypeRef.under_of_reference root h]

/-- A type follows the name of the declaration it may refer to. -/
theorem Schema.infer_under (s : Schema) (nested : Option String) :
    s.infer (nested.map (root ++ ·)) = (s.infer nested).under root := by
  induction s using Schema.induction with
  | node s _ hitems =>
    rw [infer_eq, infer_eq]
    cases s.kind with
    | object =>
      cases nested with
      | none => rfl
      | some name =>
        simp only [Option.map_some]
        split
        · rfl
        · rfl
    | array =>
      cases hi : s.items with
      | none => rfl
      | some e =>
        simp only [hitems e hi]
        rfl
    | scalar =>
      simp only
      split
      · rfl
      · exact (Inference.under_of_reference root (sampled_reference s.sample)).symm
    | unknown => exact (Inference.under_of_reference root (sampled_reference s.sample)).symm

theorem Parameter.infer_under (p : Parameter) : p.infer.under root = p.infer :=
  Inference.under_of_reference root p.infer_reference

end

/-! Payloads -/

namespace DeclarationTree

open Walk (Under under_pure)

variable {root : String}

theorem place_under (owner key : String) :
    root ++ owner ++ "." ++ key = root ++ (owner ++ "." ++ key) := by
  simp only [String.append_assoc]

theorem keyWord_under (owner key : String) (position : Nat) :
    Under root id (keyWord owner key position) (keyWord (root ++ owner) key position) := by
  refine Walk.under_convention.bind fun c => ?_
  simp only [id]
  split
  · exact under_pure rfl
  · refine Under.bind (f := id) ?_ fun _ => under_pure rfl
    rw [place_under]
    exact Walk.under_report _

theorem nestedName_under (owner key : String) (position : Nat) (property : Schema) :
    Under root (Option.map (root ++ ·)) (nestedName owner key position property)
      (nestedName (root ++ owner) key position property) := by
  unfold nestedName
  cases property.layersToObject? with
  | none => exact under_pure rfl
  | some layers =>
    refine (keyWord_under owner key position).bind fun word => ?_
    refine Under.bind (f := (root ++ ·)) ?_ fun name => under_pure rfl
    simp only [id, String.append_assoc]
    exact Walk.under_allocate _

theorem noteInference_under (owner key : String) (i : Inference) :
    Under root id (noteInference owner key i)
      (noteInference (root ++ owner) key (i.under root)) := by
  have hunknown : (i.under root).type.isUnknown = i.type.isUnknown := i.type.isUnknown_under root
  have hlossy : (i.under root).lossy = i.lossy := rfl
  unfold noteInference
  simp only [place_under, hunknown, hlossy]
  split
  · exact Walk.under_report _
  · split
    · exact Walk.under_report _
    · exact under_pure rfl

def fieldsUnder (root : String) (declared : List Field × List DeclarationTree) :
    List Field × List DeclarationTree :=
  (declared.1.map (Field.under root), forestUnder root declared.2)

/-- If what the properties have nested in them is declared in step, so are the properties. -/
theorem declareProperties_under_of {properties : List (String × Schema)}
    (h : ∀ p ∈ properties, ∀ name,
      Under root (forestUnder root) (declareNested name p.2) (declareNested (root ++ name) p.2))
    (owner : String) (required : List String) (position : Nat) :
    Under root (fieldsUnder root) (declareProperties owner required position properties)
      (declareProperties (root ++ owner) required position properties) := by
  induction properties generalizing position with
  | nil =>
    rw [declareProperties, declareProperties]
    exact under_pure rfl
  | cons p rest ih =>
    obtain ⟨key, property⟩ := p
    obtain ⟨hproperty, hrest⟩ := List.forall_mem_cons.mp h
    rw [declareProperties, declareProperties]
    refine (nestedName_under owner key position property).bind fun nested => ?_
    rw [Schema.infer_under]
    refine (noteInference_under owner key _).bind fun _ => ?_
    refine Under.bind (f := forestUnder root) ?hbelow fun below => ?_
    case hbelow =>
      cases nested with
      | none => exact under_pure rfl
      | some name => exact hproperty name
    refine (ih hrest (position + 1)).bind fun declared => under_pure ?_
    simp only [fieldsUnder, List.map_cons, forestUnder_append]
    rfl

theorem declareNested_under (s : Schema) (name : String) :
    Under root (forestUnder root) (declareNested name s) (declareNested (root ++ name) s) := by
  induction s using Schema.induction generalizing name with
  | node s hproperties hitems =>
    rw [declareNested_eq, declareNested_eq]
    cases s.kind with
    | object =>
      exact (declareProperties_under_of hproperties name s.required 0).bind fun declared =>
        under_pure rfl
    | array =>
      cases hi : s.items with
      | none => exact under_pure rfl
      | some e => exact hitems e hi name
    | scalar | unknown => exact under_pure rfl

theorem ofSchema_under (s : Schema) (candidate : String) :
    Under root (under root) (ofSchema s candidate) (ofSchema s (root ++ candidate)) := by
  refine (Walk.under_allocate candidate).bind fun name => ?_
  have hdeclared : Under root (fieldsUnder root)
      (declareProperties name s.required 0 s.properties)
      (declareProperties (root ++ name) s.required 0 s.properties) :=
    declareProperties_under_of (fun p _ => declareNested_under p.2) name s.required 0
  cases s.kind with
  | object => exact hdeclared.bind fun declared => under_pure rfl
  | array | scalar | unknown => exact (Walk.under_report _).bind fun _ => under_pure rfl

theorem parameterFields_under (owner : String) (parameters : List Parameter) :
    Under root (List.map (Field.under root)) (parameterFields owner parameters)
      (parameterFields (root ++ owner) parameters) := by
  induction parameters with
  | nil => exact under_pure rfl
  | cons p ps ih =>
    have hfield : Under root (Field.under root) (parameterField owner p)
        (parameterField (root ++ owner) p) := by
      have hnote : Under root id (noteInference owner p.name p.infer)
          (noteInference (root ++ owner) p.name (p.infer.under root)) :=
        noteInference_under owner p.name p.infer
      rw [p.infer_under root] at hnote
      refine hnote.bind fun _ => under_pure ?_
      rw [Field.under, Field.documented, TypeRef.under_of_reference root p.infer_reference]
    exact hfield.bind fun field => ih.bind fun fields => under_pure rfl

theorem ofPayload_under (payload : Payload) (candidate : String) :
    Under root (under root) (ofPayload payload candidate)
      (ofPayload payload (root ++ candidate)) := by
  have hparameters : ∀ parameters, Under root (under root) (ofParameters parameters candidate)
      (ofParameters parameters (root ++ candidate)) := fun parameters =>
    (Walk.under_allocate candidate).bind fun name =>
      (parameterFields_under name parameters).bind fun fields => under_pure rfl
  cases payload with
  | none => exact (Walk.under_allocate candidate).bind fun name => under_pure rfl
  | body schema => exact ofSchema_under schema candidate
  | query parameters => exact hparameters parameters
  | form parameters => exact hparameters parameters
  | malformed reason =>
    exact (Walk.under_allocate candidate).bind fun name =>
      (Walk.under_report _).bind fun _ => under_pure rfl

/-- What a payload comes to does not depend on the name of its root. There are diagnostics and
allocations, and either declarations with their places or a taken name, such that the walk under
any root has just these, with the root before every name. -/
theorem ofPayload_of_any_root (payload : Payload) (settings : NamingSettings)
    (convention : Convention) :
    let fresh : Registry := ⟨settings, convention, []⟩
    let run (root : String) := (ofPayload payload root).run ⟨fresh, []⟩
    ∃ (diagnostics : List Diagnostic) (log : List Allocation),
      (∀ root, (run root).2.diagnostics = diagnostics.map (Diagnostic.under root) ∧
        (ofPayload payload root).allocations fresh = log.map (Allocation.under root)) ∧
      ((∃ (declarations : List Declaration) (places : List (List Nat)), ∀ root, ∃ tree,
          (run root).1 = .ok tree ∧ tree.declarations = declarations.map (Declaration.under root) ∧
            tree.childPlaces = places) ∨
        ∃ name, ∀ root, (run root).1 = .error (.collision (root ++ name))) := by
  intro fresh run
  -- The walk under the empty root has the names without their root.
  have hunder : ∀ root,
      Under root (under root) (ofPayload payload "") (ofPayload payload root) := by
    intro root
    have hprefix : Under root (under root) (ofPayload payload "")
        (ofPayload payload (root ++ "")) := ofPayload_under payload ""
    rwa [String.append_empty] at hprefix
  have hrun : ∀ root, run root = Walk.runUnder root (under root) (run "") :=
    fun root => (hunder root).run ⟨fresh, []⟩
  refine ⟨(run "").2.diagnostics, (ofPayload payload "").allocations fresh,
    fun root => ⟨?_, ?_⟩, ?_⟩
  · rw [hrun root]
    rfl
  · exact (hunder root).allocations fresh
  · cases hempty : (run "").1 with
    | ok tree =>
      refine .inl ⟨tree.declarations, tree.childPlaces, fun root => ⟨tree.under root, ?_, ?_, ?_⟩⟩
      · simp only [hrun root, Walk.runUnder, hempty]
      · exact declarations_under root tree
      · exact childPlacesFrom_under root tree 0
    | error e =>
      obtain ⟨name, rfl⟩ := Walk.run_error hempty
      refine .inr ⟨name, fun root => ?_⟩
      simp only [hrun root, Walk.runUnder, hempty, NamingError.under]

end DeclarationTree
end TypedApi
