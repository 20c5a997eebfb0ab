import TypedApi.Proofs.Building
import TypedApi.Proofs.Identifier

/-!
Documentation in both files of an endpoint. The comments that a reader finds in a file are the
header and the descriptions that were written to it, in full and in their order.
-/
namespace TypedApi.TypeScript

open Code

/-- The comment for a description, with this margin if it has several lines. -/
def docComments (margin : String) : Option String → List String
  | some s =>
    if s.toList.contains '\n' then
      [docLinesComment margin ((Text.lines s.toList).map String.ofList)]
    else [docComment s]
  | none => []

def declarationComments (d : Declaration) : List String :=
  docComments "" d.doc ++ d.fields.flatMap fun f => docComments "  " f.doc

def TypesFile.comments (file : TypesFile) : List String :=
  docLinesComment "" file.header ::
    file.sections.flatMap fun tree => tree.emissionOrder.flatMap declarationComments

def ClientFile.comments (file : ClientFile) : List String :=
  [docLinesComment "" file.function.doc]

variable {strict : Bool}

theorem isPlain_docFragments (doc : Option String) :
    ∀ f ∈ docFragments doc, f.IsPlain strict := by
  cases doc with
  | none => simp [docFragments]
  | some s =>
    rw [docFragments, Fragment.ofDoc]
    split
    · simp [Fragment.IsPlain]
    · simp [Fragment.IsPlain]

theorem bodyComments_docFragments (i : Indent) (level : Nat) (doc : Option String) :
    bodyComments i level (docFragments doc) = docComments (i.margin level) doc := by
  cases doc with
  | none => rfl
  | some s =>
    rw [docFragments, Fragment.ofDoc, docComments]
    split
    · simp [bodyComments, Fragment.comments]
    · simp [bodyComments, Fragment.comments]

/-! Code that is made of names -/

theorem IsTail.isQuiet {part : String} (h : IsTail part) : IsQuiet part := by
  intro c hc
  have hi := h c hc
  constructor
  · rintro rfl
    exact absurd hi (by decide)
  · rw [isQuote]
    rw [Bool.or_eq_false_iff, Bool.or_eq_false_iff]
    refine ⟨⟨?_, ?_⟩, ?_⟩
    all_goals
      rw [beq_eq_false_iff_ne]
      rintro rfl
      exact absurd hi (by decide)

theorem isQuiet_of_isIdentifier {name : String} (h : Text.isIdentifier name.toList = true) :
    IsQuiet name := by
  obtain ⟨_, _, _, _, hall⟩ := (Text.isIdentifier_iff _).mp h
  exact IsTail.isQuiet hall

theorem isQuiet_typeText {t : TypeRef} (h : ∀ name, t.reference? = some name → IsQuiet name) :
    IsQuiet (typeText t) := by
  induction t with
  | scalar s => cases s <;> decide
  | named name => exact h name rfl
  | array element ih =>
    have he : IsQuiet (typeText element) := ih h
    have hopen : IsQuiet "(" := by decide
    rw [typeText, arrayText]
    split
    · exact (hopen.append he).append (by decide)
    · exact he.append (by decide)
  | openMap => decide
  | unknown => decide

theorem reads_propertyKey {name : String} (hline : strict = true → OnOneLine name) :
    Reads strict (propertyKey name) [] := by
  cases h : Text.isIdentifier name.toList with
  | true =>
    rw [propertyKey_of_isIdentifier h]
    exact (isQuiet_of_isIdentifier h).reads
  | false =>
    rw [propertyKey_of_not_isIdentifier h]
    exact reads_stringLiteral hline

/-- The name of the declaration and the names that its fields refer to are quiet. -/
def HasQuietNames (d : Declaration) : Prop :=
  IsQuiet d.name ∧ ∀ f ∈ d.fields, ∀ name, f.reference? = some name → IsQuiet name

/-- No key of the declaration has a line break. -/
def HasPlainKeys (d : Declaration) : Prop := ∀ f ∈ d.fields, OnOneLine f.name

instance (d : Declaration) : Decidable (HasPlainKeys d) := List.decidableBAll _ d.fields

theorem isPlain_member (m : InterfaceMember) (h : IsQuiet m.type)
    (hname : strict = true → OnOneLine m.name) : ∀ f ∈ m.fragments, f.IsPlain strict := by
  have hline : Reads strict
      (propertyKey m.name ++ (if m.optional then "?: " else ": ") ++ m.type ++ ";") [] := by
    have hmark : IsQuiet (if m.optional then "?: " else ": ") := by
      split
      · decide
      · decide
    have hcolon : IsQuiet ";" := by decide
    exact (((reads_propertyKey hname).append hmark.reads).append h.reads).append hcolon.reads
  rw [InterfaceMember.fragments]
  refine List.forall_mem_append.mpr ⟨isPlain_docFragments m.doc, ?_⟩
  exact List.forall_mem_singleton.mpr hline

theorem isPlain_declaration {d : Declaration} (h : HasQuietNames d)
    (hkeys : strict = true → HasPlainKeys d) :
    ∀ f ∈ declarationFragments d, f.IsPlain strict := by
  obtain ⟨hname, hfields⟩ := h
  have hexport : IsQuiet "export interface " := by decide
  have hhead : IsQuiet ("export interface " ++ d.name ++ " \x7b") :=
    (hexport.append hname).append (by decide)
  have hclose : IsQuiet "\x7d" := by decide
  have hmembers : ∀ f ∈ (Interface.ofDeclaration d).members.flatMap (·.fragments),
      f.IsPlain strict := by
    intro f hf
    obtain ⟨m, hm, hf⟩ := List.mem_flatMap.mp hf
    obtain ⟨field, hfield, rfl⟩ := List.mem_map.mp hm
    exact isPlain_member _ (isQuiet_typeText (hfields field hfield))
      (fun hs => hkeys hs field hfield) f hf
  rw [declarationFragments, Interface.fragments]
  refine List.forall_mem_append.mpr ⟨isPlain_docFragments d.doc, ?_⟩
  split
  · exact List.forall_mem_singleton.mpr (hhead.append hclose).reads
  · refine List.forall_mem_singleton.mpr ⟨hhead.reads, allPlain_iff.mpr hmembers, ?_⟩
    intro s hs
    cases hs
    exact hclose.reads

theorem bodyComments_declaration (d : Declaration) :
    bodyComments (.spaces 2) 0 (declarationFragments d) = declarationComments d := by
  have hmember : ∀ m : InterfaceMember,
      bodyComments (.spaces 2) 1 m.fragments = docComments "  " m.doc := by
    intro m
    rw [InterfaceMember.fragments, bodyComments_append, bodyComments_docFragments]
    exact List.append_nil _
  rw [declarationFragments, Interface.fragments, bodyComments_append, bodyComments_docFragments,
    declarationComments]
  have hmargin : (Indent.spaces 2).margin 0 = "" := rfl
  rw [hmargin]
  congr 1
  split
  · next hempty =>
    have hfields : d.fields = [] := by simpa [Interface.ofDeclaration] using hempty
    rw [hfields]
    rfl
  · have hblock : bodyComments (.spaces 2) 0
        [.block ("export interface " ++ d.name ++ " \x7b")
          ((Interface.ofDeclaration d).members.flatMap (·.fragments)) (some "\x7d")] =
        bodyComments (.spaces 2) 1 ((Interface.ofDeclaration d).members.flatMap (·.fragments)) :=
      List.append_nil _
    refine hblock.trans ?_
    rw [bodyComments_flatMap]
    simp only [hmember, Interface.ofDeclaration, List.flatMap_map]

/-! Both files -/

theorem adds_emitTree {b : Builder} (hi : b.indent = .spaces 2) (hl : b.level = 0)
    {tree : DeclarationTree} (h : ∀ d ∈ tree.emissionOrder, HasQuietNames d)
    (hkeys : ∀ d ∈ tree.emissionOrder, strict = true → HasPlainKeys d) :
    b.Adds strict (emitTree b tree) (tree.emissionOrder.flatMap declarationComments) := by
  have hplain : ∀ fs ∈ tree.emissionOrder.map declarationFragments, AllPlain strict fs := by
    intro fs hfs
    obtain ⟨d, hd, rfl⟩ := List.mem_map.mp hfs
    exact allPlain_iff.mpr (isPlain_declaration (h d hd) (hkeys d hd))
  have hadds := b.adds_applyGroups _ hplain
  rw [hi, hl, List.flatMap_map] at hadds
  simp only [bodyComments_declaration] at hadds
  exact hadds

theorem adds_emitTrees {b : Builder} (hi : b.indent = .spaces 2) (hl : b.level = 0)
    {trees : List DeclarationTree}
    (h : ∀ tree ∈ trees, ∀ d ∈ tree.emissionOrder, HasQuietNames d)
    (hkeys : ∀ tree ∈ trees, ∀ d ∈ tree.emissionOrder, strict = true → HasPlainKeys d) :
    b.Adds strict (trees.foldl (fun b tree => emitTree b.blank tree) b)
      (trees.flatMap fun tree => tree.emissionOrder.flatMap declarationComments) := by
  induction trees generalizing b with
  | nil => exact .refl b
  | cons tree trees ih =>
    obtain ⟨htree, htrees⟩ := List.forall_mem_cons.mp h
    obtain ⟨hkey, hrests⟩ := List.forall_mem_cons.mp hkeys
    have hblank : b.Adds strict b.blank [] := b.adds_blank
    have hfirst := hblank.trans
      (adds_emitTree (hblank.indent.trans hi) (hblank.level.trans hl) htree hkey)
    have hrest := ih (hfirst.indent.trans hi) (hfirst.level.trans hl) htrees hrests
    exact hfirst.trans hrest

theorem TypesFile.reads_text (file : TypesFile)
    (h : ∀ tree ∈ file.sections, ∀ d ∈ tree.emissionOrder, HasQuietNames d)
    (hkeys : ∀ tree ∈ file.sections, ∀ d ∈ tree.emissionOrder,
      strict = true → HasPlainKeys d) : Reads strict file.text file.comments := by
  have hheader : ({} : Builder).Adds strict (({} : Builder).docLines file.header) _ :=
    ({} : Builder).adds_docLines file.header
  have hall := hheader.trans (adds_emitTrees hheader.indent hheader.level h hkeys)
  exact hall.reads

/-- The names of a client file are quiet. -/
structure ClientFile.HasQuietNames (file : ClientFile) : Prop where
  function : IsQuiet file.functionName
  response : IsQuiet file.responseType
  request : ∀ name ∈ file.request.type?, IsQuiet name

theorem isQuiet_importedTypes {file : ClientFile} (h : file.HasQuietNames) :
    file.importedTypes ≠ [] ∧ IsQuiet (", ".intercalate file.importedTypes) := by
  have hcomma : IsQuiet ", " := by decide
  rw [ClientFile.importedTypes]
  cases ht : file.request.type? with
  | none => simpa using h.response
  | some t =>
    have hreq : IsQuiet t := h.request t ht
    have hboth : IsQuiet (t ++ ", " ++ file.responseType) :=
      (hreq.append hcomma).append h.response
    by_cases he : t = file.responseType
    · simpa [he] using h.response
    · simpa [he] using hboth

theorem reads_typeImport {file : ClientFile} (h : file.HasQuietNames) :
    Reads strict file.typeImport.statement [] := by
  obtain ⟨hne, hnames⟩ := isQuiet_importedTypes h
  have hstatement : file.typeImport.statement =
      "import type \x7b " ++ ", ".intercalate file.importedTypes ++ " \x7d from " ++
        (stringLiteral "./types" ++ ";") := by
    obtain ⟨t, ts, he⟩ := List.exists_cons_of_ne_nil hne
    have hsource : stringLiteral "./types" = "'./types'" := by decide
    apply String.toList_injective
    simp [typeImport_eq, Import.statement, he, hsource]
  have hopen : IsQuiet "import type \x7b " := by decide
  have hend : IsQuiet ";" := by decide
  rw [hstatement]
  exact ((hopen.append hnames).append (by decide)).reads.append
    ((reads_stringLiteral fun _ => by decide).append hend.reads)

theorem reads_axiosImport :
    Reads strict ({ source := "axios", default := some "axios" } : Import).statement [] := by
  have hstatement : ({ source := "axios", default := some "axios" } : Import).statement =
      "import axios from " ++ (stringLiteral "axios" ++ ";") := by decide
  have hopen : IsQuiet "import axios from " := by decide
  have hend : IsQuiet ";" := by decide
  rw [hstatement]
  exact hopen.reads.append ((reads_stringLiteral fun _ => by decide).append hend.reads)

theorem reads_callArguments {file : ClientFile} (h : strict = true → OnOneLine file.url) :
    Reads strict file.callArguments [] := by
  have hurl := reads_stringLiteral h
  rw [ClientFile.callArguments]
  split
  · exact hurl
  · split
    · have hdata : IsQuiet ", data" := by decide
      exact hurl.append hdata.reads
    · have hdata : IsQuiet ", \x7b data \x7d" := by decide
      exact hurl.append hdata.reads
  · have hparams : IsQuiet ", \x7b params \x7d" := by decide
    exact hurl.append hparams.reads

theorem reads_call {file : ClientFile} (h : file.HasQuietNames)
    (hurl : strict = true → OnOneLine file.url) : Reads strict file.call [] := by
  have hmethod : IsQuiet file.method.lowerName := by cases file.method <;> decide
  have haxios : IsQuiet "const response = await axios." := by decide
  have hopen : IsQuiet ("const response = await axios." ++ file.method.lowerName ++ "<" ++
      file.responseType ++ ">(") :=
    (((haxios.append hmethod).append (by decide)).append h.response).append (by decide)
  have hend : IsQuiet ");" := by decide
  exact (hopen.reads.append (reads_callArguments hurl)).append hend.reads

theorem isQuiet_signature {file : ClientFile} (h : file.HasQuietNames) :
    IsQuiet file.function.signature := by
  have hparameters : IsQuiet
      (", ".intercalate
        ((ClientFile.parameters file.request).map fun p => p.1 ++ ": " ++ p.2)) := by
    cases hr : file.request with
    | none => decide
    | body t =>
      have ht : IsQuiet t := h.request t (by rw [hr]; rfl)
      have hdata : IsQuiet "data: " := by decide
      simpa [ClientFile.parameters] using hdata.append ht
    | query t =>
      have ht : IsQuiet t := h.request t (by rw [hr]; rfl)
      have hparams : IsQuiet "params: " := by decide
      simpa [ClientFile.parameters] using hparams.append ht
  have hexport : IsQuiet ("export " ++ "async " ++ "function ") := by decide
  exact (((hexport.append h.function).append (by decide)).append hparameters).append (by decide)

theorem functionFragments_eq (file : ClientFile) :
    file.function.fragments = [.docLines file.function.doc,
      .block file.function.signature (file.function.body.map .line) (some "\x7d")] := by
  rw [Function.fragments, ClientFile.function]
  cases Text.allBlank file.title with
  | true => rfl
  | false => rfl

theorem ClientFile.reads_text {file : ClientFile} (h : file.HasQuietNames)
    (hurl : strict = true → OnOneLine file.url) : Reads strict file.text file.comments := by
  have himports : AllPlain strict (file.sourceFile.imports.map fun i => .line i.statement) :=
    ⟨reads_axiosImport, reads_typeImport h, trivial⟩
  have hbody : AllPlain strict (file.function.body.map .line) := by
    have hreturn : IsQuiet "return response.data;" := by decide
    exact ⟨reads_call h hurl, hreturn.reads, trivial⟩
  have hfunction : AllPlain strict file.function.fragments := by
    have hclose : IsQuiet "\x7d" := by decide
    rw [functionFragments_eq]
    refine ⟨trivial, ⟨(isQuiet_signature h).reads, hbody, ?_⟩, trivial⟩
    intro s hs
    cases hs
    exact hclose.reads
  have htop := (({} : Builder).adds_applyAll _ himports).trans (Builder.adds_blank _)
  have hall := htop.trans (Builder.adds_applyGroups _ [file.function.fragments]
    (List.forall_mem_singleton.mpr hfunction))
  have hcomments : file.comments = bodyComments (.spaces 2) 0
      (file.sourceFile.imports.map fun i => .line i.statement) ++ [] ++
        [file.function.fragments].flatMap (bodyComments (.spaces 2) 0) := by
    have hmargin : (Indent.spaces 2).margin 0 = "" := rfl
    rw [List.flatMap_singleton, functionFragments_eq, ClientFile.sourceFile]
    simp [bodyComments, Fragment.comments, bodyComments_lines, hmargin, ClientFile.comments]
  rw [hcomments]
  exact hall.reads

/-! Both files of an endpoint -/

theorem IsTypeName.isQuiet {name : String} (h : IsTypeName name) : IsQuiet name :=
  isQuiet_of_isIdentifier h.identifier

theorem declare_hasQuietNames {options : Options} {endpoint : Endpoint} {trees : EndpointTrees}
    {state : WalkState} (h : options.declare endpoint = (.ok trees, state)) :
    ∀ tree ∈ trees.sections, ∀ d ∈ tree.emissionOrder, HasQuietNames d := by
  intro tree ht d hd
  have hd : d ∈ tree.declarations := DeclarationTree.mem_emissionOrder.mp hd
  have hnames : ∀ name ∈ tree.names, IsQuiet name :=
    fun name hn => (declare_typeNames h tree ht name hn).isQuiet
  refine ⟨hnames _ (List.mem_map_of_mem hd), ?_⟩
  intro f hf name hname
  have hfield : f ∈ tree.fields := List.mem_flatMap.mpr ⟨d, hd, hf⟩
  exact hnames _ ((declare_linked h tree ht).reference_mem_names hfield hname)

theorem clientFile_hasQuietNames {options : Options} {endpoint : Endpoint} {trees : EndpointTrees}
    {state : WalkState} (h : options.declare endpoint = (.ok trees, state)) :
    (options.clientFile endpoint trees).HasQuietNames where
  function := by
    obtain ⟨-, -, hf⟩ := derive_usable (r := options.registry) rfl endpoint
    exact isQuiet_of_isIdentifier hf.identifier
  response :=
    (declare_typeNames h _ trees.response_mem_sections _
      trees.response.rootName_mem_names).isQuiet
  request := by
    intro name hn
    rw [Options.clientFile, requestArgument_type?, Option.mem_def, Option.map_eq_some_iff] at hn
    obtain ⟨tree, ht, rfl⟩ := hn
    have hs : tree ∈ trees.sections := EndpointTrees.request_mem_sections ht
    exact (declare_typeNames h tree hs _ tree.rootName_mem_names).isQuiet

/-- Every chunk of documentation has its terminator at its end and nowhere else. So a reader of
either file finds its comments as they were written, whatever the title, the path and the
descriptions say. A strict reader does so too, if no line break stands in the keys of the one file
and in the address of the other; for one that does breaks a literal in two. -/
theorem documentation_closed :
    (∀ (b : Builder) (s : String), ∃ chunk,
      (b.doc s).text = b.text ++ chunk ∧ ClosesAtEnd chunk.toList) ∧
    (∀ (b : Builder) (lines : List String), ∃ chunk,
      (b.docLines lines).text = b.text ++ chunk ∧ ClosesAtEnd chunk.toList) ∧
    (∀ (b : Builder) (s : String), ∃ chunk,
      (b.apply (.ofDoc s)).text = b.text ++ chunk ∧ ClosesAtEnd chunk.toList) ∧
    ∀ (options : Options) (endpoint : Endpoint) (artifacts : Artifacts),
      Artifacts.generate options endpoint = .ok artifacts →
      ∃ trees state, options.declare endpoint = (.ok trees, state) ∧
        comments false .code artifacts.types.toList = (trees.typesFile endpoint).comments ∧
        comments false .code artifacts.client.toList =
          (options.clientFile endpoint trees).comments ∧
        ((∀ tree ∈ trees.sections, ∀ d ∈ tree.declarations, HasPlainKeys d) →
          comments true .code artifacts.types.toList = (trees.typesFile endpoint).comments) ∧
        (OnOneLine (options.clientFile endpoint trees).url →
          comments true .code artifacts.client.toList =
            (options.clientFile endpoint trees).comments) := by
  refine ⟨Builder.doc_closes, Builder.docLines_closes, Builder.apply_ofDoc_closes, ?_⟩
  intro options endpoint artifacts h
  obtain ⟨trees, state, hd, htypes, hclient⟩ := Artifacts.generate_files h
  have hquiet := declare_hasQuietNames hd
  have hfile := clientFile_hasQuietNames hd
  have hlenient : ∀ {p : Prop}, false = true → p := fun h => absurd h Bool.false_ne_true
  rw [htypes, hclient]
  refine ⟨trees, state, hd, ?_, ?_, fun hkeys => ?_, fun hurl => ?_⟩
  · exact ((trees.typesFile endpoint).reads_text hquiet fun _ _ _ _ => hlenient).comments_eq
  · exact (ClientFile.reads_text hfile hlenient).comments_eq
  · refine ((trees.typesFile endpoint).reads_text hquiet fun tree ht d hd _ => ?_).comments_eq
    exact hkeys tree ht d (DeclarationTree.mem_emissionOrder.mp hd)
  · exact (ClientFile.reads_text hfile fun _ => hurl).comments_eq

/-- Terminators in the title, the path and both descriptions, some of them made by a seam. -/
def ticker : Endpoint where
  title := "**//"
  path := "/quote*/"
  method := .get
  request := .none
  response := .body {
    properties := [("price", { declaredType := some "number", description := some "in */ cents" })]
    description := some "a */\n*/ b" }

theorem ticker_closed : ∃ artifacts, Artifacts.generate {} ticker = .ok artifacts ∧
    comments false .code artifacts.types.toList =
      ["*\n * **\\//\n * @path /quote*\\/\n * @method GET\n ",
        "*\n * a *\\/\n * *\\/ b\n ", "* in *\\/ cents "] ∧
    comments true .code artifacts.types.toList = comments false .code artifacts.types.toList ∧
    comments false .code artifacts.client.toList =
      ["*\n * **\\//\n * @description /quote*\\/\n * @method GET\n "] ∧
    comments true .code artifacts.client.toList = comments false .code artifacts.client.toList := by
  obtain ⟨artifacts, h⟩ : ∃ artifacts, Artifacts.generate {} ticker = .ok artifacts := ⟨_, rfl⟩
  obtain ⟨trees, state, hd, ht, hc, hkeys, hurl⟩ : ∃ trees state,
      ({} : Options).declare ticker = (.ok trees, state) ∧
      (trees.typesFile ticker).comments =
        ["*\n * **\\//\n * @path /quote*\\/\n * @method GET\n ",
          "*\n * a *\\/\n * *\\/ b\n ", "* in *\\/ cents "] ∧
      (({} : Options).clientFile ticker trees).comments =
        ["*\n * **\\//\n * @description /quote*\\/\n * @method GET\n "] ∧
      (∀ tree ∈ trees.sections, ∀ d ∈ tree.declarations, HasPlainKeys d) ∧
      OnOneLine (({} : Options).clientFile ticker trees).url :=
    ⟨_, _, rfl, by decide +kernel, by decide +kernel, by decide +kernel, by decide +kernel⟩
  obtain ⟨-, -, -, hfiles⟩ := documentation_closed
  obtain ⟨trees', state', hd', htypes, hclient, hstrict, hstrict'⟩ := hfiles {} ticker artifacts h
  cases hd.symm.trans hd'
  exact ⟨artifacts, h, htypes.trans ht, (hstrict hkeys).trans htypes.symm, hclient.trans hc,
    (hstrict' hurl).trans hclient.symm⟩

end TypedApi.TypeScript
