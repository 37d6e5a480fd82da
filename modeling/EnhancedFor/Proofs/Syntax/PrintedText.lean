import EnhancedFor.Proofs.Syntax.Scopes

/-!
What stands at the spans of a printed unit. `Written` says for every part that has a span what is
written there: nodes as they are printed on their own, a statement at its level of indentation, and
head lines, types, members, parameters, fragments, types and names around them. Main statement:
after printing, each such text is what the span of the part cuts out, the parts of a node stand in
it one after the other, and a walk goes through the text from left to right.
-/

namespace EnhancedFor

def Import.text (imp : Import) : String :=
  "import " ++ (if imp.isStatic then "static " else "") ++ imp.path ++
    (if imp.isOnDemand then ".*" else "") ++ ";"

def Parameter.text (param : Parameter) : String := param.type.text ++ " " ++ param.name

namespace CompilationUnit

variable {unit : CompilationUnit}

/-- An expression as it is written on its own. -/
def exprText (unit : CompilationUnit) (id : ExprId) : String := (unit.exprLayout id).toText

/-- A statement as it is written on its own at a level of indentation. -/
def stmtText (unit : CompilationUnit) (level : Nat) (id : StmtId) : String :=
  (unit.stmtLayout level id).toText

def fragmentText (unit : CompilationUnit) (f : Fragment) : String :=
  f.name ++ f.init.elim "" fun e => " = " ++ unit.exprText e

def declText (unit : CompilationUnit) (decl : Declaration) : String :=
  decl.type.text ++ " " ++ ", ".intercalate (decl.fragments.map unit.fragmentText)

def methodText (unit : CompilationUnit) (m : Method) : String :=
  m.returnType.elim "void" (·.text) ++ " " ++ m.name ++ "(" ++
    ", ".intercalate (m.params.map Parameter.text) ++ ")" ++
    m.body.elim ";" fun body => " " ++ unit.stmtText 1 body

/-- Members stand one level in, and an empty line sets a method off from what is before it. -/
def typeDeclText (unit : CompilationUnit) (decl : TypeDecl) : String :=
  "class " ++ decl.name ++ " \x7b\n" ++
    String.join (decl.fields.map fun f => "    " ++ unit.declText f ++ ";\n") ++
    String.join (decl.methods.zipIdx.map fun x =>
      (if x.2 == 0 && decl.fields.isEmpty then "" else "\n") ++ "    " ++ unit.methodText x.1 ++
        "\n") ++
    "\x7d"

/-- The level of a statement. The body of a method is at the first, and a part of a statement one
below the statement, except for a block that is the body of another statement: it stays at the level
of that one. -/
inductive Indented (unit : CompilationUnit) : Nat → StmtId → Prop where
  | body {decl : TypeDecl} {m : Method} {s : StmtId} (hdecl : decl ∈ unit.types)
    (hm : m ∈ decl.methods) (hs : m.body = some s) : Indented unit 1 s
  | part {level : Nat} {id s : StmtId} {stmt : Stmt} (h : Indented unit level id)
    (hstmt : unit.stmt? id = some stmt) (hs : .stmt s ∈ stmt.children) :
    Indented unit
      (if !stmt.isBlock && (unit.stmt? s).any Stmt.isBlock then level else level + 1) s

/-- The places where variables are declared, with their declarations. -/
inductive DeclaresAt (unit : CompilationUnit) : DeclPlace → Declaration → Prop where
  | expr {id : ExprId} {decl : Declaration} (hr : unit.Rooted (.expr id))
    (he : unit.expr? id = some (.declare decl)) : DeclaresAt unit (.expr id) decl
  | stmt {id : StmtId} {decl : Declaration} (hr : unit.Rooted (.stmt id))
    (hs : unit.stmt? id = some (.declare decl)) : DeclaresAt unit (.stmt id) decl
  | field {t i : Nat} {type : TypeDecl} {decl : Declaration} (ht : unit.types[t]? = some type)
    (hi : type.fields[i]? = some decl) : DeclaresAt unit (.field t i) decl

/-- The places of parameters. -/
inductive TakesAt (unit : CompilationUnit) : ParamPlace → Parameter → Prop where
  | forEach {id body : StmtId} {param : Parameter} {iterable : ExprId} (hr : unit.Rooted (.stmt id))
    (hs : unit.stmt? id = some (.forEach param iterable body)) : TakesAt unit (.forEach id) param
  | method {t i k : Nat} {type : TypeDecl} {m : Method} {param : Parameter}
    (ht : unit.types[t]? = some type) (hi : type.methods[i]? = some m)
    (hk : m.params[k]? = some param) : TakesAt unit (.method t i k) param

/-- The parts of the unit with the texts that are written for them. -/
inductive Written (unit : CompilationUnit) : Mark → String → Prop where
  | package {name : String} (h : unit.package = some name) :
    Written unit .package ("package " ++ name ++ ";")
  | importLine {i : Nat} {imp : Import} (h : unit.imports[i]? = some imp) :
    Written unit (.importLine i) imp.text
  | typeDecl {t : Nat} {type : TypeDecl} (h : unit.types[t]? = some type) :
    Written unit (.typeDecl t) (unit.typeDeclText type)
  | field {t i : Nat} {decl : Declaration} (h : unit.DeclaresAt (.field t i) decl) :
    Written unit (.field t i) (unit.declText decl ++ ";")
  | method {t i : Nat} {type : TypeDecl} {m : Method} (ht : unit.types[t]? = some type)
    (hi : type.methods[i]? = some m) : Written unit (.method t i) (unit.methodText m)
  | returnType {t i : Nat} {type : TypeDecl} {m : Method} {ref : TypeRef}
    (ht : unit.types[t]? = some type) (hi : type.methods[i]? = some m)
    (hr : m.returnType = some ref) : Written unit (.returnType t i) ref.text
  | expr {id : ExprId} (hr : unit.Rooted (.expr id)) : Written unit (.expr id) (unit.exprText id)
  | fieldName {id receiver : ExprId} {name : String} {binding : Option VarId}
    (hr : unit.Rooted (.expr id)) (he : unit.expr? id = some (.field receiver name binding)) :
    Written unit (.exprName id) name
  | callName {id : ExprId} {receiver : Option ExprId} {name : String} {args : List ExprId}
    {binding : Option MethodId} (hr : unit.Rooted (.expr id))
    (he : unit.expr? id = some (.call receiver name args binding)) :
    Written unit (.exprName id) name
  | createdType {id : ExprId} {type : TypeRef} {args : List ExprId} (hr : unit.Rooted (.expr id))
    (he : unit.expr? id = some (.create type args)) : Written unit (.exprType id) type.text
  | castType {id inner : ExprId} {type : TypeRef} (hr : unit.Rooted (.expr id))
    (he : unit.expr? id = some (.cast type inner)) : Written unit (.exprType id) type.text
  | stmt {level : Nat} {id : StmtId} (h : unit.Indented level id) :
    Written unit (.stmt id) (unit.stmtText level id)
  | declType {place : DeclPlace} {decl : Declaration} (h : unit.DeclaresAt place decl) :
    Written unit (.declType place) decl.type.text
  | fragment {place : DeclPlace} {decl : Declaration} {i : Nat} {f : Fragment}
    (h : unit.DeclaresAt place decl) (hi : decl.fragments[i]? = some f) :
    Written unit (.fragment place i) (unit.fragmentText f)
  | fragmentName {place : DeclPlace} {decl : Declaration} {i : Nat} {f : Fragment}
    (h : unit.DeclaresAt place decl) (hi : decl.fragments[i]? = some f) :
    Written unit (.fragmentName place i) f.name
  | param {place : ParamPlace} {param : Parameter} (h : unit.TakesAt place param) :
    Written unit (.param place) param.text
  | paramType {place : ParamPlace} {param : Parameter} (h : unit.TakesAt place param) :
    Written unit (.paramType place) param.type.text
  | paramName {place : ParamPlace} {param : Parameter} (h : unit.TakesAt place param) :
    Written unit (.paramName place) param.name

/-! The texts of layouts. -/

theorem toText_importShape (imp : Import) : (importShape imp).toText = imp.text := by
  simp [importShape, Import.text]

theorem toText_paramLayout (place : ParamPlace) (param : Parameter) :
    (paramLayout place param).toText = param.text := by
  simp [paramLayout, typeRefLayout, Parameter.text]

/-- A fragment of a declaration with its mark. -/
def fragmentLayout (unit : CompilationUnit) (place : DeclPlace) (x : Fragment × Nat) : Layout :=
  .mark (.fragment place x.2)
    (.mark (.fragmentName place x.2) (.text x.1.name) ++
      optionalLayout " = " unit.exprLayout x.1.init)

theorem declLayout_eq (place : DeclPlace) (decl : Declaration) :
    declLayout unit.exprLayout place decl =
      typeRefLayout (.declType place) decl.type ++ .text " " ++
      .join ", " (decl.fragments.zipIdx.map (unit.fragmentLayout place)) := rfl

theorem toText_fragmentLayout (place : DeclPlace) (x : Fragment × Nat) :
    (unit.fragmentLayout place x).toText = unit.fragmentText x.1 := by
  unfold fragmentLayout fragmentText
  cases x.1.init <;> simp [optionalLayout, exprText]

theorem toText_declLayout (place : DeclPlace) (decl : Declaration) :
    (declLayout unit.exprLayout place decl).toText = unit.declText decl := by
  have hfragments : (decl.fragments.zipIdx.map (unit.fragmentLayout place)).map Layout.toText =
      decl.fragments.map unit.fragmentText := by
    rw [List.map_map, ← map_zipIdx_fst decl.fragments unit.fragmentText 0]
    exact List.map_congr_left fun x _ => toText_fragmentLayout place x
  rw [declLayout_eq, declText, ← hfragments]
  simp [typeRefLayout, Layout.toText_join]

theorem toText_methodParts (t i : Nat) (m : Method) :
    (unit.methodParts t i m).toText = unit.methodText m := by
  have hparams : (m.params.zipIdx.map
      fun x => paramLayout (.method t i x.2) x.1).map Layout.toText =
        m.params.map Parameter.text := by
    rw [List.map_map, ← map_zipIdx_fst m.params Parameter.text 0]
    exact List.map_congr_left fun x _ => toText_paramLayout _ x.1
  have hresult : (resultLayout t i m.returnType).toText = m.returnType.elim "void" (·.text) := by
    cases m.returnType <;> simp [resultLayout, typeRefLayout]
  have hbody : (unit.bodyLayout m.body).toText =
      ")" ++ m.body.elim ";" fun body => " " ++ unit.stmtText 1 body := by
    cases m.body <;> simp [bodyLayout, stmtText]
  simp [methodParts, methodText, hresult, hbody, Layout.toText_join, hparams, String.append_assoc]

theorem toText_typeParts (x : TypeDecl × Nat) :
    (unit.typeParts x).toText = unit.typeDeclText x.1 := by
  have hindent : (Layout.indent 1).toText = "    " := rfl
  have hfields : (x.1.fields.zipIdx.map fun y => unit.fieldLayout x.2 y.2 y.1).map Layout.toText =
      x.1.fields.map fun f => "    " ++ unit.declText f ++ ";\n" := by
    rw [List.map_map, ← map_zipIdx_fst x.1.fields (fun f => "    " ++ unit.declText f ++ ";\n") 0]
    refine List.map_congr_left fun y _ => ?_
    show (unit.fieldLayout x.2 y.2 y.1).toText = _
    simp [fieldLayout, hindent, toText_declLayout, String.append_assoc]
  have hmethods : (x.1.methods.zipIdx.map (unit.methodEntry x)).map Layout.toText =
      x.1.methods.zipIdx.map fun y => (if y.2 == 0 && x.1.fields.isEmpty then "" else "\n") ++
        "    " ++ unit.methodText y.1 ++ "\n" := by
    rw [List.map_map]
    refine List.map_congr_left fun y _ => ?_
    show (.text (if y.2 == 0 && x.1.fields.isEmpty then "" else "\n") ++ (Layout.indent 1 ++
      .mark (.method x.2 y.2) (unit.methodParts x.2 y.2 y.1) ++ .text "\n") : Layout).toText = _
    simp [hindent, toText_methodParts, String.append_assoc]
  simp only [typeParts, Layout.toText_append, Layout.toText_text, Layout.toText_concat, hfields,
    hmethods]
  rfl

/-! Where the parts stand in the layout. -/

theorem Indented.rooted {level : Nat} {id : StmtId} (h : unit.Indented level id) :
    unit.Rooted (.stmt id) := by
  induction h with
  | body hdecl hm hs =>
    refine ⟨_, mem_textRoots.1 (List.mem_flatMap.2 ⟨_, hdecl, ?_⟩), .refl⟩
    exact List.mem_append_right _ (List.mem_map_of_mem (List.mem_filterMap.2 ⟨_, hm, hs⟩))
  | part _ hstmt hs ih => exact ih.kid (kids_stmt hstmt ▸ hs)

/-- Every statement of the trees has a level. -/
theorem Rooted.exists_indented {id : StmtId} (h : unit.Rooted (.stmt id)) :
    ∃ level, unit.Indented level id := by
  obtain ⟨root, hroot, hb⟩ := h
  generalize hnode : Node.stmt id = node at hb
  induction hb generalizing id with
  | refl =>
    subst hnode
    obtain ⟨decl, hdecl, hr⟩ := List.mem_flatMap.1 (mem_textRoots.2 hroot)
    rcases List.mem_append.1 hr with hr | hr
    · simp at hr
    · obtain ⟨s, hs, heq⟩ := List.mem_map.1 hr
      obtain rfl := Node.stmt.inj heq
      obtain ⟨m, hm, hbody⟩ := List.mem_filterMap.1 hs
      exact ⟨1, .body hdecl hm hbody⟩
  | @tail parent kid _ hk ih =>
    subst hnode
    cases parent with
    | expr e =>
      obtain ⟨inner, hinner⟩ := exists_expr_of_mem_kids hk
      cases hinner
    | stmt p =>
      obtain ⟨level, hp⟩ := ih rfl
      have hsome := contains_iff.1 (contains_of_mem_kids hk)
      obtain ⟨stmt, hstmt, heq⟩ := Option.map_eq_some_iff.1 hsome
      exact ⟨_, hp.part hstmt (heq ▸ hk)⟩

theorem part_methodParts {t i : Nat} {type : TypeDecl} {m : Method}
    (ht : unit.types[t]? = some type) (hi : type.methods[i]? = some m) :
    ∃ pre, (Layout.mark (.method t i) (unit.methodParts t i m)).Part unit.layout pre := by
  obtain ⟨pre, htype⟩ := part_type (List.mk_mem_zipIdx_iff_getElem?.2 ht)
  obtain ⟨pre', hmethod⟩ := part_method unit (x := (type, t)) (List.mk_mem_zipIdx_iff_getElem?.2 hi)
  exact ⟨_, Layout.Part.trans (.inner hmethod) htype⟩

theorem part_field {t i : Nat} {type : TypeDecl} {decl : Declaration}
    (ht : unit.types[t]? = some type) (hi : type.fields[i]? = some decl) :
    ∃ pre, (Layout.mark (.field t i)
      (declLayout unit.exprLayout (.field t i) decl ++ .text ";")).Part unit.layout pre := by
  obtain ⟨pre, htype⟩ := part_type (List.mk_mem_zipIdx_iff_getElem?.2 ht)
  obtain ⟨pre', hfield⟩ := Layout.part_concat (g := fun y => unit.fieldLayout t y.2 y.1)
    (List.mk_mem_zipIdx_iff_getElem?.2 hi)
  have hin := Layout.Part.trans (.left (.right .here)) hfield
  exact ⟨_, Layout.Part.trans (.inner (.left (.left (.right hin)))) htype⟩

/-- A part of a statement is laid out in it at the level it has there. -/
theorem part_stmtShape (unit : CompilationUnit) (level : Nat) (id : StmtId) {stmt : Stmt}
    {s : StmtId} (hs : .stmt s ∈ stmt.children) :
    ∃ pre, (unit.stmtLayout
      (if !stmt.isBlock && (unit.stmt? s).any Stmt.isBlock then level else level + 1) s).Part
      (stmtShape unit.exprLayout (unit.stmtLine level) (unit.stmtBody level) level id stmt)
      pre := by
  let laid (n : Node) (l : Layout) : Prop := ∀ t, n = .stmt t → l = unit.stmtLayout
    (if !stmt.isBlock && (unit.stmt? t).any Stmt.isBlock then level else level + 1) t
  have hexpr (e : ExprId) : ∀ n ∈ [Node.expr e], ∃ l pre, laid n l ∧
      l.Part (unit.exprLayout e) pre := by
    intro n hn
    obtain rfl := List.mem_singleton.1 hn
    exact ⟨_, [], fun t ht => Node.noConfusion ht, .here⟩
  have hkid (t : StmtId) {a : Layout} (ha : ∃ pre, (unit.stmtLayout
      (if !stmt.isBlock && (unit.stmt? t).any Stmt.isBlock then level else level + 1)
      t).Part a pre) :
      ∀ n ∈ [Node.stmt t], ∃ l pre, laid n l ∧ l.Part a pre := by
    intro n hn
    obtain rfl := List.mem_singleton.1 hn
    obtain ⟨pre, ha⟩ := ha
    exact ⟨_, pre, fun t' ht => Node.stmt.inj ht ▸ rfl, ha⟩
  have hparts := @stmtShape_rel _ (compositional_part laid) unit.exprLayout unit.exprLayout
    (fun n => [n])
    level id stmt (unit.stmtLine level) (unit.stmtLine level) (unit.stmtBody level)
      (unit.stmtBody level)
    (fun e _ => hexpr e) (fun hb t _ => hkid t ?_) (fun hb t _ => hkid t ?_)
  · rw [List.flatMap_singleton'] at hparts
    obtain ⟨l, pre, hl, hp⟩ := hparts (.stmt s) hs
    exact ⟨pre, hl s rfl ▸ hp⟩
  · rw [hb]
    exact ⟨_, .right .here⟩
  · rw [hb]
    unfold stmtBody
    cases (unit.stmt? t).any Stmt.isBlock with
    | true => exact ⟨_, .here⟩
    | false => exact ⟨_, .right .here⟩

section Places

variable (hu : unit.SingleUse) (hc : unit.Complete)

include hu hc

theorem Rooted.part_exprLayout {id : ExprId} (h : unit.Rooted (.expr id)) :
    ∃ pre, (unit.exprLayout id).Part unit.layout pre := by
  obtain ⟨_, pre, hp⟩ := h.part_layout hu hc
  exact ⟨pre, hp⟩

theorem Indented.part_stmtLayout {level : Nat} {id : StmtId} (h : unit.Indented level id) :
    ∃ pre, (unit.stmtLayout level id).Part unit.layout pre := by
  induction h with
  | @body decl m s hdecl hm hs =>
    obtain ⟨t, ht⟩ := List.mem_iff_getElem?.1 hdecl
    obtain ⟨i, hi⟩ := List.mem_iff_getElem?.1 hm
    obtain ⟨pre, hmethod⟩ := part_methodParts ht hi
    obtain ⟨gap, hbody⟩ := part_body unit t i hs
    exact ⟨_, Layout.Part.trans (.inner hbody) hmethod⟩
  | @part level id s stmt h hstmt hs ih =>
    obtain ⟨pre, hp⟩ := ih
    obtain ⟨gap, hin⟩ := part_stmtShape unit level id hs
    rw [(hu.grounded hc h.rooted).stmtLayout_eq hstmt] at hp
    exact ⟨_, Layout.Part.trans (.inner hin) hp⟩

theorem DeclaresAt.part_declLayout {place : DeclPlace} {decl : Declaration}
    (h : unit.DeclaresAt place decl) :
    ∃ pre, (declLayout unit.exprLayout place decl).Part unit.layout pre := by
  cases h with
  | expr hr he =>
    obtain ⟨pre, hp⟩ := hr.part_exprLayout hu hc
    rw [(hu.grounded hc hr).exprLayout_eq he] at hp
    exact ⟨_, Layout.Part.trans (.inner .here) hp⟩
  | stmt hr hs =>
    obtain ⟨level, hlevel⟩ := hr.exists_indented
    obtain ⟨pre, hp⟩ := hlevel.part_stmtLayout hu hc
    rw [(hu.grounded hc hr).stmtLayout_eq hs] at hp
    exact ⟨_, Layout.Part.trans (.inner (.left .here)) hp⟩
  | field ht hi =>
    obtain ⟨pre, hp⟩ := part_field ht hi
    exact ⟨_, Layout.Part.trans (.inner (.left .here)) hp⟩

theorem TakesAt.part_paramLayout {place : ParamPlace} {param : Parameter}
    (h : unit.TakesAt place param) : ∃ pre, (paramLayout place param).Part unit.layout pre := by
  cases h with
  | forEach hr hs =>
    obtain ⟨level, hlevel⟩ := hr.exists_indented
    obtain ⟨pre, hp⟩ := hlevel.part_stmtLayout hu hc
    rw [(hu.grounded hc hr).stmtLayout_eq hs] at hp
    exact ⟨_, Layout.Part.trans (.inner (.left (.left (.left (.left (.right .here)))))) hp⟩
  | @method t i k type m param ht hi hk =>
    obtain ⟨pre, hp⟩ := part_methodParts ht hi
    obtain ⟨gap, hparam⟩ := Layout.part_join ", "
      (g := fun x => paramLayout (.method t i x.2) x.1) (List.mk_mem_zipIdx_iff_getElem?.2 hk)
    exact ⟨_, Layout.Part.trans (.inner (.left (.right hparam))) hp⟩

/-- What is written for a part stands in the layout under the mark of the part. -/
theorem Written.part {m : Mark} {text : String} (h : unit.Written m text) :
    ∃ inner pre, (Layout.mark m inner).Part unit.layout pre ∧ inner.toText = text := by
  cases h with
  | @package name h =>
    have hpackage : ∃ pre, (Layout.mark .package (.text "package " ++ .text name ++ .text ";")).Part
        (packageLayout unit.package) pre := by
      rw [h]
      exact ⟨_, .left .here⟩
    obtain ⟨pre, hp⟩ := hpackage
    exact ⟨_, _, .left (.left (.left hp)), by simp⟩
  | importLine h =>
    obtain ⟨pre, hp⟩ := Layout.part_concat (g := fun x => importLayout x.2 x.1)
      (List.mk_mem_zipIdx_iff_getElem?.2 h)
    have hline := Layout.Part.trans (.left .here) hp
    exact ⟨_, _, .left (.left (.right hline)), toText_importShape _⟩
  | typeDecl h =>
    obtain ⟨pre, hp⟩ := part_type (List.mk_mem_zipIdx_iff_getElem?.2 h)
    exact ⟨_, _, hp, toText_typeParts _⟩
  | field h =>
    cases h with
    | field ht hi =>
      obtain ⟨pre, hp⟩ := part_field ht hi
      exact ⟨_, _, hp, by simp [toText_declLayout]⟩
  | method ht hi =>
    obtain ⟨pre, hp⟩ := part_methodParts ht hi
    exact ⟨_, _, hp, toText_methodParts _ _ _⟩
  | @returnType t i type m ref ht hi hr =>
    obtain ⟨pre, hp⟩ := part_methodParts ht hi
    have hresult : (Layout.mark (.returnType t i) (.text ref.text)).Part
        (resultLayout t i m.returnType) [] := by
      rw [hr]
      exact .here
    exact ⟨_, _, Layout.Part.trans (.inner (.left (.left (.left hresult)))) hp, by simp⟩
  | expr hr =>
    obtain ⟨pre, hp⟩ := hr.part_exprLayout hu hc
    obtain ⟨a, heq⟩ := (hu.grounded hc hr).exists_mark 0
    have heq : unit.exprLayout _ = _ := heq
    rw [heq] at hp
    exact ⟨_, _, hp, by rw [exprText, heq]; rfl⟩
  | fieldName hr he =>
    obtain ⟨pre, hp⟩ := hr.part_exprLayout hu hc
    rw [(hu.grounded hc hr).exprLayout_eq he] at hp
    exact ⟨_, _, Layout.Part.trans (.inner (.right .here)) hp, by simp⟩
  | callName hr he =>
    obtain ⟨pre, hp⟩ := hr.part_exprLayout hu hc
    rw [(hu.grounded hc hr).exprLayout_eq he] at hp
    exact ⟨_, _, Layout.Part.trans (.inner (.left (.left (.left (.right .here))))) hp, by simp⟩
  | createdType hr he =>
    obtain ⟨pre, hp⟩ := hr.part_exprLayout hu hc
    rw [(hu.grounded hc hr).exprLayout_eq he] at hp
    exact ⟨_, _, Layout.Part.trans (.inner (.left (.left (.left (.right .here))))) hp, by simp⟩
  | castType hr he =>
    obtain ⟨pre, hp⟩ := hr.part_exprLayout hu hc
    rw [(hu.grounded hc hr).exprLayout_eq he] at hp
    exact ⟨_, _, Layout.Part.trans (.inner (.left (.left (.right .here)))) hp, by simp⟩
  | @stmt level id h =>
    obtain ⟨pre, hp⟩ := h.part_stmtLayout hu hc
    obtain ⟨a, heq⟩ := (hu.grounded hc h.rooted).exists_mark level
    have heq : unit.stmtLayout level id = _ := heq
    rw [heq] at hp
    exact ⟨_, _, hp, by rw [stmtText, heq]; rfl⟩
  | declType h =>
    obtain ⟨pre, hp⟩ := h.part_declLayout hu hc
    exact ⟨_, _, Layout.Part.trans (.left (.left .here)) hp, by simp⟩
  | @fragment place decl i f h hi =>
    obtain ⟨pre, hp⟩ := h.part_declLayout hu hc
    obtain ⟨gap, hin⟩ := Layout.part_join ", " (g := unit.fragmentLayout place)
      (List.mk_mem_zipIdx_iff_getElem?.2 hi)
    rw [declLayout_eq] at hp
    exact ⟨_, _, Layout.Part.trans (.right hin) hp, toText_fragmentLayout place (f, i)⟩
  | @fragmentName place decl i f h hi =>
    obtain ⟨pre, hp⟩ := h.part_declLayout hu hc
    obtain ⟨gap, hin⟩ := Layout.part_join ", " (g := unit.fragmentLayout place)
      (List.mk_mem_zipIdx_iff_getElem?.2 hi)
    rw [declLayout_eq] at hp
    have hname := Layout.Part.trans (.inner (.left .here)) hin
    exact ⟨_, _, Layout.Part.trans (.right hname) hp, by simp⟩
  | param h =>
    obtain ⟨pre, hp⟩ := h.part_paramLayout hu hc
    exact ⟨_, _, hp, toText_paramLayout _ _⟩
  | paramType h =>
    obtain ⟨pre, hp⟩ := h.part_paramLayout hu hc
    exact ⟨_, _, Layout.Part.trans (.inner (.left (.left .here))) hp, by simp⟩
  | paramName h =>
    obtain ⟨pre, hp⟩ := h.part_paramLayout hu hc
    exact ⟨_, _, Layout.Part.trans (.inner (.right .here)) hp, by simp⟩

end Places

theorem slice?_of_part {m : Mark} {inner : Layout} {pre : Chars}
    (hs : unit.StandsAt (fun _ => true) 0 unit.layout)
    (htext : unit.text.toList = unit.layout.chars)
    (hp : (Layout.mark m inner).Part unit.layout pre) :
    Chars.slice? unit.text.toList (unit.spans m) = some inner.toText.toList := by
  have hspan := (hs.part hp).span rfl
  rw [Nat.zero_add] at hspan
  obtain ⟨post, hpost⟩ := hp.chars_eq
  rw [Layout.chars_mark] at hpost
  rw [htext, hpost, hspan, Layout.toList_toText, Chars.slice?,
    Chars.cut?_append pre inner.chars post _ rfl rfl]
  rfl

/-- A walk from a node goes through the text from left to right. -/
theorem walk_starts {node : Node} (ha : ∀ node, unit.Rooted node → unit.Arranged node)
    (h : unit.Grounded node) (hr : unit.Rooted node) (descend : Node → Bool) :
    (unit.nodesBelow node descend).Pairwise fun a b =>
      (unit.nodeSpan a).start ≤ (unit.nodeSpan b).start := by
  induction h using Grounded.rec_kids with
  | step node h ih =>
    have hin {kid n : Node} (hk : kid ∈ unit.kids node) (hn : n ∈ unit.nodesBelow kid descend) :
        unit.Below kid n := ((h.kid hk).mem_nodesBelow.1 hn).below
    rw [h.nodesBelow_eq]
    split
    · refine List.pairwise_cons.2 ⟨fun n hn => ?_, List.pairwise_flatMap.2 ⟨fun kid hk => ?_, ?_⟩⟩
      · obtain ⟨kid, hk, hn⟩ := List.mem_flatMap.1 hn
        exact (span_below ha hr (.head hk (hin hk hn))).1
      · exact ih kid hk (hr.kid hk)
      · -- The nodes below a part end before the next part starts.
        refine (ha node hr).kids.pairwise.imp_of_mem fun {a b} hka hkb hle x hx y hy => ?_
        have hxa := span_below ha (hr.kid hka) (hin hka hx)
        have hyb := span_below ha (hr.kid hkb) (hin hkb hy)
        have hspan := (ha x ((hr.kid hka).below (hin hka hx))).kids.le
        omega
    · exact List.pairwise_singleton _ _

/-- For every unit that uses no node twice and has all nodes of its trees: it is printed, and in the
printed unit the span of each part cuts out of the text exactly what is written for that part, each
statement having a level to be written at. The parts of a node stand within its span, each ending
before the next one starts, and a walk from a node meets the nodes of its tree in the order of their
starts. -/
theorem reprint_spans_exact {draft : CompilationUnit} (hu : draft.SingleUse) (hc : draft.Complete) :
    ∃ unit, draft.reprint = .ok unit ∧
      (∀ m text, draft.Written m text →
        Chars.slice? unit.text.toList (unit.spans m) = some text.toList) ∧
      (∀ id, draft.Rooted (.stmt id) → ∃ level, draft.Indented level id) ∧
      (∀ node, draft.Rooted node → ∃ kids, unit.children node = .ok kids ∧
        (∀ kid ∈ kids, (unit.nodeSpan node).start ≤ (unit.nodeSpan kid).start ∧
          (unit.nodeSpan kid).start ≤ (unit.nodeSpan kid).stop ∧
          (unit.nodeSpan kid).stop ≤ (unit.nodeSpan node).stop) ∧
        kids.Pairwise fun a b => (unit.nodeSpan a).stop ≤ (unit.nodeSpan b).start) ∧
      ∀ node, draft.Rooted node → ∃ found, unit.visited node (fun _ => true) = .ok found ∧
        (∀ n, n ∈ found ↔ draft.Below node n) ∧
        found.Pairwise fun a b => (unit.nodeSpan a).start ≤ (unit.nodeSpan b).start := by
  have hprint := hu.reprint_eq hc
  have hstands := standsAt_of_reprint hprint hu
  obtain ⟨hcomplete, htext, -⟩ := shows_of_reprint hprint hu
  have harranged (node : Node) (hr : draft.print.Rooted node) : draft.print.Arranged node :=
    arranged_of_reprint hprint hu hr
  have hgrounded {node : Node} (hr : draft.print.Rooted node) : draft.print.Grounded node :=
    SingleUse.grounded hu hcomplete hr
  refine ⟨draft.print, hprint, fun m text h => ?_, fun id h => h.exists_indented, fun node hr => ?_,
    fun node hr => ?_⟩
  · obtain ⟨inner, pre, hp, rfl⟩ := h.part hu hc
    rw [← layout_print] at hp
    exact slice?_of_part hstands htext hp
  · have horder := (harranged node hr).kids
    refine ⟨draft.print.kids node, ?_, fun kid hk => horder.bounds hk, horder.pairwise⟩
    rw [children, (hgrounded hr).children]
    rfl
  · refine ⟨_, (hgrounded hr).visited_eq_ok _, fun n => (hgrounded hr).mem_subtree, ?_⟩
    exact walk_starts harranged (hgrounded hr) hr _

end CompilationUnit

namespace Braceless

/-- The unit below a package line and an import. -/
def packaged : CompilationUnit :=
  { unit with package := some "app", imports := [⟨"java.util", false, true⟩] }

theorem singleUse_packaged : packaged.SingleUse := by decide

theorem complete_packaged : packaged.Complete := singleUse_packaged.complete_iff.1 rfl

/-- The branch is the body of a loop without braces that is itself such a body. -/
theorem indented_branch : packaged.Indented 4 ⟨2⟩ := by
  have hbody : packaged.Indented 1 ⟨8⟩ := .body List.mem_cons_self List.mem_cons_self rfl
  have hloop : packaged.Indented 2 ⟨4⟩ := hbody.part (s := ⟨4⟩) rfl (by decide)
  have helement : packaged.Indented 3 ⟨3⟩ := hloop.part (s := ⟨3⟩) rfl (by decide)
  exact helement.part (s := ⟨2⟩) rfl (by decide)

/-- The branch is cut out with the line break before its call and the blanks of the fifth level. -/
theorem branch_cut_out : packaged.SingleUse ∧ packaged.Complete ∧ ∃ printed,
    packaged.reprint = .ok printed ∧
    Chars.slice? printed.text.toList (printed.spans (.importLine 0)) =
      some "import java.util.*;".toList ∧
    Chars.slice? printed.text.toList (printed.stmtSpan ⟨2⟩) =
      some "if (c) \n                    g();".toList ∧
    Chars.slice? printed.text.toList (printed.spans (.fragment (.field 0 0) 0)) = some "f".toList ∧
    (printed.stmtSpan ⟨4⟩).stop ≤ (printed.stmtSpan ⟨5⟩).start := by
  obtain ⟨printed, hprint, htext, -, hkids, -⟩ :=
    CompilationUnit.reprint_spans_exact singleUse_packaged complete_packaged
  obtain ⟨-, rfl⟩ := CompilationUnit.eq_print_of_reprint hprint
  have hline := htext _ _ (.importLine (i := 0) rfl)
  have hbranch := htext _ _ (.stmt indented_branch)
  have hfragment := htext _ _ (.fragment (i := 0) (.field (t := 0) (i := 0) rfl rfl) rfl)
  have hroot : packaged.Rooted (.stmt ⟨8⟩) := ⟨_, by decide, .refl⟩
  obtain ⟨kids, hchildren, -, horder⟩ := hkids _ hroot
  have heq : kids = [.stmt ⟨0⟩, .stmt ⟨4⟩, .stmt ⟨5⟩, .stmt ⟨7⟩] := (Except.ok.inj hchildren).symm
  subst heq
  refine ⟨singleUse_packaged, complete_packaged, _, hprint, hline, hbranch, hfragment, ?_⟩
  exact (List.pairwise_cons.1 (List.pairwise_cons.1 horder).2).1 _ List.mem_cons_self

end Braceless
end EnhancedFor
