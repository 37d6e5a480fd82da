import EnhancedFor.Proofs.Lists
import EnhancedFor.Proofs.Syntax.Layout

/-!
Relations between the layouts of two units. A compositional relation that holds for the layouts of
all parts of a node holds for the node, so that a fact about layouts needs a proof for its leaves
only.
-/

namespace EnhancedFor

namespace Layout

/-- A relation between layouts, with the nodes that concern the first one in the order of the text,
that goes through texts, sequences and marks. -/
structure Compositional (R : Layout → List Node → Layout → Prop) : Prop where
  text : ∀ s, R (.text s) [] (.text s)
  append : ∀ {a a' b b' : Layout} {ns ms : List Node}, R a ns a' → R b ms b' →
    R (a ++ b) (ns ++ ms) (a' ++ b')
  mark : ∀ {m : Mark} {a a' : Layout} {ns : List Node}, m.isKey = false → R a ns a' →
    R (.mark m a) ns (.mark m a')

namespace Compositional

variable {R : Layout → List Node → Layout → Prop} (hR : Compositional R) {α : Type}
  {g g' : α → Layout} {nodes : α → List Node} {xs : List α}

include hR

theorem empty : R .empty [] .empty := hR.text ""

/-- A part that concerns no node adds none. -/
theorem append_plain {a a' b b' : Layout} {ns : List Node} (h : R a ns a') (hb : R b [] b') :
    R (a ++ b) ns (a' ++ b') := by
  simpa using hR.append h hb

theorem plain_append {a a' b b' : Layout} {ns : List Node} (hb : R b [] b') (h : R a ns a') :
    R (b ++ a) ns (b' ++ a') := hR.append hb h

theorem concat (h : ∀ x ∈ xs, R (g x) (nodes x) (g' x)) :
    R (.concat (xs.map g)) (xs.flatMap nodes) (.concat (xs.map g')) := by
  induction xs with
  | nil => exact hR.empty
  | cons x xs ih =>
    exact hR.append (h x List.mem_cons_self) (ih fun y hy => h y (List.mem_cons_of_mem _ hy))

theorem join (separator : String) (h : ∀ x ∈ xs, R (g x) (nodes x) (g' x)) :
    R (.join separator (xs.map g)) (xs.flatMap nodes) (.join separator (xs.map g')) := by
  induction xs with
  | nil => exact hR.empty
  | cons x xs ih =>
    have hx := h x List.mem_cons_self
    cases xs with
    | nil => simpa [Layout.join] using hx
    | cons y ys =>
      exact hR.append (hR.append_plain hx (hR.text separator))
        (ih fun z hz => h z (List.mem_cons_of_mem _ hz))

theorem join_plain (separator : String) (h : ∀ x ∈ xs, R (g x) [] (g' x)) :
    R (.join separator (xs.map g)) [] (.join separator (xs.map g')) := by
  have hnil : xs.flatMap (fun _ => ([] : List Node)) = [] :=
    List.flatMap_eq_nil_iff.2 fun _ _ => rfl
  exact hnil ▸ hR.join separator h

end Compositional
end Layout

/-- The roots of a type in the order of the text. -/
def TypeDecl.roots (decl : TypeDecl) : List Node :=
  (decl.fields.flatMap (·.inits)).map .expr ++ (decl.methods.filterMap (·.body)).map .stmt

namespace CompilationUnit

open Layout (Compositional)

variable {R : Layout → List Node → Layout → Prop} (hR : Compositional R)
  {sub sub' : ExprId → Layout} {nodes : Node → List Node}

include hR

theorem typeRefLayout_rel (place : Mark) (hp : place.isKey = false) (ref : TypeRef) :
    R (typeRefLayout place ref) [] (typeRefLayout place ref) := hR.mark hp (hR.text _)

theorem paramLayout_rel (place : ParamPlace) (param : Parameter) :
    R (paramLayout place param) [] (paramLayout place param) := by
  have htype := typeRefLayout_rel hR (.paramType place) rfl param.type
  exact hR.mark rfl (hR.append (hR.append_plain htype (hR.text " ")) (hR.mark rfl (hR.text _)))

theorem optionalLayout_rel (first : String) {α : Type} {g g' : α → Layout} {ns : α → List Node}
    {x : Option α} (h : ∀ a ∈ x.toList, R (g a) (ns a) (g' a)) :
    R (optionalLayout first g x) (x.toList.flatMap ns) (optionalLayout first g' x) := by
  cases x with
  | none => exact hR.empty
  | some a =>
    rw [Option.toList_some, List.flatMap_singleton]
    exact hR.plain_append (hR.text first) (h a List.mem_cons_self)

theorem receiverLayout_rel {receiver : Option ExprId}
    (h : ∀ c ∈ receiver.toList, R (sub c) (nodes (.expr c)) (sub' c)) :
    R (receiverLayout sub receiver) (receiver.toList.flatMap fun c => nodes (.expr c))
      (receiverLayout sub' receiver) := by
  cases receiver with
  | none => exact hR.empty
  | some r =>
    rw [Option.toList_some, List.flatMap_singleton]
    exact hR.append_plain (h r List.mem_cons_self) (hR.text ".")

theorem declLayout_rel (place : DeclPlace) {decl : Declaration}
    (h : ∀ e ∈ decl.inits, R (sub e) (nodes (.expr e)) (sub' e)) :
    R (declLayout sub place decl) (decl.inits.flatMap fun e => nodes (.expr e))
      (declLayout sub' place decl) := by
  have htype := typeRefLayout_rel hR (.declType place) rfl decl.type
  rw [Declaration.inits, flatMap_filterMap, ← flatMap_zipIdx decl.fragments _ 0]
  refine hR.plain_append (hR.append htype (hR.text " ")) (hR.join ", " ?_)
  rintro ⟨f, i⟩ hf
  have hname := hR.mark (m := .fragmentName place i) rfl (hR.text f.name)
  refine hR.mark rfl (hR.plain_append hname (optionalLayout_rel hR " = " fun e he => h e ?_))
  have hf : f ∈ decl.fragments := (List.mem_zipIdx' hf).2 ▸ List.getElem_mem _
  exact List.mem_filterMap.2 ⟨f, hf, Option.mem_toList.1 he⟩

theorem exprShape_rel (id : ExprId) {e : Expr}
    (h : ∀ c ∈ e.children, R (sub c) (nodes (.expr c)) (sub' c)) :
    R (exprShape sub id e) (e.children.flatMap fun c => nodes (.expr c)) (exprShape sub' id e) := by
  have hargs {args : List ExprId} (ha : ∀ c ∈ args, R (sub c) (nodes (.expr c)) (sub' c)) :
      R (.join ", " (args.map sub)) (args.flatMap fun c => nodes (.expr c))
        (.join ", " (args.map sub')) := hR.join ", " ha
  have hname (s : String) : R (.mark (.exprName id) (.text s)) []
      (.mark (.exprName id) (.text s)) :=
    hR.mark rfl (hR.text s)
  have htype (ref : TypeRef) := typeRefLayout_rel hR (.exprType id) rfl ref
  have hop (s : String) : R (.text " " ++ .text s ++ .text " ") []
      (.text " " ++ .text s ++ .text " ") :=
    hR.append (hR.append (hR.text " ") (hR.text s)) (hR.text " ")
  have hone (c : ExprId) : [c].flatMap (fun c => nodes (.expr c)) = nodes (.expr c) := by simp
  have htwo (c d : ExprId) :
      [c, d].flatMap (fun c => nodes (.expr c)) = nodes (.expr c) ++ nodes (.expr d) := by simp
  cases e with
  | name name binding => exact hR.text name
  | field receiver name binding =>
    rw [Expr.children, hone]
    exact hR.append_plain (hR.append_plain (h receiver List.mem_cons_self) (hR.text "."))
      (hname name)
  | call receiver name args binding =>
    rw [Expr.children, List.flatMap_append]
    have hopen := hR.append_plain (hR.append_plain
      (receiverLayout_rel hR fun c hc => h c (List.mem_append_left _ hc)) (hname name))
        (hR.text "(")
    exact hR.append_plain
      (hR.append hopen (hargs fun c hc => h c (List.mem_append_right _ hc))) (hR.text ")")
  | create type args =>
    have hopen := hR.append_plain (hR.append (hR.text "new ") (htype type)) (hR.text "(")
    exact hR.append_plain (hR.plain_append hopen (hargs h)) (hR.text ")")
  | assign op target value =>
    rw [Expr.children, htwo]
    exact hR.append (hR.append_plain (h target List.mem_cons_self) (hop op.text))
      (h value (List.mem_cons_of_mem _ List.mem_cons_self))
  | declare decl => exact declLayout_rel hR (.expr id) h
  | literal kind text =>
    cases kind with
    | string => exact hR.append (hR.append (hR.text "\"") (hR.text text)) (hR.text "\"")
    | null | bool | int => exact hR.text text
  | cast type inner =>
    rw [Expr.children, hone]
    have hopen := hR.append_plain (hR.append (hR.text "(") (htype type)) (hR.text ") ")
    exact hR.plain_append hopen (h inner List.mem_cons_self)
  | paren inner =>
    rw [Expr.children, hone]
    exact hR.append_plain (hR.plain_append (hR.text "(") (h inner List.mem_cons_self)) (hR.text ")")
  | binary op left right =>
    rw [Expr.children, htwo]
    exact hR.append (hR.append_plain (h left List.mem_cons_self) (hop op.text))
      (h right (List.mem_cons_of_mem _ List.mem_cons_self))
  | unary op operand =>
    rw [Expr.children, hone]
    exact hR.append_plain (hR.plain_append (hR.text op.before) (h operand List.mem_cons_self))
      (hR.text op.after)
  | self => exact hR.text _
  | missing => exact hR.empty

theorem lineLayout_rel (level : Nat) {a a' : Layout} {ns : List Node} (h : R a ns a') :
    R (lineLayout level a) ns (lineLayout level a') :=
  hR.plain_append (hR.append (hR.text _) (hR.text _)) h

theorem countedHead_rel {inits updates : List ExprId} {condition : Option ExprId}
    (h : ∀ e ∈ inits ++ condition.toList ++ updates, R (sub e) (nodes (.expr e)) (sub' e)) :
    R (countedHead sub inits condition updates)
      ((inits ++ condition.toList ++ updates).flatMap fun e => nodes (.expr e))
      (countedHead sub' inits condition updates) := by
  have hinit : ∀ e ∈ inits, R (sub e) (nodes (.expr e)) (sub' e) := fun e he => h e (by simp [he])
  have hinits := hR.append_plain (hR.plain_append (hR.text "for (") (hR.join ", " hinit))
    (hR.text ";")
  have hcondition : ∀ e ∈ condition.toList, R (sub e) (nodes (.expr e)) (sub' e) :=
    fun e he => h e (List.mem_append_left _ (List.mem_append_right _ he))
  have hcond := hR.append_plain
    (hR.append hinits (optionalLayout_rel hR " " hcondition)) (hR.text ";")
  have hupdates : R
      (if updates.isEmpty then .empty else .text " " ++ .join ", " (updates.map sub))
      (updates.flatMap fun e => nodes (.expr e))
      (if updates.isEmpty then .empty else .text " " ++ .join ", " (updates.map sub')) := by
    have hupdate : ∀ e ∈ updates, R (sub e) (nodes (.expr e)) (sub' e) :=
      fun e he => h e (by simp [he])
    cases updates with
    | nil => exact hR.empty
    | cons u us => exact hR.plain_append (hR.text " ") (hR.join ", " hupdate)
  rw [List.flatMap_append, List.flatMap_append]
  exact hR.append hcond hupdates

/-- The lines of a block and the bodies of other statements may be laid out in different ways. -/
theorem stmtShape_rel (level : Nat) (id : StmtId) {s : Stmt}
    {line line' body body' : StmtId → Layout}
    (hexpr : ∀ e, .expr e ∈ s.children → R (sub e) (nodes (.expr e)) (sub' e))
    (hline : s.isBlock = true → ∀ t, .stmt t ∈ s.children →
      R (line t) (nodes (.stmt t)) (line' t))
    (hbody : s.isBlock = false → ∀ t, .stmt t ∈ s.children →
      R (body t) (nodes (.stmt t)) (body' t)) :
    R (stmtShape sub line body level id s) (s.children.flatMap nodes)
      (stmtShape sub' line' body' level id s) := by
  have hone (n : Node) : [n].flatMap nodes = nodes n := by simp
  have htwo (n m : Node) : [n, m].flatMap nodes = nodes n ++ nodes m := by simp
  cases s with
  | block statements =>
    rw [Stmt.children, List.flatMap_map]
    have hlines : R (.concat (statements.map line)) (statements.flatMap fun t => nodes (.stmt t))
        (.concat (statements.map line')) :=
      hR.concat fun t ht => hline rfl t (List.mem_map_of_mem ht)
    exact hR.append_plain (hR.plain_append (hR.text _) hlines)
      (lineLayout_rel hR level (hR.text _))
  | declare decl =>
    rw [Stmt.children, List.flatMap_map]
    have hdecl := declLayout_rel hR (.stmt id) fun e he => hexpr e (List.mem_map_of_mem he)
    exact hR.append_plain hdecl (hR.text _)
  | eval e =>
    rw [Stmt.children, hone]
    exact hR.append_plain (hexpr e List.mem_cons_self) (hR.text _)
  | branch condition thenBranch elseBranch =>
    rw [Stmt.children, List.flatMap_cons, List.flatMap_cons, ← List.append_assoc]
    have hif := hR.append_plain
      (hR.plain_append (hR.text "if (") (hexpr condition List.mem_cons_self)) (hR.text ") ")
    rw [List.flatMap_map]
    exact hR.append (hR.append hif (hbody rfl thenBranch (by simp [Stmt.children])))
      (optionalLayout_rel hR " else " fun t ht => hbody rfl t (by simp_all [Stmt.children]))
  | whileLoop condition b =>
    rw [Stmt.children, htwo]
    have hhead := hR.append_plain
      (hR.plain_append (hR.text "while (") (hexpr condition List.mem_cons_self)) (hR.text ") ")
    exact hR.append hhead (hbody rfl b (by simp [Stmt.children]))
  | forLoop inits condition updates b =>
    have hhead := countedHead_rel hR fun e he =>
      hexpr e (List.mem_append_left _ (List.mem_map_of_mem he))
    rw [Stmt.children, List.flatMap_append, List.flatMap_map, hone]
    exact hR.append (hR.append_plain hhead (hR.text ") ")) (hbody rfl b (by simp [Stmt.children]))
  | forEach param iterable b =>
    rw [Stmt.children, htwo]
    have hparam := hR.append (hR.append (hR.text "for (")
      (paramLayout_rel hR (.forEach id) param)) (hR.text " : ")
    have hhead := hR.append_plain
      (hR.plain_append hparam (hexpr iterable List.mem_cons_self)) (hR.text ") ")
    exact hR.append hhead (hbody rfl b (by simp [Stmt.children]))
  | ret value =>
    have hvalue := optionalLayout_rel hR " " fun c hc => hexpr c (List.mem_map_of_mem hc)
    rw [Stmt.children, List.flatMap_map]
    exact hR.append_plain (hR.plain_append (hR.text _) hvalue) (hR.text _)
  | empty => exact hR.text _

omit hR in
theorem compositional_eq : Compositional fun a _ a' => a = a' where
  text _ := rfl
  append h h' := h ▸ h' ▸ rfl
  mark _ h := h ▸ rfl

omit hR in
theorem exprShape_congr (id : ExprId) {e : Expr} (h : ∀ c ∈ e.children, sub c = sub' c) :
    exprShape sub id e = exprShape sub' id e :=
  @exprShape_rel _ compositional_eq sub sub' (fun _ => []) id e h

omit hR in
theorem stmtShape_congr (level : Nat) (id : StmtId) {s : Stmt}
    {line line' body body' : StmtId → Layout}
    (hline : ∀ t, .stmt t ∈ s.children → line t = line' t)
    (hbody : ∀ t, .stmt t ∈ s.children → body t = body' t) :
    stmtShape sub line body level id s = stmtShape sub line' body' level id s :=
  @stmtShape_rel _ compositional_eq sub sub (fun _ => []) level id s _ _ _ _ (fun _ _ => rfl)
    (fun _ => hline) fun _ => hbody

theorem indent_rel (level : Nat) : R (Layout.indent level) [] (Layout.indent level) := hR.text _

variable {unit other : CompilationUnit}

theorem fieldLayout_rel (t i : Nat) {decl : Declaration}
    (h : ∀ e ∈ decl.inits, R (unit.exprLayout e) (nodes (.expr e)) (other.exprLayout e)) :
    R (unit.fieldLayout t i decl) (decl.inits.flatMap fun e => nodes (.expr e))
      (other.fieldLayout t i decl) := by
  have hdecl := hR.append_plain (declLayout_rel hR (.field t i) h) (hR.text ";")
  exact hR.append_plain
    (hR.plain_append (indent_rel hR 1) (hR.mark (m := .field t i) rfl hdecl)) (hR.text _)

theorem methodLayout_rel (t i : Nat) {m : Method} {ns : List Node}
    (h : R (unit.bodyLayout m.body) ns (other.bodyLayout m.body)) :
    R (unit.methodLayout t i m) ns (other.methodLayout t i m) := by
  have hresult : R (resultLayout t i m.returnType) [] (resultLayout t i m.returnType) := by
    cases m.returnType with
    | none => exact hR.text _
    | some ref => exact typeRefLayout_rel hR (.returnType t i) rfl ref
  have hname : R (.text " " ++ .text m.name ++ .text "(") []
      (.text " " ++ .text m.name ++ .text "(") :=
    hR.append (hR.append (hR.text _) (hR.text _)) (hR.text _)
  have hparams : R (.join ", " (m.params.zipIdx.map fun x => paramLayout (.method t i x.2) x.1)) []
      (.join ", " (m.params.zipIdx.map fun x => paramLayout (.method t i x.2) x.1)) := by
    exact hR.join_plain ", " fun x _ => paramLayout_rel hR (.method t i x.2) x.1
  have hhead := hR.append (hR.append hresult hname) hparams
  exact hR.append_plain (hR.plain_append (indent_rel hR 1)
    (hR.mark (m := .method t i) rfl (hR.plain_append hhead h))) (hR.text _)

theorem typeLayout_rel (t : Nat) {decl : TypeDecl}
    (hfield : ∀ f ∈ decl.fields, ∀ e ∈ f.inits,
      R (unit.exprLayout e) (nodes (.expr e)) (other.exprLayout e))
    (hmethod : ∀ m ∈ decl.methods, R (unit.bodyLayout m.body)
      (m.body.toList.flatMap fun s => nodes (.stmt s)) (other.bodyLayout m.body)) :
    R (unit.typeLayout t decl) (decl.roots.flatMap nodes) (other.typeLayout t decl) := by
  have hfst {α : Type} {xs : List α} {x : α × Nat} (hx : x ∈ xs.zipIdx) : x.1 ∈ xs :=
    (List.mem_zipIdx' hx).2 ▸ List.getElem_mem _
  have hhead : R (.text "class " ++ .text decl.name ++ .text " \x7b\n") []
      (.text "class " ++ .text decl.name ++ .text " \x7b\n") :=
    hR.append (hR.append (hR.text _) (hR.text _)) (hR.text _)
  have hfields : R (.concat (decl.fields.zipIdx.map fun x => unit.fieldLayout t x.2 x.1))
      (decl.fields.zipIdx.flatMap fun x => x.1.inits.flatMap fun e => nodes (.expr e))
      (.concat (decl.fields.zipIdx.map fun x => other.fieldLayout t x.2 x.1)) :=
    hR.concat fun x hx => fieldLayout_rel hR t x.2 (hfield x.1 (hfst hx))
  have hmethods : R (.concat (decl.methods.zipIdx.map fun x =>
        (if x.2 == 0 && decl.fields.isEmpty then "" else "\n") ++ unit.methodLayout t x.2 x.1))
      (decl.methods.zipIdx.flatMap fun x => x.1.body.toList.flatMap fun s => nodes (.stmt s))
      (.concat (decl.methods.zipIdx.map fun x =>
        (if x.2 == 0 && decl.fields.isEmpty then "" else "\n") ++ other.methodLayout t x.2 x.1)) :=
    hR.concat fun x hx => hR.plain_append (hR.text _)
      (methodLayout_rel hR t x.2 (hmethod x.1 (hfst hx)))
  rw [flatMap_zipIdx decl.fields fun f => f.inits.flatMap fun e => nodes (.expr e)] at hfields
  rw [flatMap_zipIdx decl.methods fun m => m.body.toList.flatMap fun s => nodes (.stmt s)]
    at hmethods
  have hroots : decl.roots.flatMap nodes =
      (decl.fields.flatMap fun f => f.inits.flatMap fun e => nodes (.expr e)) ++
        decl.methods.flatMap fun m => m.body.toList.flatMap fun s => nodes (.stmt s) := by
    rw [TypeDecl.roots, List.flatMap_append, List.flatMap_map, List.flatMap_map,
      List.flatMap_assoc, flatMap_filterMap]
  rw [hroots]
  exact hR.append_plain (hR.mark (m := .typeDecl t) rfl
    (hR.append_plain (hR.append (hR.plain_append hhead hfields) hmethods) (hR.text _))) (hR.text _)

theorem typesLayout_rel (htypes : other.types = unit.types)
    (hfield : ∀ decl ∈ unit.types, ∀ f ∈ decl.fields, ∀ e ∈ f.inits,
      R (unit.exprLayout e) (nodes (.expr e)) (other.exprLayout e))
    (hmethod : ∀ decl ∈ unit.types, ∀ m ∈ decl.methods, R (unit.bodyLayout m.body)
      (m.body.toList.flatMap fun s => nodes (.stmt s)) (other.bodyLayout m.body)) :
    R unit.typesLayout (unit.types.flatMap fun decl => decl.roots.flatMap nodes)
      other.typesLayout := by
  rw [← flatMap_zipIdx unit.types (fun decl => decl.roots.flatMap nodes) 0, typesLayout,
    typesLayout, htypes]
  refine hR.concat fun x hx => hR.plain_append (hR.text _) ?_
  have hdecl : x.1 ∈ unit.types := (List.mem_zipIdx' hx).2 ▸ List.getElem_mem _
  exact typeLayout_rel hR x.2 (hfield x.1 hdecl) (hmethod x.1 hdecl)

end CompilationUnit
end EnhancedFor
