import EnhancedFor.Proofs.Syntax.Printed

/-!
The marks of a layout. Every node brings marks of its own, and so do the head lines and the
declarations of types, fields and methods. Main statement: in a complete unit without repeated nodes
no mark is placed twice, so each part of the unit that has a span, and not only each node, has one
place in the text.
-/

namespace EnhancedFor

def DeclPlace.node? : DeclPlace → Option Node
  | .expr id => some (.expr id)
  | .stmt id => some (.stmt id)
  | .field .. => none

def ParamPlace.node? : ParamPlace → Option Node
  | .forEach id => some (.stmt id)
  | .method .. => none

namespace Mark

/-- The node that brings the mark; none for the marks of head lines and of types with their
members. -/
def node? : Mark → Option Node
  | .expr id | .exprName id | .exprType id => some (.expr id)
  | .stmt id => some (.stmt id)
  | .declType place | .fragment place _ | .fragmentName place _ => place.node?
  | .param place | .paramType place | .paramName place => place.node?
  | _ => none

/-- The type that the mark stands in, if no node brings it. -/
def type? : Mark → Option Nat
  | .typeDecl t | .field t _ | .method t _ | .returnType t _ => some t
  | .declType (.field t _) | .fragment (.field t _) _ | .fragmentName (.field t _) _ => some t
  | .param (.method t _ _) | .paramType (.method t _ _) | .paramName (.method t _ _) => some t
  | _ => none

def field? : Mark → Option Nat
  | .field _ i => some i
  | .declType (.field _ i) | .fragment (.field _ i) _ | .fragmentName (.field _ i) _ => some i
  | _ => none

def method? : Mark → Option Nat
  | .method _ i | .returnType _ i => some i
  | .param (.method _ i _) | .paramType (.method _ i _) | .paramName (.method _ i _) => some i
  | _ => none

def fragment? : Mark → Option Nat
  | .fragment _ i | .fragmentName _ i => some i
  | _ => none

def param? : Mark → Option Nat
  | .param (.method _ _ k) | .paramType (.method _ _ k) | .paramName (.method _ _ k) => some k
  | _ => none

end Mark

/-- All marks of the layout in the order of the text. -/
def Layout.allMarks (l : Layout) : List Mark := l.marked fun _ => true

namespace Layout

@[simp] theorem allMarks_text (s : String) : (text s).allMarks = [] := rfl

@[simp] theorem allMarks_empty : empty.allMarks = [] := rfl

@[simp] theorem allMarks_append (a b : Layout) : (a ++ b).allMarks = a.allMarks ++ b.allMarks := rfl

@[simp] theorem allMarks_mark (m : Mark) (l : Layout) : (mark m l).allMarks = m :: l.allMarks := rfl

@[simp] theorem allMarks_concat (parts : List Layout) :
    (concat parts).allMarks = parts.flatMap allMarks := marked_concat parts

@[simp] theorem allMarks_join (separator : String) (parts : List Layout) :
    (join separator parts).allMarks = parts.flatMap allMarks := marked_join separator parts

end Layout

/-- The marks of a declaration itself, without those in its initialisers. -/
def Declaration.marks (decl : Declaration) (place : DeclPlace) : List Mark :=
  .declType place :: decl.fragments.zipIdx.flatMap
    fun x => [.fragment place x.2, .fragmentName place x.2]

def ParamPlace.marks (place : ParamPlace) : List Mark :=
  [.param place, .paramType place, .paramName place]

def Expr.marks (id : ExprId) : Expr → List Mark
  | .field .. | .call .. => [.exprName id]
  | .create .. | .cast .. => [.exprType id]
  | .declare decl => decl.marks (.expr id)
  | _ => []

def Stmt.marks (id : StmtId) : Stmt → List Mark
  | .declare decl => decl.marks (.stmt id)
  | .forEach .. => ParamPlace.marks (.forEach id)
  | _ => []

def Method.marks (m : Method) (t i : Nat) : List Mark :=
  .method t i :: (m.returnType.toList.map fun _ => .returnType t i) ++
    m.params.zipIdx.flatMap fun x => ParamPlace.marks (.method t i x.2)

/-- The marks of a type and its members, without those of nodes. -/
def TypeDecl.marks (decl : TypeDecl) (t : Nat) : List Mark :=
  .typeDecl t :: (decl.fields.zipIdx.flatMap fun x => .field t x.2 :: x.1.marks (.field t x.2)) ++
    decl.methods.zipIdx.flatMap fun x => x.1.marks t x.2

namespace CompilationUnit

open Layout (Compositional)

variable {unit : CompilationUnit} {node : Node} {m : Mark}

/-- The marks that a node brings, without those of its parts. -/
def ownMarks (unit : CompilationUnit) : Node → List Mark
  | .expr id => .expr id :: (unit.expr? id).toList.flatMap (Expr.marks id)
  | .stmt id => .stmt id :: (unit.stmt? id).toList.flatMap (Stmt.marks id)

/-! Layouts with nothing in the place of every node. -/

theorem allMarks_optionalLayout {α : Type} (first : String) (x : Option α) :
    (optionalLayout first (fun _ => .empty) x).allMarks = [] := by
  cases x <;> rfl

theorem allMarks_declLayout (place : DeclPlace) (decl : Declaration) :
    (declLayout (fun _ => .empty) place decl).allMarks = decl.marks place := by
  simp [declLayout, typeRefLayout, Declaration.marks, List.flatMap_map, allMarks_optionalLayout]

theorem allMarks_exprShape (id : ExprId) (e : Expr) :
    (exprShape (fun _ => .empty) id e).allMarks = e.marks id := by
  cases e with
  | declare decl => exact allMarks_declLayout (.expr id) decl
  | literal kind text => cases kind <;> rfl
  | call receiver name args binding =>
    cases receiver <;> simp [exprShape, receiverLayout, Expr.marks]
  | create => simp [exprShape, typeRefLayout, Expr.marks]
  | name | field | assign | cast | paren | binary | unary | self | missing => rfl

theorem allMarks_stmtShape (level : Nat) (id : StmtId) (s : Stmt) :
    (stmtShape (fun _ => .empty) (fun _ => .empty) (fun _ => .empty) level id s).allMarks =
      s.marks id := by
  cases s with
  | block statements => simp [stmtShape, lineLayout, Layout.indent, Stmt.marks]
  | declare decl => simp [stmtShape, Stmt.marks, allMarks_declLayout]
  | forLoop inits condition updates body =>
    cases updates <;> simp [stmtShape, countedHead, Stmt.marks, allMarks_optionalLayout]
  | branch | ret => simp [stmtShape, Stmt.marks, allMarks_optionalLayout]
  | eval | whileLoop | forEach | empty => rfl

theorem compositional_marks (unit : CompilationUnit) : Compositional fun a ns a' =>
    a.allMarks.Perm (a'.allMarks ++ ns.flatMap unit.ownMarks) where
  text _ := .nil
  append {a a' b b' ns ms} h h' := by
    refine (h.append h').trans (List.perm_iff_count.2 fun m => ?_)
    simp only [Layout.allMarks_append, List.flatMap_append, List.count_append]
    omega
  mark _ h := h.cons _

/-- The marks in the layout of a node are those that the nodes of its tree bring. -/
theorem Grounded.marks_nodeLayout (h : unit.Grounded node) : ∀ level,
    (unit.nodeLayout level node).allMarks.Perm ((unit.subtree node).flatMap unit.ownMarks) := by
  induction h using Grounded.rec_kids with
  | step node h ih =>
    intro level
    have hnode : (unit.subtree node).flatMap unit.ownMarks =
        unit.ownMarks node ++ ((unit.kids node).flatMap unit.subtree).flatMap unit.ownMarks := by
      rw [subtree, h.nodesBelow_eq, if_pos rfl]
      rfl
    rw [hnode]
    cases node with
    | expr id =>
      obtain ⟨e, he⟩ := h.exists_expr
      rw [kids_expr he] at ih
      -- With nothing in the place of its parts the shape has the marks of the node alone.
      have hshape := @exprShape_rel _ (compositional_marks unit) _ (fun _ => .empty) unit.subtree
        id e fun c hc => ih (.expr c) (List.mem_map_of_mem hc) level
      rw [allMarks_exprShape] at hshape
      show (unit.exprLayout id).allMarks.Perm _
      rw [h.exprLayout_eq he, kids_expr he, List.flatMap_map, ownMarks, he, Option.toList_some,
        List.flatMap_singleton]
      exact hshape.cons _
    | stmt id =>
      obtain ⟨s, hs⟩ := h.exists_stmt
      rw [kids_stmt hs] at ih
      have hline (t : StmtId) (ht : .stmt t ∈ s.children) : (unit.stmtLine level t).allMarks.Perm
          (Layout.empty.allMarks ++ (unit.subtree (.stmt t)).flatMap unit.ownMarks) :=
        ih (.stmt t) ht (level + 1)
      have hbody (t : StmtId) (ht : .stmt t ∈ s.children) : (unit.stmtBody level t).allMarks.Perm
          (Layout.empty.allMarks ++ (unit.subtree (.stmt t)).flatMap unit.ownMarks) := by
        unfold stmtBody
        split
        · exact ih (.stmt t) ht level
        · exact hline t ht
      have hshape := @stmtShape_rel _ (compositional_marks unit) _ (fun _ => .empty) unit.subtree
        level id s _ (fun _ => .empty) _ (fun _ => .empty) (fun e he => ih (.expr e) he level)
        (fun _ => hline) fun _ => hbody
      rw [allMarks_stmtShape] at hshape
      show (unit.stmtLayout level id).allMarks.Perm _
      rw [h.stmtLayout_eq hs, kids_stmt hs, ownMarks, hs, Option.toList_some,
        List.flatMap_singleton]
      exact hshape.cons _

/-- The declarations of the unit without any node. -/
def bare (unit : CompilationUnit) : CompilationUnit := { unit with exprs := #[], stmts := #[] }

theorem exprLayout_bare (id : ExprId) : unit.bare.exprLayout id = .empty := by
  simp [exprLayout, depth, exprLayoutWithin, expr?, bare]

theorem stmtLayout_bare (level : Nat) (id : StmtId) : unit.bare.stmtLayout level id = .empty := by
  simp [stmtLayout, depth, stmtLayoutWithin, stmt?, bare]

theorem allMarks_typeLayout_bare (t : Nat) (decl : TypeDecl) :
    (unit.bare.typeLayout t decl).allMarks = decl.marks t := by
  have hexpr : unit.bare.exprLayout = fun _ => .empty := funext exprLayout_bare
  have hfield (x : Declaration × Nat) :
      (unit.bare.fieldLayout t x.2 x.1).allMarks = .field t x.2 :: x.1.marks (.field t x.2) := by
    simp [fieldLayout, hexpr, allMarks_declLayout, Layout.indent]
  have hmethod (x : Method × Nat) :
      (unit.bare.methodLayout t x.2 x.1).allMarks = x.1.marks t x.2 := by
    have hresult : (resultLayout t x.2 x.1.returnType).allMarks =
        x.1.returnType.toList.map fun _ => .returnType t x.2 := by
      cases x.1.returnType <;> rfl
    have hbody : (unit.bare.bodyLayout x.1.body).allMarks = [] := by
      cases x.1.body <;> simp [bodyLayout, stmtLayout_bare]
    simp [methodLayout, hresult, hbody, Layout.indent, Method.marks, List.flatMap_map, paramLayout,
      typeRefLayout, ParamPlace.marks]
  simp [typeLayout, hfield, hmethod, TypeDecl.marks, List.flatMap_map]

/-- The marks of the head lines in the order of the text. -/
def headMarks (unit : CompilationUnit) : List Mark :=
  (unit.package.map fun _ => Mark.package).toList ++
    (List.range unit.imports.length).map .importLine

theorem allMarks_headerLayout : unit.headerLayout.allMarks = unit.headMarks := by
  have hlines (imports : List Import) (k : Nat) :
      (Layout.concat ((imports.zipIdx k).map fun x => importLayout x.2 x.1)).allMarks =
        (List.range' k imports.length).map .importLine := by
    induction imports generalizing k with
    | nil => rfl
    | cons imp imports ih =>
      exact congrArg (Mark.importLine k :: ·) (ih (k + 1))
  rw [headerLayout, headMarks, Layout.allMarks_append, Layout.allMarks_append, hlines,
    List.range_eq_range', Layout.allMarks_text, List.append_nil]
  cases unit.package <;> rfl

end CompilationUnit

theorem Declaration.nodup_marks (decl : Declaration) (place : DeclPlace) :
    (decl.marks place).Nodup := by
  refine List.nodup_cons.2 ⟨by simp,
    nodup_flatMap_zipIdx Mark.fragment? (by simp) fun x _ m hm => ?_⟩
  simp only [List.mem_cons, List.not_mem_nil, or_false] at hm
  rcases hm with rfl | rfl <;> rfl

theorem Declaration.of_mem_marks {decl : Declaration} {place : DeclPlace} {m : Mark}
    (h : m ∈ decl.marks place) :
    m = .declType place ∨ ∃ i, m = .fragment place i ∨ m = .fragmentName place i := by
  rcases List.mem_cons.1 h with rfl | h
  · exact .inl rfl
  · obtain ⟨x, -, hm⟩ := List.mem_flatMap.1 h
    exact .inr ⟨x.2, by simpa using hm⟩

theorem Declaration.nodup_cons_marks (decl : Declaration) {place : DeclPlace} {m : Mark}
    (hne : ∀ i, m ≠ .declType place ∧ m ≠ .fragment place i ∧ m ≠ .fragmentName place i) :
    (m :: decl.marks place).Nodup := by
  refine List.nodup_cons.2 ⟨fun hm => ?_, decl.nodup_marks place⟩
  rcases Declaration.of_mem_marks hm with h | ⟨i, h | h⟩
  · exact (hne 0).1 h
  · exact (hne i).2.1 h
  · exact (hne i).2.2 h

theorem Declaration.place_of_mem_field {decl : Declaration} {t i : Nat} {m : Mark}
    (h : m ∈ Mark.field t i :: decl.marks (.field t i)) :
    m.node? = none ∧ m.type? = some t ∧ m.field? = some i ∧ m.method? = none := by
  rcases List.mem_cons.1 h with rfl | h
  · exact ⟨rfl, rfl, rfl, rfl⟩
  · rcases Declaration.of_mem_marks h with rfl | ⟨k, rfl | rfl⟩ <;> exact ⟨rfl, rfl, rfl, rfl⟩

namespace Method

variable {method : Method} {t i : Nat} {m : Mark}

theorem place_of_mem_marks (h : m ∈ method.marks t i) :
    m.node? = none ∧ m.type? = some t ∧ m.method? = some i := by
  rcases List.mem_append.1 h with h | h
  · rcases List.mem_cons.1 h with rfl | h
    · exact ⟨rfl, rfl, rfl⟩
    · obtain ⟨ref, -, rfl⟩ := List.mem_map.1 h
      exact ⟨rfl, rfl, rfl⟩
  · obtain ⟨x, -, hm⟩ := List.mem_flatMap.1 h
    simp only [ParamPlace.marks, List.mem_cons, List.not_mem_nil, or_false] at hm
    rcases hm with rfl | rfl | rfl <;> exact ⟨rfl, rfl, rfl⟩

theorem nodup_marks (method : Method) (t i : Nat) : (method.marks t i).Nodup := by
  have hparams : (method.params.zipIdx.flatMap
      fun x => ParamPlace.marks (.method t i x.2)).Nodup := by
    refine nodup_flatMap_zipIdx Mark.param? (fun x _ => by simp [ParamPlace.marks])
      fun x _ m hm => ?_
    simp only [ParamPlace.marks, List.mem_cons, List.not_mem_nil, or_false] at hm
    rcases hm with rfl | rfl | rfl <;> rfl
  unfold Method.marks
  cases method.returnType <;> simpa [ParamPlace.marks] using hparams

end Method

namespace TypeDecl

variable {decl : TypeDecl} {t : Nat} {m : Mark}

theorem place_of_mem_marks (h : m ∈ decl.marks t) : m.node? = none ∧ m.type? = some t := by
  rcases List.mem_append.1 h with h | h
  · rcases List.mem_cons.1 h with rfl | h
    · exact ⟨rfl, rfl⟩
    · obtain ⟨x, -, hm⟩ := List.mem_flatMap.1 h
      obtain ⟨hnode, htype, -, -⟩ := Declaration.place_of_mem_field hm
      exact ⟨hnode, htype⟩
  · obtain ⟨x, -, hm⟩ := List.mem_flatMap.1 h
    obtain ⟨hnode, htype, -⟩ := Method.place_of_mem_marks hm
    exact ⟨hnode, htype⟩

theorem nodup_marks (decl : TypeDecl) (t : Nat) : (decl.marks t).Nodup := by
  have hfields : (decl.fields.zipIdx.flatMap fun x =>
      .field t x.2 :: x.1.marks (.field t x.2)).Nodup := by
    refine nodup_flatMap_zipIdx Mark.field? (fun x _ => ?_) fun x _ m hm => ?_
    · exact x.1.nodup_cons_marks (by simp)
    · exact (Declaration.place_of_mem_field hm).2.2.1
  have hmethods : (decl.methods.zipIdx.flatMap fun x => x.1.marks t x.2).Nodup :=
    nodup_flatMap_zipIdx Mark.method? (fun x _ => x.1.nodup_marks t x.2) fun x _ m hm =>
      (Method.place_of_mem_marks hm).2.2
  refine List.nodup_append.2 ⟨List.nodup_cons.2 ⟨fun h => ?_, hfields⟩, hmethods, ?_⟩
  · obtain ⟨x, -, hm⟩ := List.mem_flatMap.1 h
    cases (Declaration.place_of_mem_field hm).2.2.1
  · intro m hm m' hm' heq
    subst heq
    obtain ⟨y, -, hm'⟩ := List.mem_flatMap.1 hm'
    have hsome := (Method.place_of_mem_marks hm').2.2
    rcases List.mem_cons.1 hm with rfl | hm
    · cases hsome
    · obtain ⟨x, -, hm⟩ := List.mem_flatMap.1 hm
      have hnone := (Declaration.place_of_mem_field hm).2.2.2
      cases hnone.symm.trans hsome

end TypeDecl

namespace CompilationUnit

variable {unit : CompilationUnit} {node : Node} {m : Mark}

theorem node_of_mem_ownMarks (h : m ∈ unit.ownMarks node) : m.node? = some node := by
  cases node with
  | expr id =>
    rcases List.mem_cons.1 h with rfl | h
    · rfl
    · obtain ⟨e, -, hm⟩ := List.mem_flatMap.1 h
      cases e with
      | declare decl => rcases Declaration.of_mem_marks hm with rfl | ⟨i, rfl | rfl⟩ <;> rfl
      | field | call | create | cast =>
        obtain rfl := List.mem_singleton.1 hm
        rfl
      | name | assign | literal | paren | binary | unary | self | missing =>
        exact (List.not_mem_nil hm).elim
  | stmt id =>
    rcases List.mem_cons.1 h with rfl | h
    · rfl
    · obtain ⟨s, -, hm⟩ := List.mem_flatMap.1 h
      cases s with
      | declare decl => rcases Declaration.of_mem_marks hm with rfl | ⟨i, rfl | rfl⟩ <;> rfl
      | forEach =>
        simp only [Stmt.marks, ParamPlace.marks, List.mem_cons, List.not_mem_nil, or_false] at hm
        rcases hm with rfl | rfl | rfl <;> rfl
      | block | eval | branch | whileLoop | forLoop | ret | empty =>
        exact (List.not_mem_nil hm).elim

theorem nodup_ownMarks (unit : CompilationUnit) (node : Node) : (unit.ownMarks node).Nodup := by
  cases node with
  | expr id =>
    rw [ownMarks]
    cases unit.expr? id with
    | none => simp
    | some e =>
      rw [Option.toList_some, List.flatMap_singleton]
      cases e with
      | declare decl => exact decl.nodup_cons_marks (by simp)
      | name | field | call | create | assign | literal | cast | paren | binary | unary | self
      | missing => simp [Expr.marks]
  | stmt id =>
    rw [ownMarks]
    cases unit.stmt? id with
    | none => simp
    | some s =>
      rw [Option.toList_some, List.flatMap_singleton]
      cases s with
      | declare decl => exact decl.nodup_cons_marks (by simp)
      | block | eval | branch | whileLoop | forLoop | forEach | ret | empty =>
        simp [Stmt.marks, ParamPlace.marks]

theorem marks_typeLayout {decl : TypeDecl} (hg : ∀ root ∈ decl.roots, unit.Grounded root)
    (t : Nat) :
    (unit.typeLayout t decl).allMarks.Perm
      (decl.marks t ++ (decl.roots.flatMap unit.subtree).flatMap unit.ownMarks) := by
  rw [← @allMarks_typeLayout_bare unit]
  refine typeLayout_rel (compositional_marks unit) t (fun f hf e he => ?_) fun m hm => ?_
  · have hexpr := hg (.expr e)
      (List.mem_append_left _ (List.mem_map_of_mem (List.mem_flatMap.2 ⟨f, hf, he⟩)))
    rw [exprLayout_bare]
    exact hexpr.marks_nodeLayout 0
  · cases hbody : m.body with
    | none => exact .nil
    | some s =>
      have hstmt := hg (.stmt s) (List.mem_append_right _ (List.mem_map_of_mem
        (List.mem_filterMap.2 ⟨m, hm, hbody⟩)))
      have hmarks := hstmt.marks_nodeLayout 1
      simpa [bodyLayout, stmtLayout_bare, nodeLayout] using hmarks

theorem marks_typesLayout (hg : ∀ root ∈ unit.roots, unit.Grounded root) :
    unit.typesLayout.allMarks.Perm ((unit.types.zipIdx.flatMap fun x => x.1.marks x.2) ++
      (unit.textRoots.flatMap unit.subtree).flatMap unit.ownMarks) := by
  have htypes : unit.typesLayout.allMarks =
      unit.types.zipIdx.flatMap fun x => (unit.typeLayout x.2 x.1).allMarks := by
    simp [typesLayout, List.flatMap_map]
  have hroots : (unit.textRoots.flatMap unit.subtree).flatMap unit.ownMarks =
      unit.types.zipIdx.flatMap fun x =>
        (x.1.roots.flatMap unit.subtree).flatMap unit.ownMarks := by
    rw [flatMap_zipIdx unit.types fun decl =>
      (decl.roots.flatMap unit.subtree).flatMap unit.ownMarks, textRoots]
    simp only [List.flatMap_assoc]
  rw [htypes, hroots]
  refine List.Perm.trans
    (List.Perm.flatMap_left _ fun x hx => marks_typeLayout (fun root hr => ?_) x.2)
    (List.flatMap_append_perm _ _ _).symm
  have hdecl : x.1 ∈ unit.types := (List.mem_zipIdx' hx).2 ▸ List.getElem_mem _
  exact hg root (mem_textRoots.1 (List.mem_flatMap.2 ⟨x.1, hdecl, hr⟩))

/-- Head lines belong to no node and to no type. -/
theorem place_of_mem_headMarks (h : m ∈ unit.headMarks) : m.node? = none ∧ m.type? = none := by
  rcases List.mem_append.1 h with h | h
  · obtain ⟨name, -, rfl⟩ := Option.map_eq_some_iff.1 (Option.mem_toList.1 h)
    exact ⟨rfl, rfl⟩
  · obtain ⟨i, -, rfl⟩ := List.mem_map.1 h
    exact ⟨rfl, rfl⟩

theorem nodup_headMarks : unit.headMarks.Nodup := by
  have hlines : ((List.range unit.imports.length).map Mark.importLine).Nodup :=
    List.Nodup.map (fun _ _ h => Mark.importLine.inj h) List.nodup_range
  cases h : unit.package with
  | none => simpa [headMarks, h] using hlines
  | some name => simpa [headMarks, h] using hlines

/-- No mark is placed twice. -/
theorem SingleUse.nodup_marks (hu : unit.SingleUse) (hc : unit.Complete) :
    unit.layout.allMarks.Nodup := by
  have hcodeMarks := marks_typesLayout fun root hr => hu.grounded hc ⟨root, hr, .refl⟩
  have htypes : (unit.types.zipIdx.flatMap fun x => x.1.marks x.2).Nodup :=
    nodup_flatMap_zipIdx Mark.type? (fun x _ => x.1.nodup_marks x.2) fun x _ m hm =>
      (TypeDecl.place_of_mem_marks hm).2
  have hwalk : (unit.textRoots.flatMap unit.subtree).Nodup :=
    (textRoots_perm.flatMap_right _).nodup_iff.2 (hu.roots_walk_nodup hc)
  have hnodes : ((unit.textRoots.flatMap unit.subtree).flatMap unit.ownMarks).Nodup := by
    refine List.nodup_flatMap.2 ⟨fun node _ => nodup_ownMarks unit node, hwalk.imp ?_⟩
    intro a b hne m ha hb
    exact hne (Option.some.inj ((node_of_mem_ownMarks ha).symm.trans (node_of_mem_ownMarks hb)))
  have hcode : unit.typesLayout.allMarks.Nodup := by
    refine hcodeMarks.nodup_iff.2 (List.nodup_append.2 ⟨htypes, hnodes, ?_⟩)
    intro m hm m' hm' heq
    subst heq
    obtain ⟨x, -, hm⟩ := List.mem_flatMap.1 hm
    obtain ⟨node, -, hm'⟩ := List.mem_flatMap.1 hm'
    cases (TypeDecl.place_of_mem_marks hm).1.symm.trans (node_of_mem_ownMarks hm')
  rw [layout, Layout.allMarks_append, allMarks_headerLayout]
  refine List.nodup_append.2 ⟨nodup_headMarks, hcode, ?_⟩
  intro m hm m' hm' heq
  subst heq
  have hplace := place_of_mem_headMarks hm
  rcases List.mem_append.1 (hcodeMarks.subset hm') with hm' | hm'
  · obtain ⟨x, -, hm'⟩ := List.mem_flatMap.1 hm'
    cases hplace.2.symm.trans (TypeDecl.place_of_mem_marks hm').2
  · obtain ⟨node, -, hm'⟩ := List.mem_flatMap.1 hm'
    cases hplace.1.symm.trans (node_of_mem_ownMarks hm')

/-- The marks of what is printed: the head lines, the types with their members, and the nodes of the
trees. -/
inductive HasMark (unit : CompilationUnit) (m : Mark) : Prop where
  | head (h : m ∈ unit.headMarks)
  | type {t : Nat} {decl : TypeDecl} (ht : unit.types[t]? = some decl) (h : m ∈ decl.marks t)
  | node {node : Node} (hr : unit.Rooted node) (h : m ∈ unit.ownMarks node)

/-- The marks of a node are printed only if the node is in a tree. -/
theorem HasMark.rooted (h : unit.HasMark m) {node : Node} (hn : m.node? = some node) :
    unit.Rooted node := by
  cases h with
  | head h =>
    cases (place_of_mem_headMarks h).1.symm.trans hn
  | type ht h => cases (TypeDecl.place_of_mem_marks h).1.symm.trans hn
  | node hr h =>
    obtain rfl := Option.some.inj ((node_of_mem_ownMarks h).symm.trans hn)
    exact hr

theorem mem_allMarks_layout (hg : ∀ root ∈ unit.roots, unit.Grounded root) :
    m ∈ unit.layout.allMarks ↔ unit.HasMark m := by
  rw [layout, Layout.allMarks_append, List.mem_append, allMarks_headerLayout,
    (marks_typesLayout hg).mem_iff, List.mem_append]
  constructor
  · rintro (h | h | h)
    · exact .head h
    · obtain ⟨x, hx, h⟩ := List.mem_flatMap.1 h
      exact .type (List.mk_mem_zipIdx_iff_getElem?.1 hx) h
    · obtain ⟨node, hnode, h⟩ := List.mem_flatMap.1 h
      obtain ⟨root, hr, hnode⟩ := List.mem_flatMap.1 hnode
      have hroot := mem_textRoots.1 hr
      exact .node ⟨root, hroot, (hg root hroot).mem_subtree.1 hnode⟩ h
  · intro h
    cases h with
    | head h => exact .inl h
    | type ht h =>
      exact .inr (.inl (List.mem_flatMap.2 ⟨_, List.mk_mem_zipIdx_iff_getElem?.2 ht, h⟩))
    | @node node hr h =>
      obtain ⟨root, hroot, hb⟩ := hr
      exact .inr (.inr (List.mem_flatMap.2 ⟨node, List.mem_flatMap.2
        ⟨root, mem_textRoots.2 hroot, (hg root hroot).mem_subtree.2 hb⟩, h⟩))

end CompilationUnit
end EnhancedFor
