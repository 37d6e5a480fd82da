import EnhancedFor.Loop.VariableUse
import EnhancedFor.Proofs.Syntax.SingleUse

/-!
What it means to refer to a variable, to declare it, to bind it and to write it, by rules on the
syntax; the tests of the program decide these rules.
-/

namespace EnhancedFor

namespace Declaration

/-- A fragment of the variable has an initialiser. -/
def Initializes (d : Declaration) (var : VarId) : Prop :=
  ∃ f ∈ d.fragments, f.binding = some var ∧ f.init.isSome = true

/-- The variable has a fragment. -/
def Declares (d : Declaration) (var : VarId) : Prop := ∃ f ∈ d.fragments, f.binding = some var

theorem initializes_iff {d : Declaration} {var : VarId} :
    d.initializes var = true ↔ d.Initializes var := by
  simp [initializes, Initializes]

theorem declares_iff {d : Declaration} {var : VarId} :
    d.declares var = true ↔ d.Declares var := by
  simp [declares, Declares]

end Declaration

namespace CompilationUnit

variable {unit : CompilationUnit} {var : VarId} {node : Node} {id : ExprId}

/-- A simple name or a field access of the variable. -/
inductive Refers (unit : CompilationUnit) (var : VarId) : Node → Prop where
  | name {id : ExprId} {text : String} (h : unit.expr? id = some (.name text (some var))) :
    Refers unit var (.expr id)
  | field {id receiver : ExprId} {text : String}
    (h : unit.expr? id = some (.field receiver text (some var))) : Refers unit var (.expr id)

/-- A reference to the variable in any parentheses and casts. -/
inductive Targets (unit : CompilationUnit) (var : VarId) : ExprId → Prop where
  | here {id : ExprId} (h : unit.Refers var (.expr id)) : Targets unit var id
  | paren {id inner : ExprId} (h : unit.expr? id = some (.paren inner))
    (ht : Targets unit var inner) : Targets unit var id
  | cast {id inner : ExprId} {type : TypeRef} (h : unit.expr? id = some (.cast type inner))
    (ht : Targets unit var inner) : Targets unit var id

/-- The node is a declaration of local variables: a statement, or an expression in the head of a
loop. -/
inductive Declaring (unit : CompilationUnit) : Node → Declaration → Prop where
  | stmt {id : StmtId} {decl : Declaration} (h : unit.stmt? id = some (.declare decl)) :
    Declaring unit (.stmt id) decl
  | expr {id : ExprId} {decl : Declaration} (h : unit.expr? id = some (.declare decl)) :
    Declaring unit (.expr id) decl

/-- The node gives the variable a value: an assignment of any kind, an increment or decrement, or a
declaration with an initialiser. -/
inductive Writes (unit : CompilationUnit) (var : VarId) : Node → Prop where
  | assign {id target value : ExprId} {op : AssignOp}
    (h : unit.expr? id = some (.assign op target value)) (ht : unit.Targets var target) :
    Writes unit var (.expr id)
  | update {id operand : ExprId} {op : UnaryOp} (h : unit.expr? id = some (.unary op operand))
    (hop : op ∈ [.preIncrement, .preDecrement, .postIncrement, .postDecrement])
    (ht : unit.Targets var operand) : Writes unit var (.expr id)
  | init {node : Node} {decl : Declaration} (h : unit.Declaring node decl)
    (hi : decl.Initializes var) : Writes unit var node

/-- The node declares the variable. -/
def Declares (unit : CompilationUnit) (var : VarId) (node : Node) : Prop :=
  ∃ decl, unit.Declaring node decl ∧ decl.Declares var

/-- The node declares the variable, be it as the parameter of a loop over an iterable. -/
inductive Binds (unit : CompilationUnit) (var : VarId) : Node → Prop where
  | declare {node : Node} (h : unit.Declares var node) : Binds unit var node
  | forEach {id : StmtId} {param : Parameter} {iterable : ExprId} {body : StmtId}
    (h : unit.stmt? id = some (.forEach param iterable body)) (hp : param.binding = some var) :
    Binds unit var (.stmt id)

theorem varOf?_eq_some_iff : unit.varOf? id = some var ↔ unit.Refers var (.expr id) := by
  constructor
  · intro h
    obtain ⟨e, he, hv⟩ := Option.bind_eq_some_iff.1 h
    cases e <;> simp only [Expr.var?, reduceCtorEq] at hv
    · exact .name (hv ▸ he)
    · exact .field (hv ▸ he)
  · intro h
    cases h with
    | name h | field h => simp [varOf?, h, Expr.var?]

theorem refersAt_iff : unit.refersAt var node = true ↔ unit.Refers var node := by
  cases node with
  | stmt id => exact ⟨fun h => by simp [refersAt] at h, fun h => by cases h⟩
  | expr id => rw [refersAt, beq_iff_eq, varOf?_eq_some_iff]

theorem varOf?_stripWithin {d : Nat} (h : unit.HeightWithin d (.expr id)) :
    unit.varOf? (unit.stripWithin d id) = some var ↔ unit.Targets var id := by
  induction d generalizing id with
  | zero => exact h.elim
  | succ d ih =>
    have hpart {inner : ExprId} {e : Expr} (he : unit.expr? id = some e)
        (hi : inner ∈ e.children) : unit.HeightWithin d (.expr inner) :=
      h _ (kids_expr he ▸ List.mem_map_of_mem hi)
    rw [stripWithin]
    split
    · rename_i inner he
      rw [ih (hpart he List.mem_cons_self)]
      refine ⟨.paren he, fun ht => ?_⟩
      cases ht with
      | here hr => cases hr <;> simp_all
      | paren he' ht => simp_all
      | cast he' _ => simp_all
    · rename_i type inner he
      rw [ih (hpart he List.mem_cons_self)]
      refine ⟨.cast he, fun ht => ?_⟩
      cases ht with
      | here hr => cases hr <;> simp_all
      | paren he' _ => simp_all
      | cast he' ht => simp_all
    · rename_i hparen hcast
      rw [varOf?_eq_some_iff]
      refine ⟨.here, fun ht => ?_⟩
      cases ht with
      | here hr => exact hr
      | paren he _ => exact (hparen _ he).elim
      | cast he _ => exact (hcast _ _ he).elim

theorem varOf?_strip (h : unit.Grounded (.expr id)) :
    unit.varOf? (unit.strip id) = some var ↔ unit.Targets var id :=
  varOf?_stripWithin h.height

theorem declarationAt?_eq_some_iff {decl : Declaration} :
    unit.declarationAt? node = some decl ↔ unit.Declaring node decl := by
  constructor
  · intro h
    cases node with
    | stmt id =>
      rw [declarationAt?] at h
      split at h
      · exact .stmt (by simp_all)
      · simp at h
    | expr id =>
      rw [declarationAt?] at h
      split at h
      · exact .expr (by simp_all)
      · simp at h
  · intro h
    cases h with
    | stmt h | expr h => simp [declarationAt?, h]

theorem declaresAt_iff : unit.declaresAt var node = true ↔ unit.Declares var node := by
  rw [declaresAt, Option.any_eq_true]
  simp only [declarationAt?_eq_some_iff, Declaration.declares_iff, Declares]

theorem bindsAt_iff : unit.bindsAt var node = true ↔ unit.Binds var node := by
  rw [bindsAt.eq_def, Bool.or_eq_true, declaresAt_iff]
  constructor
  · rintro (h | h)
    · exact .declare h
    · cases node with
      | expr id => simp at h
      | stmt id =>
        dsimp only at h
        split at h
        · rename_i hs
          exact .forEach hs (by simpa using h)
        · simp at h
  · intro h
    cases h with
    | declare h => exact .inl h
    | forEach h hp => exact .inr (by simp [h, hp])

theorem isUpdate_iff {op : UnaryOp} : op.isUpdate = true ↔
    op ∈ [.preIncrement, .preDecrement, .postIncrement, .postDecrement] := by
  cases op <;> decide

theorem writesAt_iff (h : unit.Grounded node) :
    unit.writesAt var node = true ↔ unit.Writes var node := by
  have hinit : ((unit.declarationAt? node).any fun d => d.initializes var) = true ↔
      ∃ decl, unit.Declaring node decl ∧ decl.Initializes var := by
    rw [Option.any_eq_true]
    simp only [declarationAt?_eq_some_iff, Declaration.initializes_iff]
  rw [writesAt.eq_def, Bool.or_eq_true, hinit]
  constructor
  · rintro (⟨decl, hd, hi⟩ | hw)
    · exact .init hd hi
    · cases node with
      | stmt id => simp at hw
      | expr id =>
        dsimp only at hw
        split at hw
        · rename_i he
          rw [beq_iff_eq, varOf?_strip (h.operand he List.mem_cons_self)] at hw
          exact .assign he hw
        · rename_i he
          rw [Bool.and_eq_true, beq_iff_eq, varOf?_strip (h.operand he List.mem_cons_self)] at hw
          exact .update he (isUpdate_iff.1 hw.1) hw.2
        · simp at hw
  · intro hw
    cases hw with
    | init hd hi => exact .inl ⟨_, hd, hi⟩
    | assign he ht =>
      simp [he, (varOf?_strip (h.operand he List.mem_cons_self)).2 ht]
    | update he hop ht =>
      simp [he, (varOf?_strip (h.operand he List.mem_cons_self)).2 ht, isUpdate_iff.2 hop]

theorem fieldInitialized_iff : unit.fieldInitialized var = true ↔
    ∃ f ∈ unit.fieldFragments, f.binding = some var ∧ f.init.isSome = true := by
  simp [fieldInitialized]

end CompilationUnit
end EnhancedFor
