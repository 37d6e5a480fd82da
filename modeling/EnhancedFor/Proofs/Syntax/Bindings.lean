import EnhancedFor.Syntax.Builder
import EnhancedFor.Proofs.Except
import EnhancedFor.Proofs.Types.Lookup

/-!
Units and the stores that they are bound in. Main statement: a unit that is built over a store is
bound to nothing that the store lacks.
-/

namespace EnhancedFor
namespace CompilationUnit

variable {unit next : CompilationUnit} {store : TypeStore} {b : Binding}

/-- The store knows what the unit is bound to. -/
def BoundIn (unit : CompilationUnit) (store : TypeStore) : Prop :=
  ∀ b ∈ unit.bindings, store.knows b = true

instance : Decidable (unit.BoundIn store) :=
  inferInstanceAs (Decidable (∀ b ∈ unit.bindings, store.knows b = true))

/-- The store knows the static types of the expressions. -/
def TypedIn (unit : CompilationUnit) (store : TypeStore) : Prop :=
  ∀ id type, unit.exprType? id = some type → store.knows (.type type) = true

namespace BoundIn

variable (h : unit.BoundIn store)

include h

theorem expr {id : ExprId} {e : Expr} (he : unit.expr? id = some e) (hb : b ∈ e.bindings) :
    store.knows b = true := by
  obtain ⟨n, hn, rfl⟩ := Option.map_eq_some_iff.1 he
  have hmem := Array.mem_toList_iff.2 (Array.mem_of_getElem? hn)
  refine h b (List.mem_append_left _ (List.mem_append_right _ ?_))
  exact List.mem_flatMap.2 ⟨n, hmem, hb⟩

theorem stmt {id : StmtId} {s : Stmt} (hs : unit.stmt? id = some s) (hb : b ∈ s.bindings) :
    store.knows b = true := by
  have hmem := Array.mem_toList_iff.2 (Array.mem_of_getElem? hs)
  exact h b (List.mem_append_right _ (List.mem_flatMap.2 ⟨s, hmem, hb⟩))

theorem type {t : TypeDecl} (ht : t ∈ unit.types) (hb : b ∈ t.bindings) : store.knows b = true :=
  h b (List.mem_append_left _ (List.mem_append_left _ (List.mem_flatMap.2 ⟨t, ht, hb⟩)))

end BoundIn

theorem boundIn_iff : unit.BoundIn store ↔
    (∀ t ∈ unit.types, ∀ b ∈ t.bindings, store.knows b = true) ∧
    (∀ n ∈ unit.exprs.toList, ∀ b ∈ n.expr.bindings, store.knows b = true) ∧
    ∀ s ∈ unit.stmts.toList, ∀ b ∈ s.bindings, store.knows b = true := by
  simp only [BoundIn, bindings, List.mem_append, List.mem_flatMap, or_imp, forall_and,
    forall_exists_index, and_imp, and_assoc]
  constructor
  · rintro ⟨ht, he, hs⟩
    exact ⟨fun t h b => ht b t h, fun n h b => he b n h, fun s h b => hs b s h⟩
  · rintro ⟨ht, he, hs⟩
    exact ⟨fun b t h => ht t h b, fun b n h => he n h b, fun b s h => hs s h b⟩

/-- The units that can be built over a store. -/
inductive Built (store : TypeStore) : CompilationUnit → Prop where
  | initial (file : String) (package : Option String) :
    Built store { CompilationUnit.initial file with package }
  | addImport {unit : CompilationUnit} (h : Built store unit) (text : String) :
    Built store (unit.addImport text)
  | addType {unit : CompilationUnit} (h : Built store unit) (name : String)
    (binding : Option TypeId) : Built store (unit.addType name binding)
  | addExpr {unit next : CompilationUnit} (h : Built store unit) (node : ExprNode)
    (ha : unit.addExpr store node = .ok next) : Built store next
  | addStmt {unit next : CompilationUnit} (h : Built store unit) (stmt : Stmt)
    (ha : unit.addStmt store stmt = .ok next) : Built store next
  | addField {unit next : CompilationUnit} (h : Built store unit) (id : VarId)
    (init : Option ExprId) (ha : unit.addField store id init = .ok next) : Built store next
  | addMethod {unit next : CompilationUnit} (h : Built store unit) (name : String)
    (params : List VarId) (body : StmtId) (ha : unit.addMethod store name params body = .ok next) :
    Built store next

theorem BoundIn.addType (h : unit.BoundIn store) (name : String) (binding : Option TypeId) :
    (unit.addType name binding).BoundIn store := by
  obtain ⟨ht, hnodes⟩ := boundIn_iff.1 h
  refine boundIn_iff.2 ⟨fun t hmem => ?_, hnodes⟩
  rcases List.mem_append.1 hmem with hmem | hmem
  · exact ht t hmem
  · obtain rfl := List.mem_singleton.1 hmem
    exact fun b hb => (List.not_mem_nil hb).elim

/-- A change of the last type that adds known bindings. -/
theorem BoundIn.updateLastType (h : unit.BoundIn store) {f : TypeDecl → TypeDecl}
    (hf : ∀ t b, b ∈ (f t).bindings → b ∈ t.bindings ∨ store.knows b = true) :
    (updateLastType unit f).BoundIn store := by
  have hmain : ∀ unit : CompilationUnit, unit.BoundIn store →
      ({ unit with types := unit.types.modify (unit.types.length - 1) f }).BoundIn store := by
    intro unit h
    obtain ⟨ht, hnodes⟩ := boundIn_iff.1 h
    refine boundIn_iff.2 ⟨fun t hmem b hb => ?_, hnodes⟩
    obtain ⟨i, hi⟩ := List.mem_iff_getElem?.1 hmem
    rw [List.getElem?_modify] at hi
    obtain ⟨old, hold, rfl⟩ := Option.map_eq_some_iff.1 hi
    split at hb
    · rcases hf old b hb with hb | hb
      · exact ht old (List.mem_of_getElem? hold) b hb
      · exact hb
    · exact ht old (List.mem_of_getElem? hold) b hb
  rw [CompilationUnit.updateLastType]
  split
  · exact hmain _ (h.addType _ _)
  · exact hmain _ h

/-- Nodes can be added one after the other. -/
theorem Built.exprs (h : Built store unit) (nodes : List ExprNode)
    (hn : ∀ n ∈ nodes, ∀ b ∈ n.expr.bindings, store.knows b = true) :
    Built store { unit with exprs := unit.exprs ++ nodes.toArray } := by
  induction nodes generalizing unit with
  | nil => simpa using h
  | cons n nodes ih =>
    have hadd : unit.addExpr store n = .ok { unit with exprs := unit.exprs.push n } := by
      rw [CompilationUnit.addExpr, TypeStore.require_eq_ok.2 (hn n List.mem_cons_self)]
      rfl
    have hnext := ih (h.addExpr n hadd) fun m hm => hn m (List.mem_cons_of_mem _ hm)
    simpa using hnext

theorem Built.stmts (h : Built store unit) (stmts : List Stmt)
    (hs : ∀ s ∈ stmts, ∀ b ∈ s.bindings, store.knows b = true) :
    Built store { unit with stmts := unit.stmts ++ stmts.toArray } := by
  induction stmts generalizing unit with
  | nil => simpa using h
  | cons s stmts ih =>
    have hadd : unit.addStmt store s = .ok { unit with stmts := unit.stmts.push s } := by
      rw [CompilationUnit.addStmt, TypeStore.require_eq_ok.2 (hs s List.mem_cons_self)]
      rfl
    have hnext := ih (h.addStmt s hadd) fun m hm => hs m (List.mem_cons_of_mem _ hm)
    simpa using hnext

end CompilationUnit
end EnhancedFor
