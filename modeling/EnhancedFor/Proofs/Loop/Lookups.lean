import EnhancedFor.Proofs.Loop.Plan
import EnhancedFor.Proofs.Syntax.Bindings

/-!
What a classification and a plan look up. All of it is in a closed store that knows what the unit is
bound to and the static types of its expressions.
-/

namespace EnhancedFor
namespace CompilationUnit

variable {unit : CompilationUnit} {store : TypeStore} {b : Binding} {node : Node} {var : VarId}
  {inits : List ExprId}

theorem TypedIn.resultType? (ht : unit.TypedIn store) (hs : store.Closed) {id : ExprId}
    {method : MethodId} {type : TypeId} (hr : unit.resultType? store id method = some type) :
    store.knows (.type type) = true := by
  rcases Option.or_eq_some_iff.1 hr with hr | ⟨-, hr⟩
  · exact ht id type hr
  · obtain ⟨m, hm, hreturn⟩ := Option.bind_eq_some_iff.1 hr
    exact hs.methods_known method m hm type (List.mem_cons_of_mem _ (Option.mem_toList.2 hreturn))

theorem elementType_known (hs : store.Closed) (iterator : VarId) (iterableExpr : ExprId) :
    store.knows (.type (unit.elementType store iterator iterableExpr)) = true := by
  rw [elementType]
  cases h : (((store.var? iterator).bind (·.type)).bind store.firstTypeArgument?).or _ with
  | none => exact hs.object_known
  | some arg =>
    rcases Option.or_eq_some_iff.1 h with h | ⟨-, h⟩
    · obtain ⟨type, -, harg⟩ := Option.bind_eq_some_iff.1 h
      exact hs.firstTypeArgument_known harg
    · obtain ⟨type, -, h⟩ := Option.bind_eq_some_iff.1 h
      obtain ⟨binding, -, h⟩ := Option.bind_eq_some_iff.1 h
      obtain ⟨-, h⟩ := Option.ite_none_right_eq_some.1 h
      obtain ⟨above, -, harg⟩ := Option.bind_eq_some_iff.1 h
      exact hs.firstTypeArgument_known harg

namespace BoundIn

variable (h : unit.BoundIn store)

include h

theorem memberTypeRefs {ref : TypeRef} (hr : ref ∈ unit.memberTypeRefs) (hb : b ∈ ref.bindings) :
    store.knows b = true := by
  obtain ⟨t, ht, hr⟩ := List.mem_flatMap.1 hr
  refine h.type ht ?_
  rcases List.mem_append.1 hr with hr | hr
  · obtain ⟨decl, hd, rfl⟩ := List.mem_map.1 hr
    exact List.mem_append_left _ (List.mem_flatMap.2 ⟨decl, hd, List.mem_append_left _ hb⟩)
  · obtain ⟨m, hm, hr⟩ := List.mem_flatMap.1 hr
    refine List.mem_append_right _ (List.mem_flatMap.2 ⟨m, hm, ?_⟩)
    rcases List.mem_append.1 hr with hr | hr
    · exact List.mem_append_left _ (List.mem_flatMap.2 ⟨ref, hr, hb⟩)
    · obtain ⟨param, hp, rfl⟩ := List.mem_map.1 hr
      exact List.mem_append_right _ (List.mem_flatMap.2 ⟨param, hp, List.mem_append_left _ hb⟩)

theorem typeRefAt? {ref : TypeRef} (hr : unit.typeRefAt? node = some ref) (hb : b ∈ ref.bindings) :
    store.knows b = true := by
  cases node with
  | stmt id =>
    rw [CompilationUnit.typeRefAt?] at hr
    split at hr
    · rename_i hdecl
      obtain rfl := Option.some.inj hr
      exact h.stmt hdecl (List.mem_append_left _ hb)
    · rename_i hloop
      obtain rfl := Option.some.inj hr
      exact h.stmt hloop (List.mem_append_left _ hb)
    · contradiction
  | expr id =>
    rw [CompilationUnit.typeRefAt?] at hr
    split at hr
    · rename_i hdecl
      obtain rfl := Option.some.inj hr
      exact h.expr hdecl (List.mem_append_left _ hb)
    · rename_i hcast
      obtain rfl := Option.some.inj hr
      exact h.expr hcast hb
    · rename_i hcreate
      obtain rfl := Option.some.inj hr
      exact h.expr hcreate hb
    · contradiction

theorem importLookups (hs : store.Closed) (hb : b ∈ unit.importLookups store) :
    store.knows b = true := by
  obtain ⟨ref, hr, hb⟩ := List.mem_flatMap.1 hb
  obtain ⟨type, htype, hb⟩ := List.mem_flatMap.1 hb
  have hmem : .type type ∈ ref.bindings := List.mem_map_of_mem htype
  refine hs.mentionLookups_known ?_ hb
  rcases List.mem_append.1 hr with hr | hr
  · exact h.memberTypeRefs hr hmem
  · obtain ⟨node, -, hr⟩ := List.mem_filterMap.1 hr
    exact h.typeRefAt? hr hmem

theorem fragment {f : Fragment} (hf : f ∈ unit.headerFragments inits) (hb : f.binding = some var) :
    store.knows (.var var) = true := by
  obtain ⟨e, -, hfragments⟩ := List.mem_flatMap.1 hf
  split at hfragments
  · rename_i decl hdecl
    refine h.expr hdecl (List.mem_append_right _ (List.mem_flatMap.2 ⟨f, hfragments, ?_⟩))
    simp [Fragment.bindings, hb]
  · exact (List.not_mem_nil hfragments).elim

theorem varOf? {id : ExprId} (hv : unit.varOf? id = some var) : store.knows (.var var) = true := by
  obtain ⟨e, he, hvar⟩ := Option.bind_eq_some_iff.1 hv
  refine h.expr he ?_
  cases e with
  | name | field => simp_all [Expr.var?, Expr.bindings]
  | _ => simp [Expr.var?] at hvar

theorem calledAt (hb : b ∈ unit.calledAt node) : store.knows b = true := by
  cases node with
  | stmt id => exact (List.not_mem_nil hb).elim
  | expr id =>
    rw [CompilationUnit.calledAt] at hb
    split at hb
    · rename_i hcall
      exact h.expr hcall (by simpa [Expr.bindings] using hb)
    · exact (List.not_mem_nil hb).elim

theorem elementLookups {iterator : VarId} (hb : b ∈ unit.elementLookups store iterator node) :
    store.knows b = true := by
  cases node with
  | expr id => exact (List.not_mem_nil hb).elim
  | stmt id =>
    rw [CompilationUnit.elementLookups] at hb
    split at hb
    · rename_i decl hdecl
      obtain ⟨f, hf, hb⟩ := List.mem_flatMap.1 hb
      exact h.stmt hdecl (List.mem_append_right _
        (List.mem_flatMap.2 ⟨f, (List.mem_filter.1 hf).1, hb⟩))
    · exact (List.not_mem_nil hb).elim

/-- The variable of a recognised occurrence is declared or named by the unit. -/
theorem occurrenceVar {iterator : VarId} {type : TypeId} {o : Occurrence}
    (ho : unit.Recognized store iterator type o) (hv : unit.occurrenceVar? o = some var) :
    store.knows (.var var) = true := by
  cases ho with
  | @declaration id decl f v init hdecl hf hb hi hfeeds htype =>
    obtain rfl := Option.some.inj hv
    refine h.stmt hdecl (List.mem_append_right _ (List.mem_flatMap.2 ⟨f, hf, ?_⟩))
    simp [Fragment.bindings, hb]
  | assignment => exact h.varOf? hv

theorem lastOccurrence {iterator : VarId} {type : TypeId} {body : StmtId}
    (hv : (unit.occurrences store iterator type body).getLast?.bind unit.occurrenceVar? =
      some var) :
    store.knows (.var var) = true := by
  obtain ⟨o, hlast, hvar⟩ := Option.bind_eq_some_iff.1 hv
  exact h.occurrenceVar (recognized_of_mem_occurrences (List.mem_of_getLast? hlast)) hvar

variable (ht : unit.TypedIn store) (hs : store.Closed)

include ht hs

theorem iterableLookups (hb : b ∈ unit.iterableLookups store node) : store.knows b = true := by
  cases node with
  | stmt id => exact (List.not_mem_nil hb).elim
  | expr id =>
    rw [CompilationUnit.iterableLookups] at hb
    split at hb
    · rename_i receiver name args method hcall
      simp only [List.cons_append, List.mem_cons, List.mem_append, List.mem_map,
        Option.mem_toList] at hb
      rcases hb with rfl | ⟨type, htype, rfl⟩ | hb
      · exact h.expr hcall (by simp [Expr.bindings])
      · exact ht.resultType? hs htype
      · split at hb
        · obtain ⟨type, htype, rfl⟩ := List.mem_map.1 hb
          exact ht receiver type (Option.mem_toList.1 htype)
        · exact (List.not_mem_nil hb).elim
    · exact (List.not_mem_nil hb).elim

theorem headerLookups (hb : b ∈ unit.headerLookups store inits) : store.knows b = true := by
  obtain ⟨f, hf, hb⟩ := List.mem_flatMap.1 hb
  rcases List.mem_append.1 hb with hb | hb
  · obtain ⟨v, hv, hb⟩ := List.mem_flatMap.1 hb
    rcases List.mem_cons.1 hb with rfl | hb
    · exact h.fragment hf (Option.mem_toList.1 hv)
    · obtain ⟨type, htype, rfl⟩ := List.mem_map.1 hb
      obtain ⟨binding, hbinding, htype⟩ := Option.bind_eq_some_iff.1 (Option.mem_toList.1 htype)
      exact hs.vars_known v binding hbinding type htype
  · obtain ⟨e, -, hb⟩ := List.mem_flatMap.1 hb
    obtain ⟨node, -, hb⟩ := List.mem_flatMap.1 hb
    exact h.iterableLookups ht hs hb

/-- Nothing that a classification asks for is lacking. -/
theorem classifyLookups {strict : Bool} {condition : Option ExprId} {updates : List ExprId}
    {body : StmtId} (hb : b ∈ unit.classifyLookups store strict inits condition updates body) :
    store.knows b = true := by
  rcases List.mem_append.1 hb with hb | hb
  · exact h.headerLookups ht hs hb
  split at hb
  · rcases List.mem_append.1 hb with hb | hb
    · rcases List.mem_append.1 hb with hb | hb
      · rcases List.mem_append.1 hb with hb | hb
        · obtain ⟨node, -, hb⟩ := List.mem_flatMap.1 hb
          exact h.elementLookups hb
        · obtain ⟨node, -, hb⟩ := List.mem_flatMap.1 hb
          exact h.calledAt hb
      · obtain ⟨var, hvar, rfl⟩ := List.mem_map.1 hb
        obtain ⟨houter, -⟩ := Option.filter_eq_some_iff.1 (Option.mem_toList.1 hvar)
        exact h.lastOccurrence (Option.filter_eq_some_iff.1 houter).1
    · split at hb
      · obtain ⟨c, -, hb⟩ := List.mem_flatMap.1 hb
        exact h.calledAt hb
      · exact (List.not_mem_nil hb).elim
  · exact (List.not_mem_nil hb).elim

end BoundIn

/-- An accepted loop of a unit without missing nodes has a plan. -/
theorem Accepts.exists_plan {strict : Bool} {condition : Option ExprId} {updates : List ExprId}
    {body : StmtId} {c : Classification}
    (h : unit.Accepts store strict inits condition updates body c) (hc : unit.complete = .ok unit)
    (hb : unit.BoundIn store) (hs : store.Closed) (names : Name.Candidates) :
    ∃ plan, c.plan unit store names = .ok plan := by
  have helement : store.knows (.type c.elementType) = true :=
    h.elementType ▸ elementType_known hs c.iterator c.iterableExpr
  obtain ⟨header, hheader⟩ := Classification.exists_header hs helement unit
    (names.first?.getD Classification.fallbackName)
  exact ⟨_, Classification.plan_of_header h.isLoop hc (fun _ => hb.importLookups hs) hheader⟩

end CompilationUnit
end EnhancedFor
