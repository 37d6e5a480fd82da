import EnhancedFor.Syntax.Parents
import EnhancedFor.Proofs.Syntax.SingleUse

/-!
The links of a unit without repeated nodes lead from each node to the one it is a part of, and the
way up from an expression ends at the statement that holds it.
-/

namespace EnhancedFor
namespace Parents

open Relation CompilationUnit

variable {unit : CompilationUnit} {node parent : Node}

theorem mem_links (hu : unit.SingleUse) (hc : unit.Complete) :
    (node, parent) ∈ (ofUnit unit).links ↔ unit.Rooted parent ∧ node ∈ unit.kids parent := by
  simp only [ofUnit, List.mem_reverse, List.mem_flatMap, hu.mem_allNodes hc]
  constructor
  · rintro ⟨p, hp, hmem⟩
    obtain ⟨kid, hk, heq⟩ := List.mem_map.1 hmem
    obtain ⟨rfl, rfl⟩ := Prod.mk.inj heq
    exact ⟨hp, hk⟩
  · rintro ⟨hp, hk⟩
    exact ⟨parent, hp, List.mem_map.2 ⟨node, hk, rfl⟩⟩

theorem parent?_eq_some_iff (hu : unit.SingleUse) (hc : unit.Complete) :
    (ofUnit unit).parent? node = some parent ↔ unit.Rooted parent ∧ node ∈ unit.kids parent := by
  have hsound {p : Node} (h : (ofUnit unit).parent? node = some p) :
      unit.Rooted p ∧ node ∈ unit.kids p := by
    obtain ⟨before, after, heq, -⟩ := List.lookup_eq_some_iff.1 h
    rw [← mem_links hu hc, heq]
    exact List.mem_append_right _ List.mem_cons_self
  refine ⟨hsound, fun h => ?_⟩
  have hsome : ((ofUnit unit).parent? node).isSome = true := by
    rw [parent?, List.lookup_isSome_iff]
    exact ⟨(node, parent), (mem_links hu hc).2 h, by simp⟩
  obtain ⟨p, hp⟩ := Option.isSome_iff_exists.1 hsome
  rw [hp, hu.parent_unique (hsound hp).2 h.2]

/-- Each level above a node has its own link. -/
theorem level_le_length (hu : unit.SingleUse) (hc : unit.Complete) {k : Nat}
    (hl : unit.Level k node) : k ≤ (ofUnit unit).links.length := by
  obtain ⟨path, hlen, hnodup, hpath⟩ := hu.exists_path hl
  have hsub : path ⊆ (ofUnit unit).links.map Prod.snd := by
    intro m hm
    obtain ⟨⟨kid, hk⟩, j, -, hj⟩ := hpath m hm
    exact List.mem_map.2 ⟨(kid, m), (mem_links hu hc).2 ⟨hj.rooted, hk⟩, rfl⟩
  have hle := (hnodup.subperm hsub).length_le
  rwa [hlen, List.length_map] at hle

theorem pathWithin_eq (hu : unit.SingleUse) (hc : unit.Complete) {j k steps : Nat}
    (hl : unit.Level k node) (hk : k < steps) (hj : steps ≤ j) :
    (ofUnit unit).pathWithin j node = (ofUnit unit).pathWithin steps node := by
  induction steps generalizing j k node with
  | zero => omega
  | succ steps ih =>
    obtain ⟨j, rfl⟩ : ∃ i, j = i + 1 := ⟨j - 1, by omega⟩
    rw [pathWithin, pathWithin]
    cases hp : (ofUnit unit).parent? node with
    | none => rfl
    | some p =>
      obtain ⟨hr, hkid⟩ := (parent?_eq_some_iff hu hc).1 hp
      cases hl with
      | root h => exact (hu.not_mem_roots hkid h).elim
      | kid hl h =>
        obtain rfl := hu.parent_unique hkid h
        exact congrArg (node :: ·) (ih hl (by omega) (by omega))

/-- The way up from a node goes on from its parent. -/
theorem path_eq (hu : unit.SingleUse) (hc : unit.Complete) (node : Node) :
    (ofUnit unit).path node = node :: match (ofUnit unit).parent? node with
      | some up => (ofUnit unit).path up
      | none => [] := by
  rw [path, pathWithin]
  cases hp : (ofUnit unit).parent? node with
  | none => rfl
  | some p =>
    obtain ⟨hr, hkid⟩ := (parent?_eq_some_iff hu hc).1 hp
    obtain ⟨k, hl⟩ := hr.level
    have hle := level_le_length hu hc (hl.kid hkid)
    exact congrArg (node :: ·) (pathWithin_eq hu hc hl (by omega) (Nat.le_succ _)).symm

theorem enclosingStmt?_stmt (hu : unit.SingleUse) (hc : unit.Complete) (id : StmtId) :
    (ofUnit unit).enclosingStmt? (.stmt id) = some id := by
  rw [enclosingStmt?, path_eq hu hc]
  rfl

theorem enclosingStmt?_expr (hu : unit.SingleUse) (hc : unit.Complete) (id : ExprId) :
    (ofUnit unit).enclosingStmt? (.expr id) =
      ((ofUnit unit).parent? (.expr id)).bind (ofUnit unit).enclosingStmt? := by
  rw [enclosingStmt?, path_eq hu hc]
  cases (ofUnit unit).parent? (.expr id) <;> rfl

/-- The nearest statement above an expression has the expression in one of its own expressions. -/
theorem enclosingStmt?_expr_eq_some_iff (hu : unit.SingleUse) (hc : unit.Complete) {id : ExprId}
    {stmt : StmtId} : (ofUnit unit).enclosingStmt? (.expr id) = some stmt ↔
      unit.Rooted (.stmt stmt) ∧
        ∃ e, .expr e ∈ unit.kids (.stmt stmt) ∧ unit.Below (.expr e) (.expr id) := by
  constructor
  · intro h
    rw [enclosingStmt?_expr hu hc] at h
    obtain ⟨p, hp, hup⟩ := Option.bind_eq_some_iff.1 h
    obtain ⟨hr, hkid⟩ := (parent?_eq_some_iff hu hc).1 hp
    obtain ⟨k, hl⟩ := hr.level
    clear h hp hr
    induction hl generalizing id with
    | @root p hroot =>
      cases p with
      | stmt s =>
        rw [enclosingStmt?_stmt hu hc] at hup
        obtain rfl := Option.some.inj hup
        exact ⟨⟨_, hroot, .refl⟩, id, hkid, .refl⟩
      | expr e =>
        rw [enclosingStmt?_expr hu hc] at hup
        obtain ⟨q, hq, -⟩ := Option.bind_eq_some_iff.1 hup
        exact (hu.not_mem_roots ((parent?_eq_some_iff hu hc).1 hq).2 hroot).elim
    | @kid k q p hl hq ih =>
      cases p with
      | stmt s =>
        rw [enclosingStmt?_stmt hu hc] at hup
        obtain rfl := Option.some.inj hup
        exact ⟨hl.rooted.kid hq, id, hkid, .refl⟩
      | expr e =>
        rw [enclosingStmt?_expr hu hc] at hup
        obtain ⟨q', hq', hup⟩ := Option.bind_eq_some_iff.1 hup
        obtain rfl := hu.parent_unique ((parent?_eq_some_iff hu hc).1 hq').2 hq
        obtain ⟨hs, e', he', hb⟩ := ih hup hq
        exact ⟨hs, e', he', hb.tail hkid⟩
  · rintro ⟨hr, e, he, hb⟩
    have hstep {p : Node} {c : ExprId} (hp : unit.Rooted p) (hkid : .expr c ∈ unit.kids p)
        (hup : (ofUnit unit).enclosingStmt? p = some stmt) :
        (ofUnit unit).enclosingStmt? (.expr c) = some stmt := by
      rw [enclosingStmt?_expr hu hc, (parent?_eq_some_iff hu hc).2 ⟨hp, hkid⟩]
      exact hup
    have hfirst := hstep hr he (enclosingStmt?_stmt hu hc stmt)
    -- All nodes below an expression are expressions.
    have hall : ∀ node, unit.Below (.expr e) node →
        ∃ c, node = .expr c ∧ (ofUnit unit).enclosingStmt? (.expr c) = some stmt := by
      intro node hb
      induction hb with
      | refl => exact ⟨e, rfl, hfirst⟩
      | @tail p c hp hkid ih =>
        obtain ⟨p, rfl, hup⟩ := ih
        obtain ⟨c, rfl⟩ := exists_expr_of_mem_kids hkid
        exact ⟨c, rfl, hstep ((hr.kid he).below hp) hkid hup⟩
    obtain ⟨c, hc, hup⟩ := hall _ hb
    obtain rfl := Node.expr.inj hc
    exact hup

end Parents
end EnhancedFor
