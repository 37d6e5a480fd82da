import Mathlib.Data.List.Nodup
import Mathlib.Data.List.Pairwise
import Mathlib.Data.List.Perm.Subperm
import EnhancedFor.Proofs.Syntax.Tree

/-!
Units in which every node has one place: it is a root, or a part of one other node. The trees at the
roots of such a unit are finite and apart, whatever the order of the tables.
-/

namespace EnhancedFor
namespace CompilationUnit

open Relation

variable {unit : CompilationUnit} {descend : Node → Bool} {node root n a b : Node}

/-- All nodes of the tables. -/
def tableNodes (unit : CompilationUnit) : List Node :=
  (List.range unit.exprs.size).map (fun i => .expr ⟨i⟩) ++
    (List.range unit.stmts.size).map (fun i => .stmt ⟨i⟩)

/-- The places that nodes stand at: the roots, and the parts of all nodes. -/
def uses (unit : CompilationUnit) : List Node := unit.roots ++ unit.tableNodes.flatMap unit.kids

/-- No node is used twice. -/
def SingleUse (unit : CompilationUnit) : Prop := unit.uses.Nodup

instance (unit : CompilationUnit) : Decidable unit.SingleUse :=
  inferInstanceAs (Decidable unit.uses.Nodup)

/-- The node is in the tree at a root. -/
def Rooted (unit : CompilationUnit) (node : Node) : Prop :=
  ∃ root ∈ unit.roots, unit.Below root node

/-- The node is so many levels below a root. -/
inductive Level (unit : CompilationUnit) : Nat → Node → Prop where
  | root {node : Node} (h : node ∈ unit.roots) : Level unit 0 node
  | kid {k : Nat} {node kid : Node} (h : Level unit k node) (hk : kid ∈ unit.kids node) :
    Level unit (k + 1) kid

theorem mem_tableNodes : node ∈ unit.tableNodes ↔ unit.contains node = true := by
  cases node with
  | expr id =>
    have : (∃ i, i < unit.exprs.size ∧ (⟨i⟩ : ExprId) = id) ↔ id.index < unit.exprs.size :=
      ⟨by rintro ⟨i, hi, rfl⟩; exact hi, fun h => ⟨_, h, rfl⟩⟩
    simpa [tableNodes, contains] using this
  | stmt id =>
    have : (∃ i, i < unit.stmts.size ∧ (⟨i⟩ : StmtId) = id) ↔ id.index < unit.stmts.size :=
      ⟨by rintro ⟨i, hi, rfl⟩; exact hi, fun h => ⟨_, h, rfl⟩⟩
    simpa [tableNodes, contains] using this

theorem backward_iff : unit.Backward ↔ ∀ node ∈ unit.tableNodes, ∀ kid ∈ unit.kids node,
    unit.contains kid = true ∧ unit.rank kid < unit.rank node := by
  constructor
  · intro h node _ kid hk
    exact h.of_mem_kids hk
  · intro h node kids hkids kid hk
    have heq : unit.kids node = kids := by rw [CompilationUnit.kids, hkids, Option.getD_some]
    subst heq
    exact h node (mem_tableNodes.2 (contains_iff.2 hkids)) kid hk

instance (unit : CompilationUnit) : Decidable unit.Backward := decidable_of_iff' _ backward_iff

theorem length_tableNodes : unit.tableNodes.length = unit.size := by
  simp [tableNodes, size]

theorem Rooted.kid {kid : Node} (h : unit.Rooted node) (hk : kid ∈ unit.kids node) :
    unit.Rooted kid := by
  obtain ⟨root, hr, hb⟩ := h
  exact ⟨root, hr, hb.tail hk⟩

theorem Rooted.below (h : unit.Rooted node) (hn : unit.Below node n) : unit.Rooted n := by
  obtain ⟨root, hr, hb⟩ := h
  exact ⟨root, hr, hb.trans hn⟩

theorem Rooted.level (h : unit.Rooted node) : ∃ k, unit.Level k node := by
  obtain ⟨root, hr, hb⟩ := h
  induction hb with
  | refl => exact ⟨0, .root hr⟩
  | tail _ hk ih =>
    obtain ⟨k, hl⟩ := ih
    exact ⟨k + 1, hl.kid hk⟩

theorem Level.rooted {k : Nat} (h : unit.Level k node) : unit.Rooted node := by
  induction h with
  | root hr => exact ⟨_, hr, .refl⟩
  | kid _ hk ih => exact ih.kid hk

namespace SingleUse

variable {kid : Node} (hu : unit.SingleUse)

include hu

theorem roots_nodup : unit.roots.Nodup := (List.nodup_append.1 hu).1

theorem parts_nodup : (unit.tableNodes.flatMap unit.kids).Nodup := (List.nodup_append.1 hu).2.1

theorem kids_nodup (node : Node) : (unit.kids node).Nodup := by
  by_cases h : unit.contains node = true
  · exact (List.nodup_flatMap.1 hu.parts_nodup).1 node (mem_tableNodes.2 h)
  · have hnil : unit.kids node = [] :=
      List.eq_nil_iff_forall_not_mem.2 fun kid hk => h (contains_of_mem_kids hk)
    rw [hnil]
    exact List.nodup_nil

theorem not_mem_roots (hk : kid ∈ unit.kids node) : kid ∉ unit.roots := by
  intro hr
  have hpart : kid ∈ unit.tableNodes.flatMap unit.kids :=
    List.mem_flatMap.2 ⟨node, mem_tableNodes.2 (contains_of_mem_kids hk), hk⟩
  exact (List.nodup_append.1 hu).2.2 kid hr kid hpart rfl

/-- A node is a part of one node only. -/
theorem parent_unique (ha : kid ∈ unit.kids a) (hb : kid ∈ unit.kids b) : a = b := by
  have hpair := (List.nodup_flatMap.1 hu.parts_nodup).2
  have : Std.Symm (Function.onFun List.Disjoint unit.kids) := ⟨fun _ _ h n hb ha => h ha hb⟩
  by_contra hne
  exact hpair.forall (mem_tableNodes.2 (contains_of_mem_kids ha))
    (mem_tableNodes.2 (contains_of_mem_kids hb)) hne ha hb

theorem level_unique {j k : Nat} (hj : unit.Level j node) (hk : unit.Level k node) : j = k := by
  induction hj generalizing k with
  | root hr =>
    cases hk with
    | root _ => rfl
    | kid _ hm => exact (hu.not_mem_roots hm hr).elim
  | kid _ hm ih =>
    cases hk with
    | root hr => exact (hu.not_mem_roots hm hr).elim
    | kid hl hm' => rw [ih (hu.parent_unique hm' hm ▸ hl)]

/-- The nodes above a node are different from each other; all of them have parts. -/
theorem exists_path {k : Nat} (hl : unit.Level k node) :
    ∃ path : List Node, path.length = k ∧ path.Nodup ∧ ∀ m ∈ path,
      (∃ kid, kid ∈ unit.kids m) ∧ ∃ j < k, unit.Level j m := by
  induction hl with
  | root hr => exact ⟨[], rfl, List.nodup_nil, fun m hm => (List.not_mem_nil hm).elim⟩
  | @kid k node kid hl hk ih =>
    obtain ⟨path, hlen, hnodup, hpath⟩ := ih
    refine ⟨node :: path, by simp [hlen], List.nodup_cons.2 ⟨fun hm => ?_, hnodup⟩, ?_⟩
    · obtain ⟨-, j, hj, hlj⟩ := hpath node hm
      have := hu.level_unique hlj hl
      omega
    · intro m hm
      rcases List.mem_cons.1 hm with rfl | hm
      · exact ⟨⟨kid, hk⟩, k, Nat.lt_succ_self k, hl⟩
      · obtain ⟨hkids, j, hj, hlj⟩ := hpath m hm
        exact ⟨hkids, j, by omega, hlj⟩

theorem level_le_size {k : Nat} (hl : unit.Level k node) : k ≤ unit.size := by
  obtain ⟨path, hlen, hnodup, hpath⟩ := hu.exists_path hl
  have hsub : path ⊆ unit.tableNodes := by
    intro m hm
    obtain ⟨⟨kid, hk⟩, -⟩ := hpath m hm
    exact mem_tableNodes.2 (contains_of_mem_kids hk)
  have hle := (hnodup.subperm hsub).length_le
  rwa [hlen, length_tableNodes] at hle

theorem heightWithin_of_level {e k : Nat} (hl : unit.Level k node) (he : unit.depth ≤ k + e) :
    unit.HeightWithin e node := by
  induction e generalizing k node with
  | zero =>
    have := hu.level_le_size hl
    rw [depth] at he
    omega
  | succ e ih => exact fun kid hk => ih (hl.kid hk) (by omega)

theorem heightWithin (h : unit.Rooted node) : unit.HeightWithin unit.depth node := by
  obtain ⟨k, hl⟩ := h.level
  exact hu.heightWithin_of_level hl (Nat.le_add_left _ _)

theorem rooted_parent (hr : unit.Rooted kid) (hk : kid ∈ unit.kids node) : unit.Rooted node := by
  obtain ⟨root, hroot, hb⟩ := hr
  rcases ReflTransGen.cases_tail hb with rfl | ⟨p, hb, hp⟩
  · exact (hu.not_mem_roots hk hroot).elim
  · exact ⟨root, hroot, hu.parent_unique hp hk ▸ hb⟩

/-- Of two nodes above a third, one is above the other. -/
theorem below_linear (ha : unit.Below a n) (hb : unit.Below b n) :
    unit.Below a b ∨ unit.Below b a := by
  induction ha with
  | refl => exact .inr hb
  | tail ha hk ih =>
    rcases ReflTransGen.cases_tail hb with rfl | ⟨p, hb, hp⟩
    · exact .inl (ha.tail hk)
    · exact ih (hu.parent_unique hp hk ▸ hb)

/-- A proper part of another node's tree is below the node that it is a part of. -/
theorem below_parent (hb : unit.Below a kid) (hne : a ≠ kid) (hk : kid ∈ unit.kids node) :
    unit.Below a node := by
  rcases ReflTransGen.cases_tail hb with rfl | ⟨p, hb, hp⟩
  · exact (hne rfl).elim
  · exact hu.parent_unique hp hk ▸ hb

theorem eq_of_below_root (hr : root ∈ unit.roots) (hb : unit.Below a root) : a = root := by
  rcases ReflTransGen.cases_tail hb with rfl | ⟨p, -, hp⟩
  · rfl
  · exact (hu.not_mem_roots hp hr).elim

/-- The trees at two parts of a node are apart. -/
theorem kids_apart (h : unit.Grounded node) (ha : a ∈ unit.kids node) (hb : b ∈ unit.kids node)
    (hna : unit.Below a n) (hnb : unit.Below b n) : a = b := by
  by_contra hne
  rcases hu.below_linear hna hnb with hab | hba
  · exact h.not_below ha (hu.below_parent hab hne hb)
  · exact h.not_below hb (hu.below_parent hba (Ne.symm hne) ha)

theorem roots_apart (ha : a ∈ unit.roots) (hb : b ∈ unit.roots) (hna : unit.Below a n)
    (hnb : unit.Below b n) : a = b := by
  rcases hu.below_linear hna hnb with hab | hba
  · exact hu.eq_of_below_root hb hab
  · exact (hu.eq_of_below_root ha hba).symm

/-- A walk reaches a node exactly if it goes on at all nodes above it. -/
theorem reaches_iff (h : unit.Grounded root) :
    unit.Reaches descend root n ↔ unit.Below root n ∧
      ∀ m, unit.Below root m → unit.Below m n → m ≠ n → descend m = true := by
  constructor
  · intro hr
    refine ⟨hr.below, ?_⟩
    induction hr with
    | refl =>
      intro m hrm hmr hne
      rcases ReflTransGen.cases_head hrm with rfl | ⟨kid, hk, hb⟩
      · exact (hne rfl).elim
      · exact (h.not_below hk (hb.trans hmr)).elim
    | @tail p n hp hpn ih =>
      intro m hrm hmn hne
      have hmp := hu.below_parent hmn hne hpn.2
      by_cases hm : m = p
      · exact hm ▸ hpn.1
      · exact ih m hrm hmp hm
  · rintro ⟨hb, hall⟩
    induction hb with
    | refl => exact .refl
    | @tail p n hp hpn ih =>
      have hback : ¬ unit.Below n p := (h.below hp).not_below hpn
      refine (ih fun m hrm hmp hne => ?_).tail ⟨hall p hp (.single hpn) ?_, hpn⟩
      · exact hall m hrm (hmp.tail hpn) fun hmn => hback (hmn ▸ hmp)
      · exact fun hpn' => hback (hpn' ▸ .refl)

/-- A walk that leaves out some nodes and all below them. -/
theorem mem_nodesBelow_filter {cut : Node → Bool} (h : unit.Grounded root) :
    n ∈ (unit.nodesBelow root (!cut ·)).filter (!cut ·) ↔ unit.Below root n ∧
      ∀ m, unit.Below root m → unit.Below m n → cut m = false := by
  rw [List.mem_filter, h.mem_nodesBelow, hu.reaches_iff h]
  simp only [Bool.not_eq_true']
  constructor
  · rintro ⟨⟨hb, hall⟩, hn⟩
    refine ⟨hb, fun m hrm hmn => ?_⟩
    by_cases hm : m = n
    · exact hm ▸ hn
    · exact hall m hrm hmn hm
  · rintro ⟨hb, hall⟩
    exact ⟨⟨hb, fun m hrm hmn _ => hall m hrm hmn⟩, hall n hb .refl⟩

theorem nodesBelow_nodup (h : unit.Grounded node) : (unit.nodesBelow node descend).Nodup := by
  induction h using Grounded.rec_kids with
  | step node h ih =>
    rw [h.nodesBelow_eq, List.nodup_cons]
    split
    · refine ⟨fun hm => ?_, List.nodup_flatMap.2 ⟨ih, ?_⟩⟩
      · obtain ⟨kid, hk, hm⟩ := List.mem_flatMap.1 hm
        exact h.not_below hk ((h.kid hk).mem_nodesBelow.1 hm).below
      · refine (hu.kids_nodup node).imp_of_mem fun {a b} ha hb hne n hna hnb => hne ?_
        exact hu.kids_apart h ha hb ((h.kid ha).mem_nodesBelow.1 hna).below
          ((h.kid hb).mem_nodesBelow.1 hnb).below
    · exact ⟨List.not_mem_nil, List.nodup_nil⟩

end SingleUse

/-- A full walk that ends well has met nodes of the unit only. -/
theorem contains_of_visitTree {d : Nat} {out found : List Node}
    (hok : unit.visitTree (collect fun _ => true) d node out = .ok found)
    (hh : unit.HeightWithin d node) (hn : unit.Below node n) : unit.contains n = true := by
  induction d generalizing node out found with
  | zero => exact hh.elim
  | succ d ih =>
    rw [visitTree, collect] at hok
    cases hc : unit.children? node with
    | none => simp [hc] at hok
    | some ks =>
      obtain rfl := kids_of_children hc
      simp only [if_true, hc] at hok
      rcases ReflTransGen.cases_head hn with rfl | ⟨kid, hk, hn⟩
      · exact contains_iff.2 hc
      · obtain ⟨s, t, hkid⟩ := foldlM_mem hok kid hk
        exact ih hkid (hh kid hk) hn

theorem complete_eq_ok_iff : unit.complete = .ok unit ↔
    ∀ root ∈ unit.roots, ∃ found, unit.visited root (fun _ => true) = .ok found := by
  rw [← mapM_isOk, complete]
  cases unit.roots.mapM fun root => unit.visited root fun _ => true with
  | error e => simp [bind, Except.bind]
  | ok ys => simp [bind, Except.bind, pure, Except.pure]

theorem eq_of_complete {other : CompilationUnit} (h : unit.complete = .ok other) :
    other = unit := by
  rw [complete] at h
  cases hm : unit.roots.mapM fun root => unit.visited root fun _ => true with
  | error e => simp [hm, bind, Except.bind] at h
  | ok ys =>
    simp only [hm, bind, Except.bind, pure, Except.pure, Except.ok.injEq] at h
    exact h.symm

theorem complete_of_grounded (h : ∀ root ∈ unit.roots, unit.Grounded root) :
    unit.complete = .ok unit :=
  complete_eq_ok_iff.2 fun root hr => ⟨_, (h root hr).visited_eq_ok _⟩

/-- The nodes of the trees at the roots are all in the tables. -/
def Complete (unit : CompilationUnit) : Prop := ∀ node, unit.Rooted node → unit.contains node = true

/-- Where nodes refer to earlier ones, only a root can be missing. -/
theorem Backward.complete (h : unit.Backward)
    (hroots : ∀ root ∈ unit.roots, unit.contains root = true) : unit.Complete := by
  rintro node ⟨root, hr, hb⟩
  exact (h.grounded (hroots root hr)).present node hb

namespace SingleUse

variable (hu : unit.SingleUse)

include hu

theorem grounded (hc : unit.Complete) (h : unit.Rooted node) : unit.Grounded node :=
  ⟨hu.heightWithin h, fun n hn => hc n (h.below hn)⟩

theorem complete_iff : unit.complete = .ok unit ↔ unit.Complete := by
  constructor
  · rintro h node ⟨root, hr, hb⟩
    have hheight := hu.heightWithin ⟨root, hr, .refl⟩
    obtain ⟨found, hfound⟩ := complete_eq_ok_iff.1 h root hr
    rw [visited_eq hheight] at hfound
    cases hv : unit.visitTree (collect fun _ => true) unit.depth root [] with
    | error e => simp [hv, Except.map] at hfound
    | ok out => exact contains_of_visitTree hv hheight hb
  · intro h
    exact complete_of_grounded fun root hr => hu.grounded h ⟨root, hr, .refl⟩

/-- Walks from all roots meet no node twice. -/
theorem roots_walk_nodup (hc : unit.Complete) :
    (unit.roots.flatMap (unit.nodesBelow · descend)).Nodup := by
  have hroot : ∀ root ∈ unit.roots, unit.Grounded root :=
    fun root hr => hu.grounded hc ⟨root, hr, .refl⟩
  refine List.nodup_flatMap.2 ⟨fun root hr => hu.nodesBelow_nodup (hroot root hr), ?_⟩
  refine hu.roots_nodup.imp_of_mem fun {a b} ha hb hne n hna hnb => hne ?_
  exact hu.roots_apart ha hb ((hroot a ha).mem_nodesBelow.1 hna).below
    ((hroot b hb).mem_nodesBelow.1 hnb).below

theorem mem_allNodes (hc : unit.Complete) : n ∈ unit.allNodes ↔ unit.Rooted n := by
  have hroot : ∀ root ∈ unit.roots, unit.Grounded root :=
    fun root hr => hu.grounded hc ⟨root, hr, .refl⟩
  rw [allNodes, List.mem_flatMap]
  constructor
  · rintro ⟨root, hr, hn⟩
    exact ⟨root, hr, ((hroot root hr).mem_nodesBelow.1 hn).below⟩
  · rintro ⟨root, hr, hn⟩
    exact ⟨root, hr, (hroot root hr).mem_subtree.2 hn⟩

end SingleUse

end CompilationUnit
end EnhancedFor
