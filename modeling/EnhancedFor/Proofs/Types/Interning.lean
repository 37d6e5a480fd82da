import EnhancedFor.Proofs.Types.Parameterize

/-!
Stores that are built by the operations on them. Main statement: in every store that can be built,
ids are equal if the types are, all stored ids are in the table, and making a parameterised type
again finds it.
-/

namespace EnhancedFor
namespace TypeStore

variable {store store' : TypeStore} {id : TypeId} {b : TypeBinding}

/-- The stores that the operations make from the one with `java.lang.Object` only, given ids of the
store that they work on. A parameterisation may take any number of nested steps. -/
inductive Reachable : TypeStore → Prop where
  | initial : Reachable initial
  | declareClass {store : TypeStore} (h : Reachable store) (name : String) (params : List String) :
    Reachable (store.declareClass name params).1
  | declareInterface {store : TypeStore} (h : Reachable store) (name : String)
    (params : List String) : Reachable (store.declareInterface name params).1
  | declarePrimitive {store : TypeStore} (h : Reachable store) (name : String) :
    Reachable (store.declarePrimitive name).1
  | setSuperclass {store : TypeStore} (h : Reachable store) {id superclass : TypeId}
    (hid : store.Known id) (hs : store.Known superclass) :
    Reachable (store.setSuperclass id superclass)
  | addInterface {store : TypeStore} (h : Reachable store) {id face : TypeId}
    (hid : store.Known id) (hf : store.Known face) : Reachable (store.addInterface id face)
  | parameterize {store store' : TypeStore} (h : Reachable store) {generic id : TypeId}
    {args : List TypeId} (hg : store.Known generic) (ha : ∀ arg ∈ args, store.Known arg)
    (hargs : args ≠ []) {depth : Nat}
    (hr : parameterizeWithin depth store (store.declarationOf generic) args = some (store', id)) :
    Reachable store'
  | arrayOf {store : TypeStore} (h : Reachable store) {component : TypeId}
    (hc : store.Known component) : Reachable (store.arrayOf component).1
  | addMethod {store : TypeStore} (h : Reachable store) {declaringType : TypeId}
    {returnType : Option TypeId} (hd : store.Known declaringType)
    (hr : ∀ type ∈ returnType, store.Known type) (name : String) :
    Reachable (store.addMethod declaringType name returnType).1
  | addVariable {store : TypeStore} (h : Reachable store) {type : Option TypeId}
    (ht : ∀ t ∈ type, store.Known t) (name : String) (kind : VariableKind) :
    Reachable (store.addVariable name type kind).1

theorem Reachable.sound (h : store.Reachable) : store.Sound := by
  induction h with
  | initial => exact sound_initial
  | declareClass _ name params ih => exact ih.declareClass name params
  | declareInterface _ name params ih => exact ih.declareInterface name params
  | declarePrimitive _ name ih => exact ih.declarePrimitive name
  | setSuperclass _ _ hs ih => exact ih.setSuperclass hs _
  | addInterface _ _ hf ih => exact ih.addInterface hf _
  | parameterize _ hg ha hargs hr ih => exact (ih.growsTo_parameterizeWithin hg ha hargs hr).1.1
  | arrayOf _ _ ih => exact ih.arrayOf _
  | addMethod _ hd hr name ih => exact ih.addMethod hd hr name
  | addVariable _ ht name kind ih => exact ih.addVariable ht name kind

theorem Reachable.of_parameterize (h : store.Reachable) {generic : TypeId} {args : List TypeId}
    (hg : store.Known generic) (ha : ∀ arg ∈ args, store.Known arg)
    (hr : store.parameterize generic args = .ok (store', id)) : store'.Reachable := by
  rcases parameterize_cases hr with ⟨-, rfl, -⟩ | ⟨hargs, hr⟩
  · exact h
  · exact h.parameterize hg ha hargs hr

theorem Reachable.closed (h : store.Reachable) : store.Closed := by
  have hs := h.sound
  have hknows {id : TypeId} (hid : store.Known id) : store.knows (.type id) = true := by
    obtain ⟨b, hb⟩ := known_iff.1 hid
    exact knows_type hb
  refine ⟨hknows hs.object_known, fun id b hb other hother => hknows ?_,
    fun id m hm type htype => hknows ?_,
    fun id v hv type htype => hknows (hs.vars_known id v hv type htype)⟩
  · rcases List.mem_append.1 hother with hpart | hlink
    · exact Nat.lt_trans (hs.parts_lt id b hb other hpart) (known_of_type? hb)
    · exact hs.links_known id b hb other hlink
  · obtain ⟨hdeclaring, hreturn⟩ := hs.methods_known id m hm
    rcases List.mem_cons.1 htype with rfl | htype
    · exact hdeclaring
    · exact hreturn type (Option.mem_toList.1 htype)

/-- The two ids stand for the same type term: they are equal, or the types are made from one
declaration with the same arguments, or they are arrays of the same component. -/
inductive SameTerm (store : TypeStore) : TypeId → TypeId → Prop where
  | refl (id : TypeId) : SameTerm store id id
  | parameterized {s t generic : TypeId} {b c : TypeBinding} (hs : store.type? s = some b)
    (ht : store.type? t = some c) (hb : b.erasure = some generic) (hc : c.erasure = some generic)
    (hlength : b.typeArguments.length = c.typeArguments.length)
    (hargs : ∀ (i : Nat) (x y : TypeId), b.typeArguments[i]? = some x →
      c.typeArguments[i]? = some y → SameTerm store x y) : SameTerm store s t
  | array {s t x y : TypeId} {b c : TypeBinding} (hs : store.type? s = some b)
    (ht : store.type? t = some c) (hb : b.component = some x) (hc : c.component = some y)
    (hxy : SameTerm store x y) : SameTerm store s t

theorem Sound.eq_of_sameTerm (h : store.Sound) {s t : TypeId} (hst : store.SameTerm s t) :
    s = t := by
  induction hst with
  | refl => rfl
  | @parameterized s t generic b c hs ht hb hc hlength _ ih =>
    have hargs : b.typeArguments = c.typeArguments := by
      apply List.ext_getElem hlength
      intro i hi hi'
      exact ih i _ _ (List.getElem?_eq_getElem hi) (List.getElem?_eq_getElem hi')
    have hcomponents : b.component = none ∧ c.component = none := by
      have hbproper := (h.proper s b hs).2
      have hcproper := (h.proper t c ht).2
      simp_all
    apply h.parts_inj s t b c hs ht
    · simp [TypeBinding.parts, hb]
    · exact ⟨hb.trans hc.symm, hargs, hcomponents.1.trans hcomponents.2.symm⟩
  | @array s t x y b c hs ht hb hc _ ih =>
    obtain ⟨hbargs, hberasure⟩ := h.proper s b hs
    obtain ⟨hcargs, hcerasure⟩ := h.proper t c ht
    simp only [hb, hc, reduceCtorEq, false_or] at hberasure hcerasure
    apply h.parts_inj s t b c hs ht
    · simp [TypeBinding.parts, hb]
    · refine ⟨hberasure.trans hcerasure.symm, ?_, ?_⟩
      · rw [hbargs.1 hberasure, hcargs.1 hcerasure]
      · rw [hb, hc, ih]

/-- An entry of the store holds the id. -/
inductive Holds (store : TypeStore) (id : TypeId) : Prop where
  | part {owner : TypeId} {b : TypeBinding} (h : store.type? owner = some b) (hp : id ∈ b.parts)
  | link {owner : TypeId} {b : TypeBinding} (h : store.type? owner = some b) (hl : id ∈ b.links)
  | declaring {method : MethodId} {m : MethodBinding} (h : store.method? method = some m)
    (hd : m.declaringType = id)
  | result {method : MethodId} {m : MethodBinding} (h : store.method? method = some m)
    (hr : m.returnType = some id)
  | varType {var : VarId} {v : VariableBinding} (h : store.var? var = some v)
    (ht : v.type = some id)

theorem Sound.known_of_holds (h : store.Sound) (hid : store.Holds id) : store.Known id := by
  cases hid with
  | part hb hp => exact Nat.lt_trans (h.parts_lt _ _ hb id hp) (known_of_type? hb)
  | link hb hl => exact h.links_known _ _ hb id hl
  | declaring hm hd => exact hd ▸ (h.methods_known _ _ hm).1
  | result hm hr => exact (h.methods_known _ _ hm).2 id hr
  | varType hv ht => exact h.vars_known _ _ hv id ht

/-- A parameterised type is the only one that is found by its declaration and arguments. -/
theorem Sound.findParameterized?_eq (h : store.Sound) (hb : store.type? id = some b)
    {generic : TypeId} (hgeneric : b.erasure = some generic) :
    store.findParameterized? generic b.typeArguments = some id := by
  cases hfound : store.findParameterized? generic b.typeArguments with
  | none => exact (findParameterized?_eq_none_iff.1 hfound id b hb ⟨hgeneric, rfl⟩).elim
  | some other =>
    obtain ⟨c, hc, hmatch⟩ := exists_of_findParameterized? hfound
    have hsame : store.SameTerm other id := by
      apply SameTerm.parameterized hc hb hmatch.1 hgeneric (by rw [hmatch.2])
      intro i x y hx hy
      rw [hmatch.2] at hx
      obtain rfl := Option.some.inj (hx.symm.trans hy)
      exact .refl x
    rw [h.eq_of_sameTerm hsame]

theorem Sound.parameterize_self (h : store.Sound) (hb : store.type? id = some b)
    {generic : TypeId} (hgeneric : b.erasure = some generic) :
    store.parameterize generic b.typeArguments = .ok (store, id) := by
  obtain ⟨decl, hdecl, hbare⟩ := h.erasure_bare id b hb generic hgeneric
  have hargs : b.typeArguments ≠ [] := by
    intro hnil
    have hnone := (h.proper id b hb).1.2 hnil
    simp [hgeneric] at hnone
  obtain ⟨depth, hdepth⟩ : ∃ depth, store.depthLimit = depth + 1 :=
    ⟨65535 + 4 * (store.size + 1) * (store.size + 1), by unfold depthLimit; omega⟩
  have hmade : parameterizeWithin store.depthLimit store generic b.typeArguments =
      some (store, id) := by
    rw [hdepth, parameterizeWithin]
    simp [hdecl, h.findParameterized?_eq hb hgeneric]
  simp [TypeStore.parameterize, declarationOf_of_erasure hdecl hbare, hargs, hmade]

/-- In every store that can be built: ids that stand for the same type term are equal; the
declaration behind a type has neither a declaration behind it nor arguments; a type is made of
earlier types; making a parameterised type again gives its id and leaves the store as it is; and
every id that is held anywhere is in the table. -/
theorem Reachable.interned (h : store.Reachable) :
    (∀ s t, store.SameTerm s t → s = t) ∧
    (∀ id b, store.type? id = some b →
      (∀ generic, b.erasure = some generic → ∃ decl, store.type? generic = some decl ∧
        decl.erasure = none ∧ decl.typeArguments = []) ∧
      (∀ part ∈ b.parts, part.index < id.index) ∧
      (b.isParameterized = true → ∃ generic, b.erasure = some generic ∧
        store.parameterize generic b.typeArguments = .ok (store, id))) ∧
    ∀ id, store.Holds id → ∃ b, store.type? id = some b := by
  have hs := h.sound
  refine ⟨fun s t => hs.eq_of_sameTerm, ?_, fun id hid => known_iff.1 (hs.known_of_holds hid)⟩
  intro id b hb
  refine ⟨?_, hs.parts_lt id b hb, ?_⟩
  · intro generic hgeneric
    obtain ⟨decl, hdecl, hbare⟩ := hs.erasure_bare id b hb generic hgeneric
    exact ⟨decl, hdecl, hbare, (hs.proper generic decl hdecl).1.1 hbare⟩
  · intro hparameterized
    cases hgeneric : b.erasure with
    | none =>
      have hnil := (hs.proper id b hb).1.1 hgeneric
      simp [TypeBinding.isParameterized, hnil] at hparameterized
    | some generic => exact ⟨generic, rfl, hs.parameterize_self hb hgeneric⟩

end TypeStore

namespace Nodes

open TypeStore

/-- `Iterable<T>`, `Node<E>` and `String`, not yet related to each other. -/
def declared : TypeStore :=
  (((initial.declareInterface "java.lang.Iterable" ["T"]).1.declareClass
    "Node" ["E"]).1.declareClass "java.lang.String" []).1

def nodeOf (arg : TypeId) (qualified simple : String) (interfaces : List TypeId) : TypeBinding :=
  { kind := .classType, qualifiedName := "Node<" ++ qualified ++ ">"
    name := "Node<" ++ simple ++ ">", erasure := some ⟨3⟩, typeArguments := [arg]
    superclass := some object, interfaces }

def iterableOf (arg : TypeId) (qualified simple : String) : TypeBinding :=
  { kind := .interfaceType, qualifiedName := "java.lang.Iterable<" ++ qualified ++ ">"
    name := "Iterable<" ++ simple ++ ">", erasure := some ⟨1⟩, typeArguments := [arg] }

/-- Every `Node<E>` is an `Iterable<Node<E>>`. -/
def related : TypeStore :=
  ((declared.add (nodeOf ⟨4⟩ "E" "E" [])).1.add
    (iterableOf ⟨6⟩ "Node<E>" "Node<E>")).1.addInterface ⟨3⟩ ⟨7⟩

/-- With `Node<String>`, whose interface mentions the type that is being made. -/
def nodes : TypeStore :=
  ((related.add (nodeOf ⟨5⟩ "java.lang.String" "String" [⟨9⟩])).1.add
    (iterableOf ⟨8⟩ "Node<java.lang.String>" "Node<String>")).1

theorem reachable_related : related.Reachable := by
  have hdeclared : declared.Reachable :=
    ((Reachable.initial.declareInterface _ _).declareClass _ _).declareClass _ _
  have hnode : declared.parameterize ⟨3⟩ [⟨4⟩] =
      .ok ((declared.add (nodeOf ⟨4⟩ "E" "E" [])).1, ⟨6⟩) := by rfl
  have hiterable : (declared.add (nodeOf ⟨4⟩ "E" "E" [])).1.parameterize ⟨1⟩ [⟨6⟩] =
      .ok (((declared.add (nodeOf ⟨4⟩ "E" "E" [])).1.add
        (iterableOf ⟨6⟩ "Node<E>" "Node<E>")).1, ⟨7⟩) := by rfl
  have hmade := hdeclared.of_parameterize (by decide) (by decide) hnode
  exact (hmade.of_parameterize (by decide) (by decide) hiterable).addInterface (by decide)
    (by decide)

theorem parameterize_related : related.parameterize ⟨3⟩ [⟨5⟩] = .ok (nodes, ⟨8⟩) := rfl

theorem reachable_nodes : nodes.Reachable :=
  reachable_related.of_parameterize (by decide) (by decide) parameterize_related

/-- `Node<String>` is found again, any type made like its interface is that interface, and the
interface that it holds is in the table. -/
theorem nodes_interned :
    nodes.Reachable ∧ nodes.parameterize ⟨3⟩ [⟨5⟩] = .ok (nodes, ⟨8⟩) ∧
      (∀ id b, nodes.type? id = some b → b.erasure = some ⟨1⟩ → b.typeArguments = [⟨8⟩] →
        id = ⟨9⟩) ∧
      ∃ b, nodes.type? ⟨9⟩ = some b := by
  obtain ⟨hsame, hentries, hheld⟩ := reachable_nodes.interned
  have hnode : nodes.type? ⟨8⟩ = some (nodeOf ⟨5⟩ "java.lang.String" "String" [⟨9⟩]) := rfl
  have hface : nodes.type? ⟨9⟩ = some (iterableOf ⟨8⟩ "Node<java.lang.String>" "Node<String>") :=
    rfl
  obtain ⟨generic, hgeneric, hagain⟩ := (hentries ⟨8⟩ _ hnode).2.2 rfl
  obtain rfl : (⟨3⟩ : TypeId) = generic := Option.some.inj hgeneric
  refine ⟨reachable_nodes, hagain, ?_, hheld ⟨9⟩ (.link hnode (by decide))⟩
  intro id b hb herasure hargs
  apply hsame
  apply SameTerm.parameterized hb hface herasure rfl (by rw [hargs]; rfl)
  intro i x y hx hy
  rw [hargs] at hx
  obtain rfl := Option.some.inj (hx.symm.trans hy)
  exact .refl x

end Nodes
end EnhancedFor
