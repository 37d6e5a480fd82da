import EnhancedFor.Proofs.Syntax.NodePrinting

/-!
Printing of a unit in place. The lines of the head and the types are taken out of the arena, printed
one after the other and put back. Main statement: this gives the unit the text and the spans of its
layout and changes nothing else, and it ends exactly if the trees of the unit are finite and
complete.
-/

namespace EnhancedFor
namespace CompilationUnit

variable {unit : CompilationUnit} {σ α : Type} {d t : Nat}

namespace PrintsIn

/-- A part that the tables know nothing about. -/
theorem updated {place : CellPlace σ} {form : α} {P : Prop} {action : CellM σ α Unit} {l : Layout}
    (h : unit.PrintsIn place form P action l) (hP : P) (hown : ∀ m, place.own m = false)
    (rest : Arena) (spans : Mark → Span) (out : String) :
    Printer.updated action (place.cell form spans) ⟨unit.tables rest spans, out⟩ =
      .ok (place.cell form (l.spansFrom (Text.byteLength out) spans),
        ⟨unit.tables rest (l.spansFrom (Text.byteLength out) spans), out ++ l.toText⟩) := by
  have hstale (f : Mark → Span) : place.stale spans f = f := funext fun m => if_neg (by simp [hown])
  have hrun := (h rest spans spans out _).2 ⟨hP, rfl⟩
  rw [hstale, hstale] at hrun
  exact updated_eq_ok.2 ⟨_, hrun, rfl⟩

section Members

variable {decl : TypeDecl}

theorem member {node : Node} {action : PrintM Unit} {level : Nat} (hd : d ≤ unit.depth)
    (h : unit.Prints (unit.PrintableWithin d node) action (unit.nodeLayout level node)) :
    unit.PrintsIn (.type t) decl (unit.PrintableWithin d node) (liftM action)
      (unit.nodeLayout level node) := by
  refine .lift h fun hp m hm => CellPlace.free_type ?_
  obtain ⟨n, hn, -⟩ := hp.node_of_mem_marks hd hm
  simp [hn]

theorem field (hd : d ≤ unit.depth) (i : Nat) (f : Declaration) :
    unit.PrintsIn (.type t) decl (∀ e ∈ f.inits, unit.PrintableWithin d (.expr e))
      (Printer.printField (Printer.printExprWithin d) i f) (unit.fieldLayout t i f) := by
  have hdecl : unit.PrintsIn (.type t) decl (∀ e ∈ f.inits, unit.PrintableWithin d (.expr e))
      (Printer.printDecl (Printer.printExprWithin d) (.decl i) f)
      (declLayout unit.exprLayout (.field t i) f) :=
    .decl (fun _ => rfl) fun e _ => @member _ _ _ _ _ _ 0 hd (prints_expr hd e)
  have hparts := (indent 1).bind (((hdecl.bind (push ";")).ranged (.field i)).bind (push "\n"))
  exact hparts.of (by simp) fun _ => .nest _ [_, _]

theorem methodBody (hd : d ≤ unit.depth) (body : Option StmtId) :
    unit.PrintsIn (.type t) decl (∀ s ∈ body.toList, unit.PrintableWithin d (.stmt s))
      (Printer.printMethodBody (Printer.printStmtWithin d) body) (unit.bodyLayout body) := by
  cases body with
  | none => exact ((push ")").bind (push ";")).of (by simp) fun _ => .refl _
  | some s =>
    have hbody := @member unit d t decl (.stmt s) _ 1 hd (prints_stmt hd 1 s)
    exact ((push ")").bind ((push " ").bind hbody)).of (by simp) fun _ => .refl _

theorem result (i : Nat) (ref : Option TypeRef) :
    unit.PrintsIn (.type t) decl True (Printer.printResult i ref) (resultLayout t i ref) := by
  cases ref with
  | none => exact push "void"
  | some ref =>
    have hresult : unit.PrintsIn (.type t) decl True (Printer.printTypeRef (.result i) ref)
      (typeRefLayout (.returnType t i) ref) := typeRef (TypeSlot.result i) ref
    exact hresult

theorem method (hd : d ≤ unit.depth) (i : Nat) (m : Method) :
    unit.PrintsIn (.type t) decl (∀ s ∈ m.body.toList, unit.PrintableWithin d (.stmt s))
      (Printer.printMethod (Printer.printStmtWithin d) i m) (unit.methodLayout t i m) := by
  have hparams : unit.PrintsIn (.type t) decl (∀ x ∈ m.params.zipIdx, True)
      (Printer.separated ", " (fun x => Printer.printParam (.param i x.2) x.1) m.params.zipIdx)
      (.join ", " (m.params.zipIdx.map fun x => paramLayout (.method t i x.2) x.1)) :=
    separated ", " fun x _ => param (fun _ => rfl) x.1
  have hinner := (result i m.returnType).bind ((format " " m.name "(").bind
    (hparams.bind (methodBody hd m.body)))
  have hparts := (indent 1).bind ((hinner.ranged (.method i)).bind (push "\n"))
  refine hparts.of (by simp) fun _ => ?_
  exact (Layout.Same.append (.refl _) (.append (.mark (.nest _ [_, _, _])) (.refl _))).trans
    (.nest _ [_, _])

theorem type (hd : d ≤ unit.depth) :
    unit.PrintsIn (.type t) decl (∀ root ∈ decl.roots, unit.PrintableWithin d root)
      (Printer.printType d t) ((if t == 0 then "" else "\n") ++ unit.typeLayout t decl) := by
  have hfield (x : Declaration × Nat) : unit.PrintsIn (.type t) decl _ _ _ := field hd x.2 x.1
  have hmethod (x : Method × Nat) : unit.PrintsIn (.type t) decl _ _ _ := method hd x.2 x.1
  have hfields := forM fun x (_ : x ∈ decl.fields.zipIdx) => hfield x
  have hmethods := forM fun x (_ : x ∈ decl.methods.zipIdx) =>
    (push (if x.2 == 0 && decl.fields.isEmpty then "" else "\n")).bind (hmethod x)
  have hinner := (format "class " decl.name " \x7b\n").bind
    (hfields.bind (hmethods.bind (push "\x7d")))
  have hparts := (push (if t == 0 then "" else "\n")).bind ((hinner.ranged .whole).bind (push "\n"))
  have hroots : (∀ root ∈ decl.roots, unit.PrintableWithin d root) ↔
      (∀ x ∈ decl.fields.zipIdx, ∀ e ∈ x.1.inits, unit.PrintableWithin d (.expr e)) ∧
        ∀ x ∈ decl.methods.zipIdx, ∀ s ∈ x.1.body.toList, unit.PrintableWithin d (.stmt s) := by
    rw [forall_mem_zipIdx decl.fields fun f => ∀ e ∈ f.inits, unit.PrintableWithin d (.expr e),
      forall_mem_zipIdx decl.methods fun m => ∀ s ∈ m.body.toList, unit.PrintableWithin d (.stmt s)]
    simp only [TypeDecl.roots, List.forall_mem_append, List.forall_mem_map, List.mem_flatMap,
      List.mem_filterMap, Option.mem_toList, forall_exists_index, and_imp]
    constructor
    · exact fun h => ⟨fun f hf e he => h.1 e f hf he, fun m hm s hs => h.2 s m hm hs⟩
    · exact fun h => ⟨fun e f hf he => h.1 f hf e he, fun s m hm hs => h.2 m hm s hs⟩
  have hprints := hparts.of (Q := ∀ root ∈ decl.roots, unit.PrintableWithin d root)
    (by simpa using hroots.symm) fun _ =>
      .append (.refl _) (.append (.mark (.nest _ [_, _, _])) (.refl _))
  -- The form that is printed is the one in the copy.
  exact fun rest old spans out r => hprints rest old spans out r

end Members

theorem importLine (i : Nat) (imp : Import) :
    unit.PrintsIn (.line (.importLine i) rfl) imp True Printer.printImport
      (importLayout i imp) := by
  have hinner : unit.PrintsIn (.line (.importLine i) rfl) imp _ _ _ :=
    (push "import ").bind ((push (if imp.isStatic then "static " else "")).bind
      ((push imp.path).bind ((push (if imp.isOnDemand then ".*" else "")).bind (push ";"))))
  have hparts := (hinner.ranged ()).bind (push "\n")
  have hprints := hparts.of (Q := True) (b := importLayout i imp) (by simp) fun _ =>
    .append (.mark (.nest _ [_, _, _, _])) (.refl _)
  exact fun rest old spans out r => hprints rest old spans out r

theorem packageLine (name : String) : unit.PrintsIn (.line .package rfl) name True
    (Printer.ranged () (Printer.push ("package " ++ name ++ ";")))
    (.mark .package ("package " ++ name ++ ";")) :=
  (format "package " name ";").ranged ()

end PrintsIn

/-! Lists of parts. The parts of a list do not share marks, so that each keeps the spans it was
given while the others are printed. -/

section Lists

variable {place : Nat → CellPlace σ} {print : Nat → CellM σ α Unit} {p : α × Nat → Prop}
  {g : α × Nat → Layout}

/-- The cells of a list from a position on. -/
def cellsFrom (place : Nat → CellPlace σ) (k : Nat) (xs : List α) (spans : Mark → Span) :
    List (Ranged σ α) :=
  (xs.zipIdx k).map fun x => (place x.2).cell x.1 spans

theorem cellsFrom_spansFrom {l : Layout} {xs : List α} {k n : Nat} {spans : Mark → Span}
    (h : ∀ m ∈ l.allMarks, ∀ x ∈ xs.zipIdx k, ∀ slot, (place x.2).mark slot ≠ m) :
    cellsFrom place k xs (l.spansFrom n spans) = cellsFrom place k xs spans :=
  List.map_congr_left fun x hx => CellPlace.cell_spansFrom (fun m hm => h m hm x hx) x.1 n

theorem each_eq_ok {xs : List α} {k : Nat} (hown : ∀ i m, (place i).own m = false)
    (hprint : ∀ x ∈ xs.zipIdx k, unit.PrintsIn (place x.2) x.1 (p x) (print x.2) (g x))
    (hfree : ∀ x ∈ xs.zipIdx k, p x → ∀ m ∈ (g x).allMarks, ∀ j ≠ x.2, ∀ slot,
      (place j).mark slot ≠ m)
    {rest : Arena} {spans : Mark → Span} {out : String} {r : List (Ranged σ α) × Printer} :
    Printer.each print k (cellsFrom place k xs spans) ⟨unit.tables rest spans, out⟩ = .ok r ↔
      (∀ x ∈ xs.zipIdx k, p x) ∧ r =
        (cellsFrom place k xs
          ((Layout.concat ((xs.zipIdx k).map g)).spansFrom (Text.byteLength out) spans),
        ⟨unit.tables rest
          ((Layout.concat ((xs.zipIdx k).map g)).spansFrom (Text.byteLength out) spans),
          out ++ (Layout.concat ((xs.zipIdx k).map g)).toText⟩) := by
  induction xs generalizing k spans out r with
  | nil =>
    refine ⟨fun h => ⟨fun x hx => (List.not_mem_nil hx).elim, ?_⟩, ?_⟩
    · rw [← Except.ok.inj h]
      simp [cellsFrom, Layout.concat]
    · rintro ⟨-, rfl⟩
      refine congrArg Except.ok ?_
      simp [cellsFrom, Layout.concat]
  | cons x xs ih =>
    have hx : (x, k) ∈ (x :: xs).zipIdx k := List.mem_cons_self
    have hrest {y : α × Nat} (hy : y ∈ xs.zipIdx (k + 1)) : y ∈ (x :: xs).zipIdx k :=
      List.mem_cons_of_mem _ hy
    have hne {y : α × Nat} (hy : y ∈ xs.zipIdx (k + 1)) : y.2 ≠ k :=
      Nat.ne_of_gt (List.le_snd_of_mem_zipIdx hy)
    have hstale (f : Mark → Span) : (place k).stale spans f = f :=
      funext fun m => if_neg (by simp [hown])
    have hfirst := hprint (x, k) hx rest spans spans out
    simp only [hstale] at hfirst
    -- The later cells have not changed when the first one is done, and the first has not changed at
    -- the end.
    have hlater (hp : p (x, k)) (n : Nat) :=
      @cellsFrom_spansFrom _ _ place (g (x, k)) xs (k + 1) n spans
        fun m hm y hy => hfree (x, k) hx hp m hm y.2 (hne hy)
    have hkept (hp : ∀ y ∈ xs.zipIdx (k + 1), p y) (n : Nat) (spans : Mark → Span) :
        (place k).cell x ((Layout.concat ((xs.zipIdx (k + 1)).map g)).spansFrom n spans) =
          (place k).cell x spans := by
      refine CellPlace.cell_spansFrom (fun m hm slot => ?_) x n
      rw [Layout.allMarks_concat, List.mem_flatMap] at hm
      obtain ⟨l, hl, hm⟩ := hm
      obtain ⟨y, hy, rfl⟩ := List.mem_map.1 hl
      exact hfree y (hrest hy) (hp y hy) m hm k (hne hy).symm slot
    have hih := @ih (k + 1) (fun y hy => hprint y (hrest hy)) (fun y hy => hfree y (hrest hy))
      ((g (x, k)).spansFrom (Text.byteLength out) spans) (out ++ (g (x, k)).toText)
    have hsplit : Layout.concat (((x :: xs).zipIdx k).map g) =
        g (x, k) ++ Layout.concat ((xs.zipIdx (k + 1)).map g) := rfl
    rw [hsplit, Layout.spansFrom_append, Layout.toText_append, ← String.append_assoc,
      ← byteLength_append_toText]
    constructor
    · intro h
      obtain ⟨y, hy, h⟩ := bind_eq_ok.1 h
      obtain ⟨z, hz, rfl⟩ := updated_eq_ok.1 hy
      obtain ⟨hp, rfl⟩ := (hfirst z).1 hz
      obtain ⟨w, hw, h⟩ := bind_eq_ok.1 h
      rw [hlater hp] at hih
      obtain ⟨hps, rfl⟩ := hih.1 hw
      refine ⟨List.forall_mem_cons.2 ⟨hp, hps⟩, (Except.ok.inj h).symm.trans ?_⟩
      exact congrArg (fun c => (c :: _, _)) (hkept hps _ _).symm
    · rintro ⟨hps, rfl⟩
      obtain ⟨hp, hps⟩ := List.forall_mem_cons.1 hps
      refine bind_eq_ok.2 ⟨_, updated_eq_ok.2 ⟨_, (hfirst _).2 ⟨hp, rfl⟩, rfl⟩, ?_⟩
      rw [hlater hp] at hih
      refine bind_eq_ok.2 ⟨_, hih.2 ⟨hps, rfl⟩, ?_⟩
      exact congrArg (fun c => Except.ok (c :: _, _)) (hkept hps _ _).symm

end Lists

/-! The parts of the arena see different marks. -/

theorem place_of_mem_typeLayout {decl : TypeDecl} {m : Mark}
    (hg : ∀ root ∈ decl.roots, unit.Grounded root) (hm : m ∈ (unit.typeLayout t decl).allMarks) :
    m.type? = some t ∨ ∃ n, m.node? = some n := by
  rcases List.mem_append.1 ((marks_typeLayout hg t).subset hm) with hm | hm
  · exact .inl (TypeDecl.place_of_mem_marks hm).2
  · obtain ⟨n, -, hm⟩ := List.mem_flatMap.1 hm
    exact .inr ⟨n, node_of_mem_ownMarks hm⟩

theorem place_of_mem_typesLayout {m : Mark} (hg : ∀ root ∈ unit.roots, unit.Grounded root)
    (hm : m ∈ unit.typesLayout.allMarks) : (∃ t, m.type? = some t) ∨ ∃ n, m.node? = some n := by
  rcases List.mem_append.1 ((marks_typesLayout hg).subset hm) with hm | hm
  · obtain ⟨x, -, hm⟩ := List.mem_flatMap.1 hm
    exact .inl ⟨x.2, (TypeDecl.place_of_mem_marks hm).2⟩
  · obtain ⟨n, -, hm⟩ := List.mem_flatMap.1 hm
    exact .inr ⟨n, node_of_mem_ownMarks hm⟩

section Frames

variable {l : Layout} {n : Nat} {spans : Mark → Span}

theorem packageCell_spansFrom (h : .package ∉ l.allMarks) :
    unit.packageCell (l.spansFrom n spans) = unit.packageCell spans := by
  rw [packageCell, packageCell, Layout.spansFrom_of_not_mem h]

theorem importCells_eq (spans : Mark → Span) : unit.importCells spans =
    cellsFrom (fun i => .line (.importLine i) rfl) 0 unit.imports spans := rfl

theorem importCells_spansFrom (h : ∀ i, .importLine i ∉ l.allMarks) :
    unit.importCells (l.spansFrom n spans) = unit.importCells spans := by
  rw [importCells_eq, importCells_eq]
  refine cellsFrom_spansFrom fun m hm x _ slot heq => ?_
  obtain rfl : Mark.importLine x.2 = m := heq
  exact h x.2 hm

theorem typeCells_eq (spans : Mark → Span) :
    unit.typeCells spans = cellsFrom .type 0 unit.types spans := rfl

theorem typeCells_spansFrom (h : ∀ m ∈ l.allMarks, m.type? = none) :
    unit.typeCells (l.spansFrom n spans) = unit.typeCells spans := by
  rw [typeCells_eq, typeCells_eq]
  refine cellsFrom_spansFrom fun m hm x _ slot heq => ?_
  subst heq
  cases (slot.type?_mark x.2).symm.trans (h _ hm)

end Frames

section Head

variable (spans : Mark → Span) (out : String)

theorem printPackageLine_eq {name : String} (hname : unit.package = some name) :
    Printer.printPackageLine ((CellPlace.line .package rfl).cell name spans)
        ⟨unit.arenaWith spans, out⟩ =
      .ok ((), ⟨unit.arenaWith ((packageLayout unit.package).spansFrom (Text.byteLength out) spans),
        out ++ (packageLayout unit.package).toText⟩) := by
  let line := CellPlace.line .package rfl
  let l : Layout := .mark .package ("package " ++ name ++ ";")
  have hline : unit.PrintsIn line name True _ l := .packageLine name
  have hupdated := hline.updated trivial (fun _ => rfl)
    { unit.arenaWith spans with package := none } spans out
  have hsteps : Printer.printPackageLine (line.cell name spans) ⟨unit.arenaWith spans, out⟩ =
      (Printer.updated (Printer.ranged () (Printer.push ("package " ++ name ++ ";")))
        (line.cell name spans) ⟨{ unit.arenaWith spans with package := none }, out⟩ >>= fun y =>
          (do
            Printer.push "\n\n"
            Printer.amend fun arena => { arena with package := some y.1 }) y.2) :=
    rfl
  have hlayout : packageLayout unit.package = l ++ .text "\n\n" := by
    rw [hname]
    rfl
  have hmarks (m : Mark) (hm : m ∈ l.allMarks) : m = .package := by
    simpa [l] using hm
  have himports : unit.importCells (l.spansFrom (Text.byteLength out) spans) =
      unit.importCells spans := importCells_spansFrom fun i hi => by cases hmarks _ hi
  have htypes : unit.typeCells (l.spansFrom (Text.byteLength out) spans) = unit.typeCells spans :=
    typeCells_spansFrom fun m hm => by rw [hmarks m hm]; rfl
  have hpackage (f : Mark → Span) : unit.packageCell f = some (line.cell name f) := by
    rw [packageCell, hname]
    rfl
  rw [hlayout, Layout.spansFrom_append, Layout.spansFrom_text, arenaWith_eq (l.spansFrom _ spans),
    himports, htypes, hpackage, Layout.toText_append, Layout.toText_text, ← String.append_assoc]
  exact hsteps.trans (bind_eq_ok.2 ⟨_, hupdated, rfl⟩)

theorem printPackage_eq : Printer.printPackage ⟨unit.arenaWith spans, out⟩ =
    .ok ((), ⟨unit.arenaWith ((packageLayout unit.package).spansFrom (Text.byteLength out) spans),
      out ++ (packageLayout unit.package).toText⟩) := by
  have hcell : (unit.arenaWith spans).package =
    unit.package.map fun name => (CellPlace.line .package rfl).cell name spans := rfl
  cases hname : unit.package with
  | none =>
    rw [hname] at hcell
    refine (get_bind_eq _ _).trans ?_
    dsimp only
    rw [hcell]
    refine congrArg Except.ok ?_
    simp [packageLayout]
  | some name =>
    rw [hname] at hcell
    rw [← hname, ← printPackageLine_eq spans out hname]
    refine (get_bind_eq _ _).trans ?_
    dsimp only
    rw [hcell]
    rfl

/-- The import lines, without the empty line after them. -/
def importsLayout (unit : CompilationUnit) : Layout :=
  .concat (unit.imports.zipIdx.map fun x => importLayout x.2 x.1)

theorem allMarks_importsLayout {m : Mark} (h : m ∈ unit.importsLayout.allMarks) :
    ∃ i, m = .importLine i := by
  rw [importsLayout, Layout.allMarks_concat, List.mem_flatMap] at h
  obtain ⟨l, hl, hm⟩ := h
  obtain ⟨x, -, rfl⟩ := List.mem_map.1 hl
  exact ⟨x.2, List.mem_singleton.1 hm⟩

theorem printImports_eq : Printer.printImports ⟨unit.arenaWith spans, out⟩ =
    .ok ((), ⟨unit.arenaWith (unit.importsLayout.spansFrom (Text.byteLength out) spans),
      out ++ unit.importsLayout.toText ++ if unit.imports.isEmpty then "" else "\n"⟩) := by
  let line (i : Nat) := CellPlace.line (.importLine i) rfl
  let after := unit.importsLayout.spansFrom (Text.byteLength out) spans
  have hcells : Printer.each (fun _ => Printer.printImport) 0 (cellsFrom line 0 unit.imports spans)
      ⟨unit.tables { unit.arenaWith spans with imports := [] } spans, out⟩ =
        .ok (cellsFrom line 0 unit.imports after,
          ⟨unit.tables { unit.arenaWith spans with imports := [] } after,
            out ++ unit.importsLayout.toText⟩) := by
    refine (each_eq_ok (fun _ _ => rfl) (fun x _ => .importLine x.2 x.1) ?_).2
      ⟨fun _ _ => trivial, rfl⟩
    intro x _ _ m hm j hj slot heq
    obtain rfl := List.mem_singleton.1 hm
    exact hj (Mark.importLine.inj heq)
  have hsteps : Printer.printImports ⟨unit.arenaWith spans, out⟩ =
      (Printer.each (fun _ => Printer.printImport) 0 (unit.importCells spans)
        ⟨{ unit.arenaWith spans with imports := [] }, out⟩ >>= fun y => (do
          Printer.push (if y.1.isEmpty then "" else "\n")
          Printer.amend fun arena => { arena with imports := y.1 }) y.2) := rfl
  have hempty : (cellsFrom line 0 unit.imports after).isEmpty = unit.imports.isEmpty := by
    rw [cellsFrom, List.isEmpty_map]
    cases unit.imports <;> rfl
  have hpackage : unit.packageCell after = unit.packageCell spans :=
    packageCell_spansFrom fun hm => by cases allMarks_importsLayout hm; contradiction
  have htypes : unit.typeCells after = unit.typeCells spans := typeCells_spansFrom fun m hm => by
    obtain ⟨i, rfl⟩ := allMarks_importsLayout hm
    rfl
  rw [arenaWith_eq after, hpackage, htypes, ← hempty]
  exact hsteps.trans (bind_eq_ok.2 ⟨_, hcells, rfl⟩)

theorem printTypes_eq_ok {r : Unit × Printer} :
    Printer.printTypes ⟨unit.arenaWith spans, out⟩ = .ok r ↔
      (∀ root ∈ unit.roots, unit.Grounded root) ∧
        r = ((), ⟨unit.arenaWith (unit.typesLayout.spansFrom (Text.byteLength out) spans),
          out ++ unit.typesLayout.toText⟩) := by
  let after := unit.typesLayout.spansFrom (Text.byteLength out) spans
  have hdepth : (unit.arenaWith spans).depth = unit.depth := by
    simp [Arena.depth, arenaWith_eq, exprCells, stmtCells, depth, size]
  have hroots :
      (∀ x ∈ unit.types.zipIdx, ∀ root ∈ x.1.roots, unit.PrintableWithin unit.depth root) ↔
        ∀ root ∈ unit.roots, unit.Grounded root := by
    rw [forall_mem_zipIdx unit.types fun decl => ∀ root ∈ decl.roots,
      unit.PrintableWithin unit.depth root, ← List.forall_mem_flatMap]
    exact ⟨fun h root hr => grounded_iff.2 (h root (mem_textRoots.2 hr)),
      fun h root hr => grounded_iff.1 (h root (mem_textRoots.1 hr))⟩
  have hcells (r : List (Ranged TypeSlot TypeDecl) × Printer) :
      Printer.each (Printer.printType unit.depth) 0 (cellsFrom .type 0 unit.types spans)
        ⟨unit.tables { unit.arenaWith spans with types := [] } spans, out⟩ = .ok r ↔
      (∀ x ∈ unit.types.zipIdx, ∀ root ∈ x.1.roots, unit.PrintableWithin unit.depth root) ∧
        r = (cellsFrom .type 0 unit.types after,
          ⟨unit.tables { unit.arenaWith spans with types := [] } after,
            out ++ unit.typesLayout.toText⟩) := by
    refine each_eq_ok (fun _ _ => rfl) (fun x _ => .type (Nat.le_refl _)) ?_
    rintro x - hp m hm j hj slot rfl
    rcases place_of_mem_typeLayout (fun root hr => grounded_iff.2 (hp root hr)) hm with h | ⟨n, h⟩
    · exact hj (Option.some.inj ((slot.type?_mark j).symm.trans h))
    · cases (slot.node?_mark j).symm.trans h
  have hsteps : Printer.printTypes ⟨unit.arenaWith spans, out⟩ =
      (Printer.each (Printer.printType (unit.arenaWith spans).depth) 0 (unit.typeCells spans)
        ⟨{ unit.arenaWith spans with types := [] }, out⟩ >>= fun y =>
          Printer.amend (fun arena => { arena with types := y.1 }) y.2) := rfl
  have hhead (hg : ∀ root ∈ unit.roots, unit.Grounded root) : unit.arenaWith after =
      ⟨unit.file, unit.packageCell spans, unit.importCells spans, unit.typeCells after,
        unit.exprCells after, unit.stmtCells after, unit.text⟩ := by
    have hplace (m : Mark) (hm : m ∈ unit.typesLayout.allMarks) :
        m.type? ≠ none ∨ m.node? ≠ none := by
      rcases place_of_mem_typesLayout hg hm with ⟨t, h⟩ | ⟨n, h⟩ <;> simp [h]
    have hpackage : unit.packageCell after = unit.packageCell spans :=
      packageCell_spansFrom fun hm => by simpa [Mark.type?, Mark.node?] using hplace _ hm
    have himports : unit.importCells after = unit.importCells spans :=
      importCells_spansFrom fun i hm => by simpa [Mark.type?, Mark.node?] using hplace _ hm
    rw [arenaWith_eq, hpackage, himports]
  rw [hsteps, hdepth, bind_eq_ok]
  constructor
  · rintro ⟨y, hy, hr⟩
    obtain ⟨hp, rfl⟩ := (hcells y).1 hy
    refine ⟨hroots.1 hp, (Except.ok.inj hr).symm.trans ?_⟩
    rw [hhead (hroots.1 hp)]
    rfl
  · rintro ⟨hg, rfl⟩
    refine ⟨_, (hcells _).2 ⟨hroots.2 hg, rfl⟩, ?_⟩
    rw [hhead hg]
    rfl

end Head

theorem printUnit_eq_ok {r : Unit × Printer} : Printer.printUnit ⟨unit.arena, ""⟩ = .ok r ↔
    (∀ root ∈ unit.roots, unit.Grounded root) ∧
      r = ((), ⟨unit.arenaWith (unit.layout.spansFrom 0 unit.spans), unit.layout.toText⟩) := by
  have hsteps : Printer.printUnit ⟨unit.arena, ""⟩ =
      (Printer.printPackage ⟨unit.arenaWith unit.spans, ""⟩ >>= fun x =>
        Printer.printImports x.2 >>= fun y => Printer.printTypes y.2) := rfl
  have hheader : unit.headerLayout = packageLayout unit.package ++ unit.importsLayout ++
      .text (if unit.imports.isEmpty then "" else "\n") := rfl
  have hspans : unit.importsLayout.spansFrom
      (Text.byteLength ("" ++ (packageLayout unit.package).toText))
        ((packageLayout unit.package).spansFrom (Text.byteLength "") unit.spans) =
      unit.headerLayout.spansFrom 0 unit.spans := by
    rw [hheader, Layout.spansFrom_append, Layout.spansFrom_append, Layout.spansFrom_text,
      byteLength_append_toText]
    rfl
  have htext : "" ++ (packageLayout unit.package).toText ++ unit.importsLayout.toText ++
      (if unit.imports.isEmpty then "" else "\n") = unit.headerLayout.toText := by
    rw [hheader, Layout.toText_append, Layout.toText_append, Layout.toText_text,
      String.empty_append]
  have hlength : Text.byteLength unit.headerLayout.toText =
      0 + unit.headerLayout.chars.byteLength := by
    rw [Text.byteLength, Layout.toList_toText, Nat.zero_add]
  have hhead : Printer.printUnit ⟨unit.arena, ""⟩ = Printer.printTypes
      ⟨unit.arenaWith (unit.headerLayout.spansFrom 0 unit.spans), unit.headerLayout.toText⟩ := by
    simp only [hsteps, printPackage_eq, bind, Except.bind, printImports_eq, hspans, htext]
  rw [hhead, printTypes_eq_ok, hlength, layout, Layout.spansFrom_append, Layout.toText_append]

theorem print_eq_retexted :
    unit.print = unit.retexted unit.layout.toText (unit.layout.spansFrom 0 unit.spans) := by
  show unit.retexted _ (fun m => (unit.layout.marks.lookup m).getD (unit.spans m)) = _
  rw [Layout.marks_eq]
  rfl

/-- Printing in place is a print: it gives the unit the text and the spans of its layout, and it
ends exactly if the trees of the unit are finite and complete. -/
theorem arena_print_eq_ok {arena : Arena} : unit.arena.print = .ok arena ↔
    (∀ root ∈ unit.roots, unit.Grounded root) ∧ arena = unit.print.arena := by
  have hsteps : unit.arena.print = (Printer.printUnit ⟨unit.arena, ""⟩ >>= fun x =>
      .ok { x.2.arena with text := x.2.out }) := rfl
  rw [hsteps, bind_eq_ok, print_eq_retexted]
  constructor
  · rintro ⟨r, hr, harena⟩
    obtain ⟨hg, rfl⟩ := printUnit_eq_ok.1 hr
    exact ⟨hg, (Except.ok.inj harena).symm⟩
  · rintro ⟨hg, rfl⟩
    exact ⟨_, printUnit_eq_ok.2 ⟨hg, rfl⟩, rfl⟩

theorem reprint_eq_ok {printed : CompilationUnit} : unit.reprint = .ok printed ↔
    (∀ root ∈ unit.roots, unit.Grounded root) ∧ printed = unit.print := by
  have hunit (hg : ∀ root ∈ unit.roots, unit.Grounded root) :
      unit.print.arena.toUnit unit.spans = unit.print := by
    rw [print_eq_retexted]
    refine toUnit_arenaWith ?_ _ fun m hm => Layout.spansFrom_of_not_mem ?_
    · rintro node ⟨root, hr, hb⟩
      exact (hg root hr).present node hb
    · exact mt (mem_allMarks_layout hg).1 hm
  have hsteps : unit.reprint = (unit.arena.print >>= fun arena => .ok (arena.toUnit unit.spans)) :=
    rfl
  rw [hsteps, bind_eq_ok]
  constructor
  · rintro ⟨arena, harena, h⟩
    obtain ⟨hg, rfl⟩ := arena_print_eq_ok.1 harena
    exact ⟨hg, (Except.ok.inj h).symm.trans (hunit hg)⟩
  · rintro ⟨hg, rfl⟩
    exact ⟨_, arena_print_eq_ok.2 ⟨hg, rfl⟩, congrArg Except.ok (hunit hg)⟩

theorem reprint_of_grounded (hg : ∀ root ∈ unit.roots, unit.Grounded root) :
    unit.reprint = .ok unit.print := reprint_eq_ok.2 ⟨hg, rfl⟩

theorem singleUse_print_iff : unit.print.SingleUse ↔ unit.SingleUse := .rfl

theorem text_print : unit.print.text = String.ofList unit.layout.chars := by
  rw [← Layout.toList_toText, String.ofList_toList]
  rfl

/-- A unit that was printed: nothing but a print gives it its text and spans. -/
theorem eq_print_of_reprint {draft : CompilationUnit} (h : draft.reprint = .ok unit) :
    draft.complete = .ok draft ∧ unit = draft.print := by
  obtain ⟨hg, rfl⟩ := reprint_eq_ok.1 h
  exact ⟨complete_of_grounded hg, rfl⟩

theorem Backward.grounded_root (h : unit.Backward) (hc : unit.Complete) {root : Node}
    (hr : root ∈ unit.roots) : unit.Grounded root := h.grounded (hc root ⟨root, hr, .refl⟩)

theorem SingleUse.reprint_eq (hu : unit.SingleUse) (hc : unit.Complete) :
    unit.reprint = .ok unit.print :=
  reprint_of_grounded fun root hr => hu.grounded hc ⟨root, hr, .refl⟩

theorem Backward.reprint_eq (h : unit.Backward) (hc : unit.Complete) :
    unit.reprint = .ok unit.print := reprint_of_grounded fun _ => h.grounded_root hc

/-- In a unit that was printed every mark has the span that the layout gives it. -/
theorem standsAt_of_reprint {draft : CompilationUnit} (hprint : draft.reprint = .ok unit)
    (hu : unit.SingleUse) : unit.StandsAt (fun _ => true) 0 unit.layout := by
  obtain ⟨hd, rfl⟩ := eq_print_of_reprint hprint
  have hdraft : draft.SingleUse := hu
  rw [layout_print]
  exact standsAt_print (hdraft.nodup_marks (hdraft.complete_iff.1 hd))

theorem toList_text_of_reprint {draft : CompilationUnit} (h : draft.reprint = .ok unit) :
    unit.text.toList = unit.layout.chars := by
  obtain ⟨-, rfl⟩ := eq_print_of_reprint h
  rw [layout_print]
  exact draft.layout.toList_toText

theorem shows_of_reprint {draft : CompilationUnit} (h : draft.reprint = .ok unit)
    (hu : unit.SingleUse) :
    unit.Complete ∧ unit.text.toList = unit.layout.chars ∧ unit.Shows [] unit.layout := by
  have hspans : unit.StandsAt Mark.isKey 0 unit.layout := fun m s hm _ =>
    standsAt_of_reprint h hu m s hm rfl
  have htext := toList_text_of_reprint h
  obtain ⟨hd, rfl⟩ := eq_print_of_reprint h
  have hdraft : draft.SingleUse := hu
  exact ⟨hdraft.complete_iff.1 hd, htext, ⟨⟨[], by simp [htext]⟩, hspans⟩⟩

end CompilationUnit
end EnhancedFor
