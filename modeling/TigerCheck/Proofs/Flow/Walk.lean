import TigerCheck.Proofs.Annotations
import TigerCheck.Proofs.Flow.Rule
import TigerCheck.Proofs.Tree.Cells
import TigerCheck.Proofs.Walk.Run

/-!
# Where types flow in a walk

The walk over a tree puts every type in a place where it may be: in the tables, and in the cells of the tree.

* `Note.Shown`, `Exp.Proper`, `Var.Proper`: the cells of a tree hold the types of expressions, and names are
  bound to slots that can be seen.
* `ExpUpholds`, `VarUpholds`: the check of a tree leaves a proper state behind, and proper cells.
* **`upholds_exp`**: so does every check.
-/

namespace TigerCheck

open Check

/-! ## Cells -/

/-- What the cells of a tree held at first. -/
structure Given where
  tys : Ty → Prop
  bindings : VarId → Prop

/-- If a note tells what a name is bound to, that was given or can be seen. -/
def Note.Shown (g : Given) (t : FrameTable) : Note → Prop
  | .simple _ binding => ∀ v ∈ binding, g.bindings v ∨ t.Shows v
  | .field .. | .element .. | .call .. => True

/-- What is in some type cells was given or may be there, and so it is with what is noted. -/
structure CellsProper (g : Given) (c : Checker) (tys : List (Option Ty)) (ns : List Note) : Prop where
  tys : ∀ ty ∈ tys, ∀ u ∈ ty, g.tys u ∨ c.types.Types u
  notes : ∀ n ∈ ns, n.Shown g c.frames

/-- The cells of an expression hold what they may. -/
abbrev Exp.Proper (e : Exp) (g : Given) (c : Checker) : Prop := CellsProper g c e.tys e.notes

/-- The cells of a variable hold what they may. -/
abbrev Var.Proper (v : Var) (g : Given) (c : Checker) : Prop := CellsProper g c v.tys v.notes

/-- The cells in a declaration hold what they may. -/
abbrev Dec.Proper (d : Dec) (g : Given) (c : Checker) : Prop := CellsProper g c d.tys d.notes

namespace CellsProper

variable {g : Given} {c c' : Checker} {ty : Option Ty} {n : Note} {tys tys' : List (Option Ty)}
  {ns ns' : List Note}

theorem nil (g : Given) (c : Checker) : CellsProper g c [] [] := ⟨List.forall_mem_nil _, List.forall_mem_nil _⟩

theorem node (hty : Typed ty c) (h : CellsProper g c tys ns) : CellsProper g c (ty :: tys) ns :=
  ⟨List.forall_mem_cons.mpr ⟨fun u hu => Or.inr (hty u hu), h.tys⟩, h.notes⟩

theorem note (hn : n.Shown g c.frames) (h : CellsProper g c tys ns) : CellsProper g c tys (n :: ns) :=
  ⟨h.tys, List.forall_mem_cons.mpr ⟨hn, h.notes⟩⟩

theorem append (h : CellsProper g c tys ns) (h' : CellsProper g c tys' ns') :
    CellsProper g c (tys ++ tys') (ns ++ ns') :=
  ⟨List.forall_mem_append.mpr ⟨h.tys, h'.tys⟩, List.forall_mem_append.mpr ⟨h.notes, h'.notes⟩⟩

theorem parts (h : CellsProper g c (ty :: tys) ns) : CellsProper g c tys ns :=
  ⟨(List.forall_mem_cons.mp h.tys).2, h.notes⟩

theorem noted (h : CellsProper g c tys (n :: ns)) : CellsProper g c tys ns :=
  ⟨h.tys, (List.forall_mem_cons.mp h.notes).2⟩

theorem left (h : CellsProper g c (tys ++ tys') (ns ++ ns')) : CellsProper g c tys ns :=
  ⟨(List.forall_mem_append.mp h.tys).1, (List.forall_mem_append.mp h.notes).1⟩

theorem right (h : CellsProper g c (tys ++ tys') (ns ++ ns')) : CellsProper g c tys' ns' :=
  ⟨(List.forall_mem_append.mp h.tys).2, (List.forall_mem_append.mp h.notes).2⟩

theorem widen (hw : c.Widens c') (h : CellsProper g c tys ns) : CellsProper g c' tys ns where
  tys ty hty u hu := (h.tys ty hty u hu).imp_right hw.types
  notes n hn := by
    cases n with
    | simple ty binding => exact fun v hv => (h.notes _ hn v hv).imp_right hw.shows
    | field | element | call => trivial

end CellsProper

/-! ## Checks -/

/-- The check of an expression leaves a proper state behind, a type that an expression may have, and proper
cells if they were so before. -/
def ExpUpholds (e : Exp) : Prop := ∀ (ctx : Context) {c : Checker}, c.Proper →
  Upholds (checkExp ctx e) c fun e' c' => Typed e'.ty c' ∧ (∀ g, e.Proper g c → e'.Proper g c')

/-- The check of a variable leaves a proper state behind, a type that an expression may have, and proper
cells if they were so before. -/
def VarUpholds (v : Var) : Prop := ∀ (ctx : Context) {c : Checker}, c.Proper →
  Upholds (checkVar ctx v) c fun v' c' => Typed v'.ty c' ∧ (∀ g, v.Proper g c → v'.Proper g c')

section

variable {m : Mark} {ctx : Context} {c : Checker}

/-! ### Lists -/

theorem typed_lastTy {es : List Exp} (h : ∀ e ∈ es, Typed e.ty c) : Typed (lastTy es) c := by
  unfold lastTy
  split
  · next e he => exact h e (List.mem_of_getLast? he)
  · exact typed_some Arena.types_void

theorem upholds_checkEach {es : List Exp} (h : ∀ e ∈ es, ExpUpholds e) : ∀ (params : List Ty) {c : Checker},
    c.Proper → Upholds (checkEach ctx params es) c fun r c' => (∀ e ∈ r.1, Typed e.ty c') ∧
      (∀ g, CellsProper g c (tysAll es) (notesAll es) → CellsProper g c' (tysAll r.1) (notesAll r.1)) := by
  induction es with
  | nil =>
    intro params c hc
    rw [checkEach]
    exact .pure hc ⟨List.forall_mem_nil _, fun _ => id⟩
  | cons e es ih =>
    intro params c hc
    obtain ⟨he, hes⟩ := List.forall_mem_cons.mp h
    rw [checkEach]
    refine (he ctx hc).bind fun e' c₁ hc₁ hw₁ he' => ?_
    refine (upholds_arg hc₁ _ _).bind fun ok c₂ hc₂ hw₂ _ => ?_
    refine (ih hes _ hc₂).bind fun r c₃ hc₃ hw₃ hr => .pure hc₃ ⟨?_, fun g hcells => ?_⟩
    · exact List.forall_mem_cons.mpr ⟨he'.1.widen (hw₂.trans hw₃), hr.1⟩
    · exact ((he'.2 g hcells.left).widen (hw₂.trans hw₃)).append (hr.2 g (hcells.right.widen (hw₁.trans hw₂)))

theorem upholds_checkInits {loc : Location} {typeName : String} {inits : List (Ident × Exp)}
    (h : ∀ i ∈ inits, ExpUpholds i.2) : ∀ (fields : Option (List Field)) {c : Checker}, c.Proper →
      Upholds (checkInits ctx loc typeName fields inits) c fun r c' =>
        ∀ g, CellsProper g c (tysInits inits) (notesInits inits) →
          CellsProper g c' (tysInits r.1) (notesInits r.1) := by
  induction inits with
  | nil =>
    intro fields c hc
    rw [checkInits]
    exact .pure hc fun _ => id
  | cons i inits ih =>
    intro fields c hc
    obtain ⟨hi, his⟩ := List.forall_mem_cons.mp h
    obtain ⟨name, e⟩ := i
    rw [checkInits]
    refine (upholds_place hc _ _ _).bind fun fields c₁ hc₁ hw₁ _ => ?_
    refine (hi ctx hc₁).bind fun e' c₂ hc₂ hw₂ he' => ?_
    refine (upholds_init hc₂ _ _).bind fun ok c₃ hc₃ hw₃ _ => ?_
    refine (ih his _ hc₃).bind fun r c₄ hc₄ hw₄ hr => .pure hc₄ fun g hcells => ?_
    have hcells₁ := hcells.widen hw₁
    exact ((he'.2 g hcells₁.left).widen (hw₃.trans hw₄)).append (hr g (hcells₁.right.widen (hw₂.trans hw₃)))

/-! ### Expressions -/

theorem ExpUpholds.var {v : Var} (hv : VarUpholds v) : ExpUpholds (.var m v) := by
  intro ctx c hc
  rw [checkExp]
  exact (hv ctx hc).bind fun v' c₁ hc₁ _ hv' =>
    .pure hc₁ ⟨hv'.1, fun g hcells => (hv'.2 g hcells.parts).node hv'.1⟩

theorem ExpUpholds.call {callee : Ident} {args : List Exp} {function : Option FunctionId}
    (h : ∀ e ∈ args, ExpUpholds e) : ExpUpholds (.call m callee args function) := by
  intro ctx c hc
  rw [checkExp]
  refine (upholds_target hc _).bind fun target c₁ hc₁ hw₁ htarget => ?_
  refine (upholds_checkEach h _ hc₁).bind fun r c₂ hc₂ hw₂ hr => ?_
  have htarget₂ := fun t ht s hs => hw₂.gives (htarget t ht s hs)
  refine (upholds_call hc₂ callee htarget₂ _ _).bind fun ty c₃ hc₃ hw₃ hty => .pure hc₃ ⟨hty, fun g hcells => ?_⟩
  exact (((hr.2 g (hcells.parts.noted.widen hw₁)).widen hw₃).note (n := .call ..) trivial).node hty

theorem ExpUpholds.binary {op : BinOp} {left right : Exp} (hl : ExpUpholds left) (hr : ExpUpholds right) :
    ExpUpholds (.binary m op left right) := by
  intro ctx c hc
  rw [checkExp]
  refine (hl ctx hc).bind fun l c₁ hc₁ hw₁ hl' => (hr ctx hc₁).bind fun r c₂ hc₂ hw₂ hr' => ?_
  refine (upholds_binary hc₂ _ _ _).bind fun ty c₃ hc₃ hw₃ hty => .pure hc₃ ⟨hty, fun g hcells => ?_⟩
  have hl₂ := (hl'.2 g hcells.parts.left).widen hw₂
  exact ((hl₂.append (hr'.2 g (hcells.parts.right.widen hw₁))).widen hw₃).node hty

theorem ExpUpholds.record {typeName : Ident} {inits : List (Ident × Exp)} (h : ∀ i ∈ inits, ExpUpholds i.2) :
    ExpUpholds (.record m typeName inits) := by
  intro ctx c hc
  rw [checkExp]
  refine (upholds_typeOf hc typeName).bind fun ty c₁ hc₁ hw₁ hty => ?_
  refine (upholds_recordFields hc₁ _ _ _).bind fun fields c₂ hc₂ hw₂ _ => ?_
  refine (upholds_checkInits h _ hc₂).bind fun r c₃ hc₃ hw₃ hr => ?_
  have hty₃ : Typed (if r.2 then ty else none) c₃ := by
    split
    · exact (hty.typed.widen hw₂).widen hw₃
    · exact typed_none c₃
  exact .pure hc₃ ⟨hty₃, fun g hcells => (hr g (hcells.parts.widen (hw₁.trans hw₂))).node hty₃⟩

theorem ExpUpholds.seq {items : List Exp} (h : ∀ e ∈ items, ExpUpholds e) : ExpUpholds (.seq m items) := by
  intro ctx c hc
  rw [checkExp]
  refine (upholds_checkEach h _ hc).bind fun r c₁ hc₁ _ hr => ?_
  have hty : Typed (if r.2 then lastTy r.1 else none) c₁ := by
    split
    · exact typed_lastTy hr.1
    · exact typed_none c₁
  exact .pure hc₁ ⟨hty, fun g hcells => (hr.2 g hcells.parts).node hty⟩

theorem ExpUpholds.assign {target : Var} {value : Exp} (ht : VarUpholds target) (hv : ExpUpholds value) :
    ExpUpholds (.assign m target value) := by
  intro ctx c hc
  rw [checkExp]
  refine (ht ctx hc).bind fun t c₁ hc₁ hw₁ ht' => (hv ctx hc₁).bind fun v c₂ hc₂ hw₂ hv' => ?_
  refine (upholds_assign hc₂ _ _).bind fun ty c₃ hc₃ hw₃ hty => .pure hc₃ ⟨hty, fun g hcells => ?_⟩
  have ht₂ := (ht'.2 g hcells.parts.left).widen hw₂
  exact ((ht₂.append (hv'.2 g (hcells.parts.right.widen hw₁))).widen hw₃).node hty

theorem ExpUpholds.condNone {test thenPart : Exp} (ht : ExpUpholds test) (hp : ExpUpholds thenPart) :
    ExpUpholds (.cond m test thenPart none) := by
  intro ctx c hc
  rw [checkExp]
  refine (ht ctx hc).bind fun t c₁ hc₁ hw₁ ht' => (hp ctx hc₁).bind fun p c₂ hc₂ hw₂ hp' => ?_
  refine (upholds_cond hc₂ _ hp'.1 (by simp)).bind fun ty c₃ hc₃ hw₃ hty => .pure hc₃ ⟨hty, fun g hcells => ?_⟩
  have ht₂ := (ht'.2 g hcells.parts.left).widen hw₂
  exact ((ht₂.append (hp'.2 g (hcells.parts.right.widen hw₁))).widen hw₃).node hty

theorem ExpUpholds.condSome {test thenPart elsePart : Exp} (ht : ExpUpholds test) (hp : ExpUpholds thenPart)
    (he : ExpUpholds elsePart) : ExpUpholds (.cond m test thenPart (some elsePart)) := by
  intro ctx c hc
  rw [checkExp]
  refine (ht ctx hc).bind fun t c₁ hc₁ hw₁ ht' => (hp ctx hc₁).bind fun p c₂ hc₂ hw₂ hp' => ?_
  refine (he ctx hc₂).bind fun e c₃ hc₃ hw₃ he' => ?_
  have helse : ∀ x ∈ some e.mark, Typed x.ty c₃ := by
    rintro _ ⟨⟩
    exact he'.1
  refine (upholds_cond hc₃ _ (hp'.1.widen hw₃) helse).bind fun ty c₄ hc₄ hw₄ hty =>
    .pure hc₄ ⟨hty, fun g hcells => ?_⟩
  have ht₂ := (ht'.2 g hcells.parts.left.left).widen hw₂
  have hp₃ := (ht₂.append (hp'.2 g (hcells.parts.left.right.widen hw₁))).widen hw₃
  exact ((hp₃.append (he'.2 g (hcells.parts.right.widen (hw₁.trans hw₂)))).widen hw₄).node hty

theorem ExpUpholds.whileLoop {test body : Exp} (ht : ExpUpholds test) (hb : ExpUpholds body) :
    ExpUpholds (.whileLoop m test body) := by
  intro ctx c hc
  rw [checkExp]
  refine (ht ctx hc).bind fun t c₁ hc₁ hw₁ ht' => (hb _ hc₁).bind fun b c₂ hc₂ hw₂ hb' => ?_
  refine (upholds_loop hc₂ _ _).bind fun ty c₃ hc₃ hw₃ hty => .pure hc₃ ⟨hty, fun g hcells => ?_⟩
  have ht₂ := (ht'.2 g hcells.parts.left).widen hw₂
  exact ((ht₂.append (hb'.2 g (hcells.parts.right.widen hw₁))).widen hw₃).node hty

theorem ExpUpholds.doWhile {body test : Exp} (hb : ExpUpholds body) (ht : ExpUpholds test) :
    ExpUpholds (.doWhile m body test) := by
  intro ctx c hc
  rw [checkExp]
  refine (hb _ hc).bind fun b c₁ hc₁ hw₁ hb' => (ht ctx hc₁).bind fun t c₂ hc₂ hw₂ ht' => ?_
  refine (upholds_loop hc₂ _ _).bind fun ty c₃ hc₃ hw₃ hty => .pure hc₃ ⟨hty, fun g hcells => ?_⟩
  have hb₂ := (hb'.2 g hcells.parts.left).widen hw₂
  exact ((hb₂.append (ht'.2 g (hcells.parts.right.widen hw₁))).widen hw₃).node hty

/-- The counter of a loop gets a slot that can be seen. -/
theorem upholds_counter (hc : c.Proper) (frame : FrameId) (name : String) {α : Type} {f : VarId → Check α}
    {Q : α → Checker → Prop}
    (h : ∀ v c₁, c₁.Proper → c.Widens c₁ → Upholds (f v) c₁ Q) :
    Upholds (do
      enterValues
      let slot ← alloc frame name (some .int) .loopCounter
      bindValue name slot
      f slot) c Q := by
  refine (upholds_enterValues hc).bind fun _ c₁ hc₁ hw₁ _ => ?_
  refine (upholds_alloc hc₁ name .loopCounter rfl).bind fun v c₂ hc₂ hw₂ hv => ?_
  obtain ⟨s, hs, hk⟩ := hv
  refine (upholds_bindValue hc₂ name ⟨s, hs, by rw [hk]; decide⟩).bind fun _ c₃ hc₃ hw₃ _ => ?_
  exact h v c₃ hc₃ ((hw₁.trans hw₂).trans hw₃)

theorem typed_loop {fit : Bool} {ty : Option Ty} :
    Typed (if fit && ty.isSome then some .void else none) c := by
  split
  · exact typed_some Arena.types_void
  · exact typed_none c

theorem ExpUpholds.forLoop {counter : Ident} {low high body : Exp} {slot : Option VarId}
    (hl : ExpUpholds low) (hh : ExpUpholds high) (hb : ExpUpholds body) :
    ExpUpholds (.forLoop m counter low high body slot) := by
  intro ctx c hc
  rw [checkExp]
  refine (hl ctx hc).bind fun l c₁ hc₁ hw₁ hl' => (hh ctx hc₁).bind fun h c₂ hc₂ hw₂ hh' => ?_
  refine (upholds_bounds hc₂ _ _).bind fun fit c₃ hc₃ hw₃ _ => ?_
  refine upholds_counter hc₃ _ _ fun v c₄ hc₄ hw₄ => (hb _ hc₄).bind fun b c₅ hc₅ hw₅ hb' => ?_
  refine (upholds_exitValues hc₅).bind fun _ c₆ hc₆ hw₆ _ => .pure hc₆ ⟨typed_loop, fun g hcells => ?_⟩
  have hw₃₄ := hw₃.trans hw₄
  have hh₂ := ((hl'.2 g hcells.parts.left.left).widen hw₂).append (hh'.2 g (hcells.parts.left.right.widen hw₁))
  have hb₅ := hb'.2 g (hcells.parts.right.widen ((hw₁.trans hw₂).trans hw₃₄))
  exact (((hh₂.widen (hw₃₄.trans hw₅)).append hb₅).widen hw₆).node typed_loop

theorem ExpUpholds.breakLoop : ExpUpholds (.breakLoop m) := by
  intro ctx c hc
  rw [checkExp]
  have hpost : ∀ (ty : Option Ty) {c₁ : Checker}, Typed ty c₁ →
      Typed (m.typed ty).ty c₁ ∧ (∀ g, (Exp.breakLoop m).Proper g c → (Exp.breakLoop (m.typed ty)).Proper g c₁) :=
    fun _ c₁ hty => ⟨hty, fun g _ => (CellsProper.nil g c₁).node hty⟩
  refine .ite (fun _ => ?_) fun _ => ?_
  · exact .pure hc (hpost _ (typed_some Arena.types_void))
  · exact (upholds_fault hc _ _).bind fun ty _ hc₁ _ hty => .pure hc₁ (hpost ty hty)

theorem ExpUpholds.array {typeName : Ident} {size init : Exp} (hz : ExpUpholds size) (hi : ExpUpholds init) :
    ExpUpholds (.array m typeName size init) := by
  intro ctx c hc
  rw [checkExp]
  refine (upholds_typeOf hc typeName).bind fun t c₁ hc₁ hw₁ ht => ?_
  refine (hz ctx hc₁).bind fun z c₂ hc₂ hw₂ hz' => (hi ctx hc₂).bind fun i c₃ hc₃ hw₃ hi' => ?_
  refine (upholds_array hc₃ _ (ht.widen (hw₂.trans hw₃)) _ _).bind fun ty c₄ hc₄ hw₄ hty =>
    .pure hc₄ ⟨hty, fun g hcells => ?_⟩
  have hcells₁ := hcells.parts.widen hw₁
  have hz₃ := (hz'.2 g hcells₁.left).widen hw₃
  exact ((hz₃.append (hi'.2 g (hcells₁.right.widen hw₂))).widen hw₄).node hty

/-! ### Variables -/

theorem VarUpholds.simple {name : String} {binding : Option VarId} : VarUpholds (.simple m name binding) := by
  intro ctx c hc
  rw [checkVar]
  refine (upholds_simple hc name).bind fun r c₁ hc₁ hw₁ hr => .pure hc₁ ⟨hr.2, fun g hcells => ?_⟩
  refine ((CellsProper.nil g c₁).note (n := .simple _ _) fun v hv => ?_).node hr.2
  obtain ⟨found, ty⟩ := r
  cases found with
  | some w => exact Or.inr (hr.1 v hv)
  | none => exact (hcells.notes _ List.mem_cons_self v hv).imp_right hw₁.shows

theorem VarUpholds.field {base : Var} {name : Ident} {position : Option ℕ} (hb : VarUpholds base) :
    VarUpholds (.field m base name position) := by
  intro ctx c hc
  rw [checkVar]
  refine (hb ctx hc).bind fun b c₁ hc₁ _ hb' => ?_
  refine (upholds_field hc₁ _ _).bind fun r c₂ hc₂ hw₂ hr => .pure hc₂ ⟨hr, fun g hcells => ?_⟩
  exact (((hb'.2 g hcells.parts.noted).widen hw₂).note (n := .field ..) trivial).node hr

theorem VarUpholds.element {base : Var} {index : Exp} (hb : VarUpholds base) (hi : ExpUpholds index) :
    VarUpholds (.element m base index) := by
  intro ctx c hc
  rw [checkVar]
  refine (hb ctx hc).bind fun b c₁ hc₁ hw₁ hb' => (hi ctx hc₁).bind fun i c₂ hc₂ hw₂ hi' => ?_
  refine (upholds_element hc₂ _ _).bind fun ty c₃ hc₃ hw₃ hty => .pure hc₃ ⟨hty, fun g hcells => ?_⟩
  have hparts := hcells.parts.noted
  have hb₂ := (hb'.2 g hparts.left).widen hw₂
  exact (((hb₂.append (hi'.2 g (hparts.right.widen hw₁))).widen hw₃).note (n := .element ..) trivial).node hty

/-! ### Declarations -/

/-- The check of a declaration under a proper plan leaves a proper state behind, and proper cells. -/
def DecUpholds (d : Dec) : Prop := ∀ (ctx : Context) (plan : Plan) {c : Checker}, c.Proper → plan.Proper c.frames →
  Upholds (checkDec ctx plan d) c fun r c' => ∀ g, d.Proper g c → r.1.Proper g c'

/-- A variable gets a slot that can be seen. -/
theorem upholds_bindSlot (hc : c.Proper) (frame : FrameId) (name : String) {ty : Option Ty}
    (hty : ∀ t ∈ ty, c.types.Gives t) {α : Type} {f : VarId → Check α} {Q : α → Checker → Prop}
    (h : ∀ v c₁, c₁.Proper → c.Widens c₁ → Upholds (f v) c₁ Q) :
    Upholds (do
      let slot ← alloc frame name ty .letBound
      bindValue name slot
      f slot) c Q := by
  refine (upholds_alloc hc name .letBound hty).bind fun v c₁ hc₁ hw₁ hv => ?_
  obtain ⟨s, hs, hk⟩ := hv
  refine (upholds_bindValue hc₁ name ⟨s, hs, by rw [hk]; decide⟩).bind fun _ c₂ hc₂ hw₂ _ => ?_
  exact h v c₂ hc₂ (hw₁.trans hw₂)

theorem decUpholds {d : Dec} (h : d.Parts ExpUpholds) : DecUpholds d := by
  intro ctx plan c hc hplan
  have hsame : Upholds (pure (d, false)) c fun r c' => ∀ g, d.Proper g c → r.1.Proper g c' := .pure hc fun _ => id
  cases plan with
  | dropped =>
    rw [checkDec_dropped]
    exact hsame
  | typeBody id =>
    cases d with
    | type dec =>
      rw [checkDec]
      exact (upholds_typeAt hc id).bind fun _ c₁ hc₁ _ _ => .pure hc₁ fun g _ => .nil g c₁
    | function | var => exact hsame
  | functionBody header =>
    cases d with
    | function head body loc f =>
      rw [checkDec]
      refine (upholds_enterValues hc).bind fun _ c₁ hc₁ hw₁ _ => ?_
      refine (upholds_bindParams _ _ hc₁ fun v hv => hw₁.shows (hplan v hv)).bind fun _ c₂ hc₂ hw₂ _ => ?_
      refine (h _ hc₂).bind fun body' c₃ hc₃ hw₃ hbody => ?_
      refine (upholds_exitValues hc₃).bind fun _ c₄ hc₄ hw₄ _ => ?_
      refine (upholds_finalize hc₄ _).bind fun _ c₅ hc₅ hw₅ _ => ?_
      refine (upholds_body hc₅ _ _).bind fun ok c₆ hc₆ hw₆ _ => .pure hc₆ fun g hcells => ?_
      exact (hbody.2 g (hcells.widen (hw₁.trans hw₂))).widen ((hw₄.trans hw₅).trans hw₆)
    | type | var => exact hsame
  | «variable» first =>
    cases d with
    | var name typeName init loc slot =>
      rw [checkDec]
      refine (upholds_boundSince hc _ _).bind fun bound c₁ hc₁ hw₁ _ => .ite (fun _ => ?_) fun _ => ?_
      · exact (upholds_report hc₁ _ _).bind fun _ _ hc₂ hw₂ _ =>
          .pure hc₂ fun g hcells => hcells.widen (hw₁.trans hw₂)
      · refine (h ctx hc₁).bind fun init' c₂ hc₂ hw₂ hinit => ?_
        refine (upholds_declared hc₂ typeName hinit.1 _).bind fun r c₃ hc₃ hw₃ hr => ?_
        refine upholds_bindSlot hc₃ _ _ hr fun v c₄ hc₄ hw₄ => .pure hc₄ fun g hcells => ?_
        exact (hinit.2 g (hcells.widen hw₁)).widen (hw₃.trans hw₄)
    | type | function => exact hsame

theorem Plan.proper_headD {plans : List Plan} {t : FrameTable} (h : ∀ p ∈ plans, p.Proper t) :
    (plans.headD .dropped).Proper t := by
  cases plans with
  | nil => trivial
  | cons p plans => exact h p List.mem_cons_self

/-- **Declarations leave a proper state behind, and proper cells.** -/
theorem upholds_checkDecs {ds : List Dec} (h : ∀ d ∈ ds, d.Parts ExpUpholds) : ∀ (plans : List Plan) {c : Checker},
    c.Proper → (∀ p ∈ plans, p.Proper c.frames) → Upholds (checkDecs ctx plans ds) c fun r c' =>
      ∀ g, CellsProper g c (tysDecs ds) (notesDecs ds) → CellsProper g c' (tysDecs r.1) (notesDecs r.1) := by
  induction ds with
  | nil =>
    intro plans c hc _
    rw [checkDecs]
    exact .pure hc fun _ => id
  | cons d ds ih =>
    obtain ⟨hd, hds⟩ := List.forall_mem_cons.mp h
    intro plans c hc hplans
    have hnext : ∀ (plans : List Plan) {c₁ : Checker}, c₁.Proper → c.Widens c₁ →
        (∀ p ∈ plans, p.Proper c₁.frames) → Upholds (do
          let r ← checkDec ctx (plans.headD .dropped) d
          let s ← checkDecs ctx plans.tail ds
          return (r.1 :: s.1, r.2 && s.2)) c₁ fun r c' => ∀ g, CellsProper g c (tysDecs (d :: ds))
            (notesDecs (d :: ds)) → CellsProper g c' (tysDecs r.1) (notesDecs r.1) := by
      intro plans c₁ hc₁ hw₁ hplans₁
      refine (decUpholds hd ctx _ hc₁ (Plan.proper_headD hplans₁)).bind fun r c₂ hc₂ hw₂ hr => ?_
      refine (ih hds _ hc₂ fun p hp => (hplans₁ p (List.mem_of_mem_tail hp)).widen hw₂).bind
        fun s c₃ hc₃ hw₃ hs => .pure hc₃ fun g hcells => ?_
      have hcells₁ := hcells.widen hw₁
      exact ((hr g hcells₁.left).widen hw₃).append (hs g (hcells₁.right.widen hw₂))
    rw [checkDecs]
    refine .ite (fun _ => ?_) fun _ => hnext plans hc (.refl c) hplans
    exact (upholds_openRun hc _).bind fun plans c₁ hc₁ hw₁ hp => hnext plans hc₁ hw₁ hp

theorem ExpUpholds.letIn {decs : List Dec} {body : Exp} (hds : ∀ d ∈ decs, d.Parts ExpUpholds)
    (hb : ExpUpholds body) : ExpUpholds (.letIn m decs body) := by
  intro ctx c hc
  rw [checkExp]
  refine (upholds_enterScopes hc).bind fun _ c₁ hc₁ hw₁ _ => ?_
  refine (upholds_checkDecs hds [] hc₁ (List.forall_mem_nil _)).bind fun r c₂ hc₂ hw₂ hr => ?_
  refine (hb ctx hc₂).bind fun b c₃ hc₃ hw₃ hb' => ?_
  refine (upholds_exitScopes hc₃).bind fun _ c₄ hc₄ hw₄ _ => ?_
  have hty : Typed (if r.2 then b.ty else none) c₄ := by
    split
    · exact hb'.1.widen hw₄
    · exact typed_none c₄
  refine .pure hc₄ ⟨hty, fun g hcells => ?_⟩
  have hcells₁ := hcells.parts.widen hw₁
  exact ((((hr g hcells₁.left).widen hw₃).append (hb'.2 g (hcells₁.right.widen hw₂))).widen hw₄).node hty

/-- Where a leaf of a tree has a type of its own, nothing else happens. -/
theorem upholds_leaf {e₀ e : Exp} {ty : Option Ty} (hc : c.Proper) (hty : Typed ty c) (hself : e.ty = ty)
    (htys : e.tys = [ty]) (hnotes : e.notes = []) :
    Upholds (pure e) c fun e' c' => Typed e'.ty c' ∧ ∀ g, e₀.Proper g c → e'.Proper g c' := by
  refine .pure hc ⟨hself ▸ hty, fun g _ => ?_⟩
  rw [Exp.Proper, htys, hnotes]
  exact (CellsProper.nil g c).node hty

end

theorem upholdsCases : Tree.Cases ExpUpholds VarUpholds (Dec.Parts ExpUpholds) where
  var _ _ h := .var h
  nil m ctx c hc := by
    rw [checkExp]
    exact upholds_leaf hc (typed_some (Or.inl rfl)) rfl rfl rfl
  int m n ctx c hc := by
    rw [checkExp]
    exact upholds_leaf hc (typed_some Arena.stores_int.types) rfl rfl rfl
  string m s ctx c hc := by
    rw [checkExp]
    exact upholds_leaf hc (typed_some (Arena.Stores.types (t := .string) ⟨trivial, trivial⟩)) rfl rfl rfl
  call _ _ _ _ h := .call h
  binary _ _ _ _ hl hr := .binary hl hr
  record _ _ _ h := .record h
  seq _ _ h := .seq h
  assign _ _ _ ht hv := .assign ht hv
  condNone _ _ _ ht hp := .condNone ht hp
  condSome _ _ _ _ ht hp he := .condSome ht hp he
  whileLoop _ _ _ ht hb := .whileLoop ht hb
  doWhile _ _ _ hb ht := .doWhile hb ht
  forLoop _ _ _ _ _ _ hl hh hb := .forLoop hl hh hb
  breakLoop _ := .breakLoop
  letIn _ _ _ hd hb := .letIn hd hb
  array _ _ _ _ hz hi := .array hz hi
  simple _ _ _ := .simple
  field _ _ _ _ hb := .field hb
  element _ _ _ hb hi := .element hb hi
  type _ := trivial
  function _ _ _ _ hb := hb
  varDec _ _ _ _ _ hi := hi

/-- **Every check puts types where they may be.** -/
theorem upholds_exp (e : Exp) : ExpUpholds e := upholdsCases.all.1 e

end TigerCheck
