import TigerCheck.Proofs.Tame.Faults
import TigerCheck.Proofs.Tree.Trim
import TigerCheck.Proofs.Walk.Declares

/-!
# The check of a trimmed tree

Trimming a tree changes nothing for the checker but the tree. In every state the check of the trimmed tree
ends as that of the tree does: in the same state with the trimmed answer, or in the same breach. On the way
each outermost dropped declaration is reported once, and no other name is reported as repeated.

* `Dec.again`, `Diagnostics.repeats`: the reports of repeated names.
* `Check.NoRepeat`: an action reports no repeated name.
* `Check.Mimics`: one action goes as another one, and reports some declarations as repeated.
  **`Check.Mimics.bind`**.
* `Plan.Assigned`: the plans of a run of types or functions.
* `mimics_checkRun`, `mimics_checkDecs`: runs and blocks.
* **`mimics_exp`**: every expression.
-/

namespace TigerCheck

open Check

/-! ## Reports of repeated names -/

/-- The report of a declaration that repeats a name. -/
def Dec.again (d : Dec) : Diagnostic := ⟨d.name.loc, .duplicateDefinition d.name.name⟩

/-- The reports of repeated names, in order. -/
def Diagnostics.repeats (ds : Diagnostics) : List Diagnostic :=
  ds.entries.toList.filter (·.fault.kind = .duplicateDefinition)

theorem Checker.repeats_again (c : Checker) (name : Ident) :
    (c.reported (.duplicateDefinition name.name) name.loc).diagnostics.repeats =
      c.diagnostics.repeats ++ [⟨name.loc, .duplicateDefinition name.name⟩] := by
  simp [Diagnostics.repeats, Checker.reported, Diagnostics.report, Fault.kind]

namespace Check

variable {α β γ δ : Type} {F : Fault → Prop} {m : Check α} {m' : Check β} {c c' : Checker} {a : α}

/-- An action reports no repeated name. -/
abbrev NoRepeat (m : Check α) : Prop := ReportsOnly (·.kind ≠ .duplicateDefinition) m

theorem NoRepeat.repeats_eq (h : NoRepeat m) (hm : m.run c = .ok (a, c')) :
    c'.diagnostics.repeats = c.diagnostics.repeats := by
  obtain ⟨rs, hrs, heq⟩ := h c a c' hm
  have hnone : rs.filter (·.fault.kind = .duplicateDefinition) = [] :=
    List.filter_eq_nil_iff.mpr fun r hr hkind => hrs r hr (of_decide_eq_true hkind)
  rw [Diagnostics.repeats, heq, List.filter_append, hnone, List.append_nil]
  rfl

theorem kind_ne_of_isPlain {f : Fault} (h : f.IsPlain) : f.kind ≠ .duplicateDefinition := by
  cases f <;> first | exact False.elim h | exact nofun

theorem kind_ne_of_ofTypeName {f : Fault} (h : f.OfTypeName) : f.kind ≠ .duplicateDefinition := by
  cases f <;> first | exact False.elim h | exact nofun

theorem NoRepeat.of_plain {ok : Prop} {good : α → Prop} (h : Passive Fault.IsPlain ok m good) : NoRepeat m :=
  (ReportsOnly.of_passive h).mono fun _ => kind_ne_of_isPlain

theorem noRepeat_typeOf (name : Ident) : NoRepeat (typeOf name) :=
  (reportsOnly_typeOf name).mono fun _ => kind_ne_of_ofTypeName

theorem noRepeat_target (name : String) : NoRepeat (Rule.target? name) := by
  have h : Passive Fault.IsPlain True (Rule.target? name) fun _ => True := passive_target name
  exact .of_plain h

theorem noRepeat_call {loc : Location} {callee : Ident} {target : Option Rule.Target} {args : ℕ} {fit : Bool} :
    NoRepeat (Rule.call loc callee target args fit) :=
  .of_passive (passive_call (fun _ => kind_ne_of_isPlain) target fun _ => nofun)

theorem noRepeat_declared (typeName : Option Ident) (init : Mark) (literal : Bool) :
    NoRepeat (Rule.declared typeName init literal) := by
  cases typeName with
  | none => exact .of_plain (passive_inferred init)
  | some typeName =>
    rw [Rule.declared, Rule.annotated_eq]
    exact (noRepeat_typeOf typeName).bind fun declared => NoRepeat.of_plain (passive_against declared init)

/-! ## Mimics -/

/-- In some state one action goes as another one: in the same breach, or to the same state, with the answer
that belongs to the other one's. On the way some declarations are reported as repeated, and no others. -/
structure Mimics (c : Checker) (f : α → β) (ds : List Dec) (m : Check α) (m' : Check β) : Prop where
  run_eq : m'.run c = (m.run c).map (Prod.map f id)
  repeats : ∀ a c', m.run c = .ok (a, c') →
    c'.diagnostics.repeats.Perm (c.diagnostics.repeats ++ ds.map Dec.again)

namespace Mimics

variable {f : α → β} {g : γ → δ} {ds es : List Dec} {k : α → Check γ}

theorem pure {a : α} {b : β} (h : f a = b) : Mimics c f [] (Pure.pure a) (Pure.pure b) where
  run_eq := by
    subst h
    rfl
  repeats x c' hrun := by
    cases hrun
    rw [List.map_nil, List.append_nil]

/-- **One action after another.** -/
theorem bind {k' : β → Check δ} (hm : Mimics c f ds m m')
    (hk : ∀ a c', m.run c = .ok (a, c') → Mimics c' g es (k a) (k' (f a))) :
    Mimics c g (ds ++ es) (m >>= k) (m' >>= k') where
  run_eq := by
    rw [StateT.run_bind, StateT.run_bind, hm.run_eq]
    cases hrun : m.run c with
    | error e => rfl
    | ok r => exact (hk r.1 r.2 hrun).run_eq
  repeats b c'' hrun := by
    obtain ⟨a, c', h₁, h₂⟩ := exists_of_run_bind hrun
    rw [List.map_append, ← List.append_assoc]
    exact ((hk a c' h₁).repeats b c'' h₂).trans ((hm.repeats a c' h₁).append_right _)

/-- One action after another, where the last one reports nothing of interest. -/
theorem tail {k' : β → Check δ} (hm : Mimics c f ds m m')
    (hk : ∀ a c', m.run c = .ok (a, c') → Mimics c' g [] (k a) (k' (f a))) :
    Mimics c g ds (m >>= k) (m' >>= k') := by
  have h := hm.bind hk
  rwa [List.append_nil] at h

/-- The same action on both sides. -/
theorem same {k' : α → Check δ} (hm : NoRepeat m)
    (hk : ∀ a c', m.run c = .ok (a, c') → Mimics c' g ds (k a) (k' a)) :
    Mimics c g ds (m >>= k) (m >>= k') := by
  have hself : Mimics c id [] m m :=
    { run_eq := by cases m.run c <;> rfl
      repeats := fun a c' hrun => by rw [hm.repeats_eq hrun, List.map_nil, List.append_nil] }
  exact hself.bind hk

theorem perm (h : Mimics c f ds m m') (hds : ds.Perm es) : Mimics c f es m m' where
  run_eq := h.run_eq
  repeats a c' hrun := (h.repeats a c' hrun).trans ((hds.map _).append_left _)

/-- A repeated name is reported on both sides. -/
theorem report (d : Dec) : Mimics c id [d] (Check.report (.duplicateDefinition d.name.name) d.name.loc)
    (Check.report (.duplicateDefinition d.name.name) d.name.loc) where
  run_eq := by cases (Check.report (.duplicateDefinition d.name.name) d.name.loc).run c <;> rfl
  repeats u c' hrun := by
    obtain rfl := eq_of_run_report hrun
    rw [Checker.repeats_again]
    rfl

end Mimics

end Check

/-! ## Expressions -/

/-- The check of an expression goes as that of the trimmed one. -/
def ExpMimics (e : Exp) : Prop :=
  ∀ (ctx : Context) (c : Checker), Mimics c Exp.trim e.dropped (checkExp ctx e) (checkExp ctx e.trim)

/-- The check of a variable goes as that of the trimmed one. -/
def VarMimics (v : Var) : Prop :=
  ∀ (ctx : Context) (c : Checker), Mimics c Var.trim v.dropped (checkVar ctx v) (checkVar ctx v.trim)

section

variable {ctx : Context} {c c' : Checker} {m : Mark}

theorem mimics_checkEach {es : List Exp} (h : ∀ e ∈ es, ExpMimics e) : ∀ (params : List Ty) (c : Checker),
    Mimics c (Prod.map trimAll id) (droppedAll es) (checkEach ctx params es)
      (checkEach ctx params (trimAll es)) := by
  induction es with
  | nil =>
    intro params c
    simp only [checkEach, trimAll]
    exact .pure rfl
  | cons e es ih =>
    intro params c
    obtain ⟨he, hes⟩ := List.forall_mem_cons.mp h
    simp only [checkEach, trimAll, droppedAll]
    refine (he ctx c).bind fun e' c₁ _ => ?_
    rw [Exp.mark_trim]
    refine .same (.of_plain (passive_arg _ _)) fun ok c₂ _ => ?_
    exact (ih hes _ c₂).tail fun r c₃ _ => .pure rfl

theorem mimics_checkInits {loc : Location} {typeName : String} {inits : List (Ident × Exp)}
    (h : ∀ i ∈ inits, ExpMimics i.2) : ∀ (fields : Option (List Field)) (c : Checker),
    Mimics c (Prod.map trimInits id) (droppedInits inits) (checkInits ctx loc typeName fields inits)
      (checkInits ctx loc typeName fields (trimInits inits)) := by
  induction inits with
  | nil =>
    intro fields c
    simp only [checkInits, trimInits]
    exact .pure rfl
  | cons i inits ih =>
    intro fields c
    obtain ⟨hi, hinits⟩ := List.forall_mem_cons.mp h
    obtain ⟨name, e⟩ := i
    simp only [checkInits, trimInits, droppedInits]
    refine .same (.of_plain (passive_place fields)) fun fields c₁ _ => ?_
    refine (hi ctx c₁).bind fun e' c₂ _ => ?_
    rw [Exp.mark_trim]
    refine .same (.of_plain (passive_init _ _)) fun ok c₃ _ => ?_
    exact (ih hinits _ c₃).tail fun r c₄ _ => .pure rfl

theorem ExpMimics.var {v : Var} (hv : VarMimics v) : ExpMimics (.var m v) := fun ctx c => by
  simp only [checkExp, Exp.trim]
  exact (hv ctx c).tail fun v c₁ _ => .pure (by rw [Exp.trim, Var.ty_trim])

theorem ExpMimics.call {callee : Ident} {args : List Exp} {function : Option FunctionId}
    (h : ∀ e ∈ args, ExpMimics e) : ExpMimics (.call m callee args function) := fun ctx c => by
  simp only [checkExp, Exp.trim, Exp.dropped, length_trimAll]
  refine .same (noRepeat_target _) fun target c₁ _ => ?_
  refine (mimics_checkEach h _ c₁).tail fun r c₂ _ => ?_
  simp only [Prod.map, length_trimAll]
  exact .same noRepeat_call fun ty c₃ _ => .pure rfl

theorem ExpMimics.binary {op : BinOp} {left right : Exp} (hl : ExpMimics left) (hr : ExpMimics right) :
    ExpMimics (.binary m op left right) := fun ctx c => by
  simp only [checkExp, Exp.trim, Exp.dropped]
  refine (hl ctx c).bind fun l c₁ _ => (hr ctx c₁).tail fun r c₂ _ => ?_
  simp only [Exp.ty_trim]
  exact .same (.of_plain (passive_binary _ _)) fun ty c₃ _ => .pure rfl

theorem ExpMimics.record {typeName : Ident} {inits : List (Ident × Exp)}
    (h : ∀ i ∈ inits, ExpMimics i.2) : ExpMimics (.record m typeName inits) := fun ctx c => by
  simp only [checkExp, Exp.trim, Exp.dropped, length_trimInits]
  refine .same (noRepeat_typeOf _) fun ty c₁ _ => ?_
  refine .same (.of_plain (passive_recordFields ty)) fun fields c₂ _ => ?_
  exact (mimics_checkInits h fields c₂).tail fun r c₃ _ => .pure rfl

theorem lastTy_trimAll (items : List Exp) : lastTy (trimAll items) = lastTy items := by
  rw [lastTy, lastTy, trimAll_eq_map, List.getLast?_map]
  cases items.getLast? with
  | none => rfl
  | some e => exact e.ty_trim

theorem ExpMimics.seq {items : List Exp} (h : ∀ e ∈ items, ExpMimics e) : ExpMimics (.seq m items) :=
    fun ctx c => by
  simp only [checkExp, Exp.trim, Exp.dropped]
  refine (mimics_checkEach h _ c).tail fun r c₁ _ => ?_
  simp only [Prod.map, lastTy_trimAll]
  exact .pure rfl

theorem ExpMimics.assign {target : Var} {value : Exp} (ht : VarMimics target) (hv : ExpMimics value) :
    ExpMimics (.assign m target value) := fun ctx c => by
  simp only [checkExp, Exp.trim, Exp.dropped]
  refine (ht ctx c).bind fun t c₁ _ => (hv ctx c₁).tail fun v c₂ _ => ?_
  rw [Var.mark_trim, Exp.mark_trim]
  exact .same (.of_plain (passive_assign _ _)) fun ty c₃ _ => .pure rfl

theorem ExpMimics.condNone {test thenPart : Exp} (ht : ExpMimics test) (hp : ExpMimics thenPart) :
    ExpMimics (.cond m test thenPart none) := fun ctx c => by
  simp only [checkExp, Exp.trim, Exp.dropped]
  refine (ht ctx c).bind fun t c₁ _ => (hp ctx c₁).tail fun p c₂ _ => ?_
  rw [Exp.mark_trim, Exp.mark_trim]
  exact .same (.of_plain (passive_cond _ _ _)) fun ty c₃ _ => .pure rfl

theorem ExpMimics.condSome {test thenPart elsePart : Exp} (ht : ExpMimics test) (hp : ExpMimics thenPart)
    (he : ExpMimics elsePart) : ExpMimics (.cond m test thenPart (some elsePart)) := fun ctx c => by
  simp only [checkExp, Exp.trim, Exp.dropped, List.append_assoc]
  refine (ht ctx c).bind fun t c₁ _ => (hp ctx c₁).bind fun p c₂ _ => (he ctx c₂).tail fun e c₃ _ => ?_
  rw [Exp.mark_trim, Exp.mark_trim, Exp.mark_trim]
  exact .same (.of_plain (passive_cond _ _ _)) fun ty c₄ _ => .pure rfl

theorem ExpMimics.whileLoop {test body : Exp} (ht : ExpMimics test) (hb : ExpMimics body) :
    ExpMimics (.whileLoop m test body) := fun ctx c => by
  simp only [checkExp, Exp.trim, Exp.dropped]
  refine (ht ctx c).bind fun t c₁ _ => (hb ctx.enterLoop c₁).tail fun b c₂ _ => ?_
  rw [Exp.mark_trim, Exp.mark_trim]
  exact .same (.of_plain (passive_loop _ _)) fun ty c₃ _ => .pure rfl

theorem ExpMimics.doWhile {body test : Exp} (hb : ExpMimics body) (ht : ExpMimics test) :
    ExpMimics (.doWhile m body test) := fun ctx c => by
  simp only [checkExp, Exp.trim, Exp.dropped]
  refine (hb ctx.enterLoop c).bind fun b c₁ _ => (ht ctx c₁).tail fun t c₂ _ => ?_
  rw [Exp.mark_trim, Exp.mark_trim]
  exact .same (.of_plain (passive_loop _ _)) fun ty c₃ _ => .pure rfl

theorem ExpMimics.forLoop {counter : Ident} {low high body : Exp} {slot : Option VarId}
    (hl : ExpMimics low) (hh : ExpMimics high) (hb : ExpMimics body) :
    ExpMimics (.forLoop m counter low high body slot) := fun ctx c => by
  simp only [checkExp, Exp.trim, Exp.dropped, List.append_assoc]
  refine (hl ctx c).bind fun l c₁ _ => (hh ctx c₁).bind fun h c₂ _ => ?_
  simp only [Exp.ty_trim]
  refine .same (.of_plain (passive_bounds _ _)) fun fit c₃ _ => ?_
  refine .same (.of_tame tame_enterValues) fun _ c₄ _ => .same (.of_tame tame_alloc) fun slot c₅ _ => ?_
  refine .same (.of_tame tame_bindValue) fun _ c₆ _ => ?_
  refine (hb ctx.enterLoop c₆).tail fun b c₇ _ => ?_
  simp only [Exp.ty_trim]
  exact .same (.of_tame tame_exitValues) fun _ c₈ _ => .pure rfl

theorem ExpMimics.breakLoop : ExpMimics (.breakLoop m) := fun ctx c => by
  simp only [checkExp, Exp.trim, Exp.dropped]
  split
  · exact .same (.pure _) fun ty c₁ _ => .pure rfl
  · exact .same (reportsOnly_fail nofun) fun ty c₁ _ => .pure rfl

theorem ExpMimics.array {typeName : Ident} {size init : Exp} (hz : ExpMimics size) (hi : ExpMimics init) :
    ExpMimics (.array m typeName size init) := fun ctx c => by
  simp only [checkExp, Exp.trim, Exp.dropped]
  refine .same (noRepeat_typeOf _) fun ty c₁ _ => ?_
  refine (hz ctx c₁).bind fun z c₂ _ => (hi ctx c₂).tail fun i c₃ _ => ?_
  rw [Exp.mark_trim, Exp.mark_trim]
  exact .same (.of_plain (passive_array _ _ _)) fun ty c₄ _ => .pure rfl

/-! ## Variables -/

theorem VarMimics.simple {name : String} {binding : Option VarId} :
    VarMimics (.simple m name binding) := fun ctx c => by
  simp only [checkVar, Var.trim, Var.dropped]
  have hrule : NoRepeat (Rule.simple m.loc name) := .of_passive (passive_simple nofun)
  exact .same hrule fun r c₁ _ => .pure rfl

theorem VarMimics.field {base : Var} {name : Ident} {position : Option ℕ} (hb : VarMimics base) :
    VarMimics (.field m base name position) := fun ctx c => by
  simp only [checkVar, Var.trim, Var.dropped]
  refine (hb ctx c).tail fun b c₁ _ => ?_
  rw [Var.mark_trim]
  exact .same (.of_plain (passive_field _)) fun r c₂ _ => .pure rfl

theorem VarMimics.element {base : Var} {index : Exp} (hb : VarMimics base) (hi : ExpMimics index) :
    VarMimics (.element m base index) := fun ctx c => by
  simp only [checkVar, Var.trim, Var.dropped]
  refine (hb ctx c).bind fun b c₁ _ => (hi ctx c₁).tail fun i c₂ _ => ?_
  rw [Var.mark_trim, Exp.mark_trim]
  exact .same (.of_plain (passive_element _ _)) fun ty c₃ _ => .pure rfl

/-! ## Declarations -/

/-- The body of a function is checked in a scope of its own. -/
theorem mimics_functionBody {header : Header} {head : FunctionHead} {body : Exp} {loc : Location}
    {function : Option FunctionId} (hb : ExpMimics body) :
    Mimics c (Prod.map Dec.trim id) body.dropped
      (checkDec ctx (.functionBody header) (.function head body loc function))
      (checkDec ctx (.functionBody header) (.function head body.trim loc function)) := by
  rw [checkDec, checkDec]
  refine .same (.of_tame tame_enterValues) fun _ c₁ _ => .same (.of_tame (tame_bindParams _ _)) fun _ c₂ _ => ?_
  refine (hb _ c₂).tail fun body c₃ _ => ?_
  refine .same (.of_tame tame_exitValues) fun _ c₄ _ => .same (.of_tame tame_finalize) fun _ c₅ _ => ?_
  rw [Exp.mark_trim]
  exact .same (.of_plain (passive_body _ _)) fun ok c₆ _ => .pure rfl

section

variable {first : ℕ} {seen : List String} {name : Ident} {typeName : Option Ident} {init : Exp}
  {loc : Location} {slot : Option VarId}

theorem run_boundSince_iff (hb : c.BoundFrom first seen) {again : Bool}
    (h : (boundSince first name.name).run c = .ok (again, c')) : c' = c ∧ (again = true ↔ name.name ∈ seen) := by
  have hend : Yields (boundSince first name.name) c fun again d =>
      d = c ∧ (again = true ↔ name.name ∈ seen) := yields_boundSince.mpr ⟨rfl, hb.iff_mem name.name⟩
  exact hend.of_run h

/-- A variable whose name occurred before is reported, whatever it is made of. -/
theorem mimics_again (hb : c.BoundFrom first seen) (hmem : name.name ∈ seen) :
    Mimics c (Prod.map Dec.stub id) [.var name typeName init loc slot]
      (checkDec ctx (.variable first) (.var name typeName init loc slot))
      (checkDec ctx (.variable first) (Dec.stub (.var name typeName init loc slot))) := by
  rw [Dec.stub, checkDec, checkDec]
  refine .same (.of_tame tame_boundSince) fun again c₁ h₁ => ?_
  obtain ⟨rfl, hagain⟩ := run_boundSince_iff hb h₁
  rw [if_pos (hagain.mpr hmem), if_pos (hagain.mpr hmem)]
  exact (Mimics.report (.var name typeName init loc slot)).tail fun _ c₂ _ => .pure rfl

/-- Of another variable the initializer is checked. -/
theorem mimics_variable (hb : c.BoundFrom first seen) (hmem : name.name ∉ seen) (hi : ExpMimics init) :
    Mimics c (Prod.map Dec.trim id) init.dropped
      (checkDec ctx (.variable first) (.var name typeName init loc slot))
      (checkDec ctx (.variable first) (.var name typeName init.trim loc slot)) := by
  rw [checkDec, checkDec]
  refine .same (.of_tame tame_boundSince) fun again c₁ h₁ => ?_
  obtain ⟨rfl, hagain⟩ := run_boundSince_iff hb h₁
  rw [if_neg (mt hagain.mp hmem), if_neg (mt hagain.mp hmem)]
  refine (hi ctx c₁).tail fun init c₂ _ => ?_
  rw [Exp.mark_trim, Exp.isLiteral_trim]
  refine .same (noRepeat_declared _ _ _) fun r c₃ _ => .same (.of_tame tame_alloc) fun slot c₄ _ => ?_
  exact .same (.of_tame tame_bindValue) fun _ c₅ _ => .pure rfl

end

/-- The check of a declaration leaves its header alone. -/
theorem header_of_run_checkDec {plan : Plan} {d : Dec} {r : Dec × Bool}
    (h : (checkDec ctx plan d).run c = .ok (r, c')) : r.1.header = d.header := by
  cases plan with
  | dropped =>
    rw [checkDec_dropped] at h
    cases h
    rfl
  | typeBody id =>
    cases d with
    | type dec =>
      rw [checkDec] at h
      obtain ⟨ty, c₁, -, h⟩ := exists_of_run_bind h
      cases h
      rfl
    | function | var =>
      cases h
      rfl
  | functionBody header =>
    cases d with
    | function head body loc id =>
      rw [checkDec] at h
      repeat obtain ⟨_, _, -, h⟩ := exists_of_run_bind h
      cases h
      rfl
    | type | var =>
      cases h
      rfl
  | «variable» first =>
    cases d with
    | var name typeName init loc slot =>
      rw [checkDec] at h
      obtain ⟨again, c₁, -, h⟩ := exists_of_run_bind h
      split at h <;>
      · repeat obtain ⟨_, _, -, h⟩ := exists_of_run_bind h
        cases h
        rfl
    | type | function =>
      cases h
      rfl

theorem headers_of_run_checkPlanned {ds : List Dec} : ∀ {plans : List Plan} {c c' : Checker}
    {r : List Dec × Bool}, plans.length = ds.length → (checkPlanned ctx plans ds).run c = .ok (r, c') →
      r.1.map Dec.header = ds.map Dec.header := by
  induction ds with
  | nil =>
    intro plans c c' r _ h
    cases plans <;>
    · cases h
      rfl
  | cons d ds ih =>
    intro plans c c' r hlen h
    cases plans with
    | nil => cases hlen
    | cons plan plans =>
      obtain ⟨r₁, c₁, r₂, h₁, h₂, rfl⟩ := exists_of_run_checkPlanned h
      rw [List.map_cons, List.map_cons, header_of_run_checkDec h₁, ih (Nat.succ.inj hlen) h₂]

/-! ## Runs -/

/-- The plans of a run of types or functions: a declaration is dropped if its name occurred before. -/
inductive Plan.Assigned : List String → List Plan → List Dec → Prop where
  | nil {seen : List String} : Assigned seen [] []
  | dropped {seen : List String} {plans : List Plan} {d : Dec} {ds : List Dec} : d.name.name ∈ seen →
      Assigned seen plans ds → Assigned seen (.dropped :: plans) (d :: ds)
  | type {seen : List String} {plans : List Plan} {dec : TypeDec} {ds : List Dec} (id : NamedTypeId) :
      dec.name.name ∉ seen → Assigned (dec.name.name :: seen) plans ds →
      Assigned seen (.typeBody id :: plans) (.type dec :: ds)
  | function {seen : List String} {plans : List Plan} {head : FunctionHead} {body : Exp} {loc : Location}
      {id : Option FunctionId} {ds : List Dec} (h : Header) : head.name.name ∉ seen →
      Assigned (head.name.name :: seen) plans ds →
      Assigned seen (.functionBody h :: plans) (.function head body loc id :: ds)

theorem assigned_of_run_bindHeaders {ds : List Dec} (hds : ∀ d ∈ ds, d.kind ≠ .var) :
    ∀ {seen : List String} {c c' : Checker} {plans : List Plan},
      (bindHeaders ctx seen ds).run c = .ok (plans, c') → Plan.Assigned seen plans ds := by
  induction ds with
  | nil =>
    intro seen c c' plans h
    cases h
    exact .nil
  | cons d ds ih =>
    intro seen c c' plans h
    obtain ⟨hd, hrest⟩ := List.forall_mem_cons.mp hds
    rcases exists_of_run_bindHeaders h with ⟨hmem, plans', rfl, h₂⟩ | ⟨hmem, plan, c₁, plans', rfl, hbinds, h₂⟩
    · exact .dropped hmem (ih hrest h₂)
    · cases hbinds with
      | var => exact absurd rfl hd
      | type => exact .type _ hmem (ih hrest h₂)
      | function => exact .function _ hmem (ih hrest h₂)

/-- Where types and functions are bound, those that repeat a name are reported. -/
theorem mimics_bindHeaders {k : Dec.Kind} {ds : List Dec} (hk : ∀ d ∈ ds, d.kind = k) :
    ∀ (seen : List String) (c : Checker), Mimics c id (repeatedDecs ⟨some k, seen⟩ ds)
      (bindHeaders ctx seen ds) (bindHeaders ctx seen (trimDecs ⟨some k, seen⟩ ds)) := by
  induction ds with
  | nil => exact fun seen c => .pure rfl
  | cons d ds ih =>
    intro seen c
    obtain ⟨hd, hds⟩ := List.forall_mem_cons.mp hk
    by_cases hmem : d.name.name ∈ seen
    · rw [trimDecs_of_mem hd hmem, repeatedDecs_of_mem hd hmem, bindHeaders, bindHeaders, d.name_stub]
      simp only [if_pos hmem]
      exact (Mimics.report d).bind fun _ c₁ _ => (ih hds seen c₁).tail fun plans c₂ _ => .pure rfl
    · have hrest (plan : Plan) (c₁ : Checker) : Mimics c₁ id (repeatedDecs ⟨some k, d.name.name :: seen⟩ ds)
          (do return plan :: (← bindHeaders ctx (d.name.name :: seen) ds))
          (do return plan :: (← bindHeaders ctx (d.name.name :: seen)
            (trimDecs ⟨some k, d.name.name :: seen⟩ ds))) :=
        (ih hds _ c₁).tail fun plans c₂ _ => .pure rfl
      rw [trimDecs_of_not_mem hd hmem, repeatedDecs_of_not_mem hd hmem, bindHeaders, bindHeaders, d.name_trim]
      simp only [if_neg hmem]
      cases d with
      | type dec => exact .same (.map (.of_tame tame_declareType)) fun plan c₁ _ => hrest plan c₁
      | function head body loc id =>
        have hdec : NoRepeat (declareFunction ctx head) :=
          reportsOnly_declareFunction.mono fun _ => kind_ne_of_ofTypeName
        exact .same (.map hdec) fun plan c₁ _ => hrest plan c₁
      | var => exact .same (.pure _) fun plan c₁ _ => hrest plan c₁

section

variable {k : Dec.Kind} {seen : List String} {plan : Plan} {plans : List Plan} {d : Dec} {ds es : List Dec}

/-- A declaration that is not dropped, and the rest of its run. -/
theorem mimics_cons (hd : d.kind = k) (hmem : d.name.name ∉ seen)
    (hdec : Mimics c (Prod.map Dec.trim id) d.dropped (checkDec ctx plan d) (checkDec ctx plan d.trim))
    (hrest : ∀ r c₁, (checkDec ctx plan d).run c = .ok (r, c₁) →
      Mimics c₁ (Prod.map (trimDecs ⟨some k, d.name.name :: seen⟩) id) es (checkPlanned ctx plans ds)
        (checkPlanned ctx plans (trimDecs ⟨some k, d.name.name :: seen⟩ ds))) :
    Mimics c (Prod.map (trimDecs ⟨some k, seen⟩) id) (d.dropped ++ es)
      (checkPlanned ctx (plan :: plans) (d :: ds))
      (checkPlanned ctx (plan :: plans) (trimDecs ⟨some k, seen⟩ (d :: ds))) := by
  rw [trimDecs_of_not_mem hd hmem, checkPlanned, checkPlanned]
  refine hdec.bind fun r c₁ h₁ => (hrest r c₁ h₁).tail fun s c₂ _ => .pure ?_
  have hheader := header_of_run_checkDec h₁
  have hkind : r.1.kind = k := (congrArg Prod.fst hheader).trans hd
  have hname : r.1.name = d.name := congrArg Prod.snd hheader
  rw [Prod.map, trimDecs_of_not_mem hkind (hname ▸ hmem), hname]
  rfl

/-- The types and functions of a run are checked as planned. -/
theorem mimics_assigned (h : Plan.Assigned seen plans ds) (hk : ∀ d ∈ ds, d.kind = k)
    (hparts : ∀ d ∈ ds, d.Parts ExpMimics) : ∀ c : Checker,
    Mimics c (Prod.map (trimDecs ⟨some k, seen⟩) id) (heldDecs ⟨some k, seen⟩ ds) (checkPlanned ctx plans ds)
      (checkPlanned ctx plans (trimDecs ⟨some k, seen⟩ ds)) := by
  induction h with
  | nil => exact fun c => .pure rfl
  | @dropped seen plans d ds hmem _ ih =>
    intro c
    obtain ⟨hd, hds⟩ := List.forall_mem_cons.mp hk
    rw [trimDecs_of_mem hd hmem, heldDecs_of_mem hd hmem, checkPlanned, checkPlanned, checkDec_dropped,
      checkDec_dropped, pure_bind, pure_bind]
    refine (ih hds (List.forall_mem_cons.mp hparts).2 c).tail fun r c₁ _ => .pure ?_
    rw [Prod.map, trimDecs_of_mem hd hmem]
    rfl
  | @type seen plans dec ds id hmem _ ih =>
    intro c
    obtain ⟨hd, hds⟩ := List.forall_mem_cons.mp hk
    rw [heldDecs_of_not_mem hd hmem]
    refine mimics_cons hd hmem ?_ fun r c₁ _ => ih hds (List.forall_mem_cons.mp hparts).2 c₁
    rw [Dec.trim, checkDec]
    exact .same ((reportsOnly_typeAt id).mono fun _ => kind_ne_of_ofTypeName) fun ty c₁ _ => .pure rfl
  | @function seen plans head body loc id ds h hmem _ ih =>
    intro c
    obtain ⟨hd, hds⟩ := List.forall_mem_cons.mp hk
    obtain ⟨hb, hrest⟩ := List.forall_mem_cons.mp hparts
    rw [heldDecs_of_not_mem hd hmem]
    exact mimics_cons hd hmem (mimics_functionBody hb) fun r c₁ _ => ih hds hrest c₁

/-- The variables of a run are checked one by one, and those that repeat a name are reported. -/
theorem mimics_variables {first : ℕ} (hk : ∀ d ∈ ds, d.kind = .var) (hparts : ∀ d ∈ ds, d.Parts ExpMimics) :
    ∀ {seen : List String} {c : Checker}, c.BoundFrom first seen →
      Mimics c (Prod.map (trimDecs ⟨some .var, seen⟩) id) (droppedDecs ⟨some .var, seen⟩ ds)
        (checkPlanned ctx (ds.map fun _ => .variable first) ds)
        (checkPlanned ctx (ds.map fun _ => .variable first) (trimDecs ⟨some .var, seen⟩ ds)) := by
  induction ds with
  | nil => exact fun _ => .pure rfl
  | cons d ds ih =>
    intro seen c hb
    obtain ⟨hd, hds⟩ := List.forall_mem_cons.mp hk
    obtain ⟨hpart, hrest⟩ := List.forall_mem_cons.mp hparts
    cases d with
    | type => cases hd
    | function => cases hd
    | var name typeName init loc slot =>
      by_cases hmem : name.name ∈ seen
      · rw [trimDecs_of_mem hd hmem, droppedDecs_of_mem hd hmem, List.map_cons, checkPlanned, checkPlanned]
        refine (mimics_again hb hmem).bind fun r c₁ h₁ => ?_
        obtain ⟨rfl, rfl⟩ := eq_of_run_again hb hmem h₁
        have hb₁ : (c.reported (.duplicateDefinition name.name) name.loc).BoundFrom first seen :=
          hb.of_values rfl (Nat.le_refl _)
        refine (ih hds hrest hb₁).tail fun s c₂ _ => .pure ?_
        rw [Prod.map, trimDecs_of_mem hd hmem]
        rfl
      · rw [droppedDecs_of_not_mem hd hmem]
        refine mimics_cons hd hmem (mimics_variable hb hmem hpart) fun r c₁ h₁ => ?_
        exact ih hds hrest ((bindsNew_of_run hb hmem h₁).boundFrom hb)

end

/-- **The check of a run goes as that of the trimmed run**, of whatever kind it is. -/
theorem mimics_checkRun {d : Dec} {ds : List Dec} (hk : ∀ e ∈ d :: ds, e.kind = d.kind)
    (hparts : ∀ e ∈ d :: ds, e.Parts ExpMimics) (hc : c.Slotted) :
    Mimics c (Prod.map (trimDecs ⟨some d.kind, []⟩) id) (droppedDecs ⟨some d.kind, []⟩ (d :: ds))
      (checkRun ctx (d :: ds)) (checkRun ctx (trimDecs ⟨some d.kind, []⟩ (d :: ds))) := by
  have htrim : trimDecs ⟨some d.kind, []⟩ (d :: ds) = d.trim :: trimDecs ⟨some d.kind, [d.name.name]⟩ ds :=
    trimDecs_of_not_mem rfl List.not_mem_nil
  by_cases hvar : d.kind = .var
  · have hsame : openRun ctx (trimDecs ⟨some d.kind, []⟩ (d :: ds)) = openRun ctx (d :: ds) := by
      rw [htrim, openRun_cons, openRun_cons, d.kind_trim, if_pos hvar, if_pos hvar, length_trimDecs]
      simp only [List.map_const', List.length_cons, length_trimDecs]
    have hopen : NoRepeat (openRun ctx (d :: ds)) := by
      rw [openRun_cons, if_pos hvar]
      exact .bind (.of_tame tame_log) fun _ => .get fun c => .pure _
    rw [checkRun, checkRun, hsame]
    refine .same hopen fun plans c₁ h₁ => ?_
    obtain ⟨rfl, rfl⟩ := eq_of_run_openRun hvar h₁
    rw [hvar] at hk ⊢
    have hb : (c.note (.run .var (ds.length + 1))).BoundFrom c.frames.vars.size [] :=
      hc.boundFrom.of_values rfl (Nat.le_refl _)
    exact mimics_variables hk hparts hb
  · have hopen : Mimics c id (repeatedDecs ⟨some d.kind, []⟩ (d :: ds)) (openRun ctx (d :: ds))
        (openRun ctx (trimDecs ⟨some d.kind, []⟩ (d :: ds))) := by
      have hheaders (c₁ : Checker) : Mimics c₁ id (repeatedDecs ⟨some d.kind, []⟩ (d :: ds)) (bindHeaders ctx [] (d :: ds))
          (bindHeaders ctx [] (trimDecs ⟨some d.kind, []⟩ (d :: ds))) := mimics_bindHeaders hk [] c₁
      rw [htrim] at hheaders ⊢
      rw [openRun_cons, openRun_cons, d.kind_trim, if_neg hvar, if_neg hvar, length_trimDecs]
      exact .same (.of_tame tame_log) fun _ c₁ _ => hheaders c₁
    refine Mimics.perm (hopen.bind fun plans c₁ h₁ => ?_) (perm_droppedDecs _ _)
    have hassigned := assigned_of_run_bindHeaders (fun e he => (hk e he).trans_ne hvar)
      (run_bindHeaders_of_openRun hvar h₁)
    exact mimics_assigned hassigned hk hparts c₁

/-! ## Blocks -/

/-- The declarations of a block are a run, and what follows it. -/
theorem checkDecs_append {d : Dec} {ds es : List Dec} {k : Dec.Kind} (hk : ∀ e ∈ d :: ds, e.kind = k)
    (hes : OpenRun.Ends ⟨some k, []⟩ es) :
    checkDecs ctx [] (d :: ds ++ es) = (do
      let (run, ok) ← checkRun ctx (d :: ds)
      let (rest, oks) ← checkDecs ctx [] es
      return (run ++ rest, ok && oks)) := by
  have hrun := leadingRun_append hk hes
  rw [List.cons_append] at hrun ⊢
  rw [checkDecs_opens, hrun, checkRun, bind_assoc]
  refine StateT.ext fun c => ?_
  rw [StateT.run_bind, StateT.run_bind]
  cases hopen : (openRun ctx (d :: ds)).run c with
  | error e => rfl
  | ok r =>
    obtain ⟨plans, c₁⟩ := r
    have hlen := length_of_openRun hopen
    cases plans with
    | nil => cases hlen
    | cons plan plans =>
      have hplanned := checkDecs_planned ctx (plan :: plans) (d :: ds) es hlen
      rw [List.cons_append, checkDecs_cons] at hplanned
      exact congrArg (StateT.run · c₁) hplanned

/-- **The check of the declarations of a block goes as that of the trimmed ones.** -/
theorem mimics_checkDecs : ∀ ds : List Dec, (∀ d ∈ ds, d.Parts ExpMimics) → ∀ {o : OpenRun} {c : Checker},
    o.Ends ds → c.Slotted → Mimics c (Prod.map (trimDecs o) id) (droppedDecs o ds) (checkDecs ctx [] ds)
      (checkDecs ctx [] (trimDecs o ds))
  | [], _, o, c, _, _ => by
    rw [trimDecs, checkDecs]
    exact .pure rfl
  | d :: ds, hparts, o, c, ho, hc => by
    -- the leading run, and what follows it
    obtain ⟨run, es, hsplit, hk, hends⟩ : ∃ run es, d :: ds = d :: run ++ es ∧
        (∀ e ∈ d :: run, e.kind = d.kind) ∧ OpenRun.Ends ⟨some d.kind, []⟩ es :=
      ⟨ds.takeWhile (Dec.sameKind d), ds.dropWhile (Dec.sameKind d), by simp,
        fun e he => kind_of_mem_leadingRun he, OpenRun.ends_dropWhile rfl ds⟩
    have hlen : es.length < (d :: ds).length := by
      rw [hsplit, List.length_append, List.length_cons]
      omega
    rw [hsplit] at hparts ⊢
    obtain ⟨hrun, hrest⟩ := List.forall_mem_append.mp hparts
    have hopens : o.kind ≠ some d.kind := ho d rfl
    have hafter : (o.after (d :: run)).kind = some d.kind := OpenRun.kind_after hk
    have hends' : (o.after (d :: run)).Ends es := fun e he => hafter ▸ hends e he
    have hruns : o.Ends (d :: run) := fun e he => by
      cases he
      exact hopens
    have htrim : trimDecs ⟨some d.kind, []⟩ (d :: run) = d.trim :: trimDecs ⟨some d.kind, [d.name.name]⟩ run :=
      trimDecs_of_not_mem rfl List.not_mem_nil
    have hktrim := kind_of_mem_map_header (map_header_trimDecs ⟨some d.kind, []⟩ (d :: run)) hk
    have hendsTrim := hends.of_header (map_header_trimDecs (o.after (d :: run)) es)
    have hmimics : Mimics c (Prod.map (trimDecs ⟨some d.kind, []⟩) id) (droppedDecs ⟨some d.kind, []⟩ (d :: run))
        (checkRun ctx (d :: run)) (checkRun ctx (trimDecs ⟨some d.kind, []⟩ (d :: run))) :=
      mimics_checkRun hk hrun hc
    rw [trimDecs_append, droppedDecs_append, trimDecs_opens hruns hk, droppedDecs_opens hopens,
      checkDecs_append hk hends]
    rw [htrim] at hktrim hmimics ⊢
    rw [checkDecs_append hktrim hendsTrim]
    refine hmimics.bind fun r c₁ h₁ => ?_
    obtain ⟨plans, c₀, hopen, hplanned⟩ := exists_of_run_bind h₁
    have hslotted := (declares_run hk hc hopen hplanned).slotted hc
    refine (mimics_checkDecs es hrest hends' hslotted).tail fun s c₂ _ => .pure ?_
    have hheaders := headers_of_run_checkPlanned (length_of_openRun hopen) hplanned
    rw [Prod.map, trimDecs_append, OpenRun.after_eq_of_header hheaders,
      trimDecs_opens (hruns.of_header hheaders) (kind_of_mem_map_header hheaders hk)]
    rfl
termination_by ds => ds.length
decreasing_by exact hlen

/-- A block is checked in scopes of its own. -/
theorem ExpMimics.letIn {decs : List Dec} {body : Exp} (hds : ∀ d ∈ decs, d.Parts ExpMimics)
    (hb : ExpMimics body) : ExpMimics (.letIn m decs body) := fun ctx c => by
  simp only [checkExp, Exp.trim, Exp.dropped]
  refine .same (.of_tame tame_enterScopes) fun _ c₁ h₁ => ?_
  obtain rfl := Checker.eq_of_run_enterScopes h₁
  have hends : OpenRun.Ends {} decs := fun _ _ => nofun
  refine (mimics_checkDecs decs hds hends c.entered_slotted).bind fun r c₂ _ => ?_
  refine (hb ctx c₂).tail fun b c₃ _ => ?_
  simp only [Prod.map, Exp.ty_trim]
  exact .same (.of_tame tame_exitScopes) fun _ c₄ _ => .pure rfl

end

theorem mimics : Tree.Cases ExpMimics VarMimics (Dec.Parts ExpMimics) where
  var _ _ := .var
  nil _ ctx c := by
    simp only [checkExp, Exp.trim]
    exact .pure rfl
  int _ _ ctx c := by
    simp only [checkExp, Exp.trim]
    exact .pure rfl
  string _ _ ctx c := by
    simp only [checkExp, Exp.trim]
    exact .pure rfl
  call _ _ _ _ := .call
  binary _ _ _ _ := .binary
  record _ _ _ := .record
  seq _ _ := .seq
  assign _ _ _ := .assign
  condNone _ _ _ := .condNone
  condSome _ _ _ _ := .condSome
  whileLoop _ _ _ := .whileLoop
  doWhile _ _ _ := .doWhile
  forLoop _ _ _ _ _ _ := .forLoop
  breakLoop _ := .breakLoop
  letIn _ _ _ := .letIn
  array _ _ _ _ := .array
  simple _ _ _ := .simple
  field _ _ _ _ := .field
  element _ _ _ := .element
  type _ := trivial
  function _ _ _ _ h := h
  varDec _ _ _ _ _ h := h

/-- **The check of an expression goes as that of the trimmed one**, in whatever state and at whatever place it
is made. -/
theorem mimics_exp (e : Exp) : ExpMimics e := mimics.all.1 e

end TigerCheck
