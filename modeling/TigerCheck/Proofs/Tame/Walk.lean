import TigerCheck.Proofs.Tame.Rule
import TigerCheck.Proofs.Walk.Dec

/-!
# The walk is tame

Wherever the walk stands, and in whatever state it is: a node that gets a type was checked without a
report, and so was everything in it.

* `Plan.Good`: the plans under which a declaration can turn out right.
* `Check.tame_declareFunction`, `Check.tame_openRun`: opening a run of declarations.
* `ExpTame`, `VarTame`: the check of an expression, and of a variable.
* **`checkDecs_tame`**: declarations. **`tames`**: expressions and variables. `checkProgram_tame`:
  programs.
-/

namespace TigerCheck

/-- A plan under which a declaration can turn out right. -/
def Plan.Good : Plan → Prop
  | .dropped => False
  | .functionBody header => header.result ≠ none
  | .typeBody _ | .variable _ => True

/-- Whatever a list of plans has in front of the declarations that are left. -/
def Plan.GoodFor (n : Nat) (plans : List Plan) : Prop := ∀ p ∈ plans.take n, p.Good

theorem Plan.goodFor_succ {n : Nat} {plans : List Plan} (h : (plans.headD .dropped).Good)
    (ht : Plan.GoodFor n plans.tail) : Plan.GoodFor (n + 1) plans := by
  cases plans with
  | nil => exact h.elim
  | cons plan plans => exact List.forall_mem_cons.mpr ⟨h, ht⟩

namespace Check

variable {ok : Prop}

/-! ## Opening a run -/

theorem tame_declareType {dec : TypeDec} : Tame ok (declareType dec) fun _ => ok :=
  .modifyGet (fun _ _ => rfl) (fun c n => by simp [Checker.levelled]) fun _ => rfl

theorem tame_declareParams {frame : FrameId} : ∀ ps : List TypedName,
    Tame True (declareParams frame ps) (·.2 ≠ none)
  | [] => .pure fun _ => trivial
  | p :: ps => by
    refine (tame_typeOf p.typeName).bind fun ty => tame_alloc.bind fun id => ?_
    refine (tame_declareParams ps).keep.bind fun r => .pure ?_
    obtain ⟨ids, tys⟩ := r
    cases ty <;> cases tys <;> simp

theorem tame_declaredResult (result : Option Ident) :
    Tame True (declaredResult result) (· ≠ none) := by
  cases result with
  | none => exact .pure fun _ => trivial
  | some result => exact tame_typeOf result

/-- A function gets a declared result only if its signature was found without a report. -/
theorem tame_declareFunction {ctx : Context} {head : FunctionHead} :
    Tame True (declareFunction ctx head) (·.result ≠ none) := by
  unfold declareFunction
  refine .ite ?_ .throw
  refine tame_newFrame.bind fun frame => tame_alloc.bind fun staticLink => ?_
  refine (tame_declareParams head.params).bind fun r => ?_
  refine (tame_declaredResult head.result).keep.bind fun result => ?_
  refine tame_addFunction.bind fun id => tame_log.bind fun _ => .pure ?_
  obtain ⟨params, paramTypes⟩ := r
  cases result <;> cases paramTypes <;> simp

theorem tame_bindHeaders {ctx : Context} : ∀ (ds : List Dec) (seen : List String),
    Tame True (bindHeaders ctx seen ds) fun plans => ∀ p ∈ plans, p.Good
  | [], _ => .pure fun _ => trivial
  | d :: ds, seen => by
    rw [bindHeaders]
    refine .ite ?_ ?_
    · refine tame_report.bind fun _ => (tame_bindHeaders ds _).keep.bind fun plans => ?_
      exact .pure fun h => ⟨h _ List.mem_cons_self, fun p hp => h p (List.mem_cons_of_mem _ hp)⟩
    · have hrest (plan : Plan) : Tame plan.Good
          (do return plan :: (← bindHeaders ctx (d.name.name :: seen) ds)) fun plans =>
            ∀ p ∈ plans, p.Good :=
        (tame_bindHeaders ds _).keep.bind fun plans => .pure List.forall_mem_cons.mp
      cases d with
      | type dec => exact .bind (tame_declareType.map fun _ _ => trivial) hrest
      | function head body loc id => exact .bind (tame_declareFunction.map fun _ h => h) hrest
      | var name typeName init loc slot => exact .bind (.pure fun _ => trivial) hrest

theorem tame_openRun {ctx : Context} (run : List Dec) :
    Tame True (openRun ctx run) fun plans => ∀ p ∈ plans, p.Good := by
  cases run with
  | nil => exact .pure fun _ => trivial
  | cons d ds =>
    rw [openRun_cons]
    refine tame_log.bind fun _ => .ite ?_ (tame_bindHeaders _ _)
    refine .get (fun c n => ?_) fun _ => .pure fun _ => trivial
    simp [FrameTable.varCount, FrameTable.levelled]

theorem tame_boundSince {first : Nat} {name : String} :
    Tame ok (boundSince first name) fun _ => ok := by
  refine .get (fun _ _ => rfl) fun c => ?_
  split
  · exact .pure id
  · exact .pure id

end Check

open Check

/-- Checking an expression is tame: a type means that nothing was reported. -/
def ExpTame (e : Exp) : Prop := ∀ ctx, Tame True (checkExp ctx e) (·.ty ≠ none)

/-- Checking a variable is tame. -/
def VarTame (v : Var) : Prop := ∀ ctx, Tame True (checkVar ctx v) (·.ty ≠ none)

section

variable {ctx : Context} {m : Mark}

theorem and_of_ite_ne_none {α : Type} {b : Bool} {o : Option α} (h : (if b then o else none) ≠ none) :
    b = true ∧ o ≠ none := by
  cases b with
  | true => exact ⟨rfl, h⟩
  | false => exact (h rfl).elim

/-! ## Lists -/

theorem checkEach_tame {es : List Exp} (h : ∀ e ∈ es, ExpTame e) :
    ∀ params, Tame True (checkEach ctx params es) (·.2 = true) := by
  induction es with
  | nil =>
    intro params
    rw [checkEach]
    exact .pure fun _ => trivial
  | cons e es ih =>
    intro params
    obtain ⟨he, hes⟩ := List.forall_mem_cons.mp h
    rw [checkEach]
    refine (he ctx).bind fun e' => (passive_arg _ _).tame.bind fun ok => ?_
    refine (ih hes _).keep.bind fun r => .pure ?_
    simp

theorem checkInits_tame {loc : Location} {typeName : String} {inits : List (Ident × Exp)}
    (h : ∀ i ∈ inits, ExpTame i.2) :
    ∀ fields, Tame (fields ≠ none) (checkInits ctx loc typeName fields inits) (·.2 = true) := by
  induction inits with
  | nil =>
    intro fields
    rw [checkInits]
    exact .pure fun h => by simpa [Option.isSome_iff_ne_none] using h
  | cons i inits ih =>
    intro fields
    obtain ⟨hi, hinits⟩ := List.forall_mem_cons.mp h
    obtain ⟨name, e⟩ := i
    rw [checkInits]
    refine (passive_place fields).tame.bind fun fields => (hi ctx).keep.bind fun e' => ?_
    refine .bind (passive_init _ _).tame.frame fun ok => ?_
    have hrest : Tame (ok = true ∧ fields.map (·.tail) ≠ none)
        (checkInits ctx loc typeName (fields.map (·.tail)) inits) fun r => ok = true ∧ r.2 = true :=
      .frame (ih hinits _)
    refine .bind (hrest.imp (fun h => ?_) fun _ h => h) fun r => .pure (by simp)
    exact ⟨fun hnone => h.2 (by rw [hnone]; rfl), h.1⟩

/-! ## Expressions -/

theorem ExpTame.var {v : Var} (hv : VarTame v) : ExpTame (.var m v) := fun ctx => by
  rw [checkExp]
  exact (hv ctx).bind fun v => .pure id

theorem ExpTame.call {callee : Ident} {args : List Exp} {function : Option FunctionId}
    (h : ∀ e ∈ args, ExpTame e) : ExpTame (.call m callee args function) := fun ctx => by
  rw [checkExp]
  refine (passive_target (F := anyFault) _).tame.bind fun target => (checkEach_tame h _).bind fun r => ?_
  exact (passive_call (F := anyFault) (fun _ _ => trivial) target fun _ => trivial).tame.bind fun ty =>
    .pure id

theorem ExpTame.binary {op : BinOp} {left right : Exp} (hl : ExpTame left) (hr : ExpTame right) :
    ExpTame (.binary m op left right) := fun ctx => by
  rw [checkExp]
  refine (hl ctx).bind fun l => (hr ctx).keep.bind fun r => ?_
  exact (passive_binary _ _).tame.bind fun ty => .pure id

theorem ExpTame.record {typeName : Ident} {inits : List (Ident × Exp)}
    (h : ∀ i ∈ inits, ExpTame i.2) : ExpTame (.record m typeName inits) := fun ctx => by
  rw [checkExp]
  refine (tame_typeOf typeName).bind fun ty => ?_
  refine (passive_recordFields ty).tame.bind fun fields => ?_
  exact (checkInits_tame h fields).bind fun r => .pure fun h => (and_of_ite_ne_none h).1

theorem ExpTame.seq {items : List Exp} (h : ∀ e ∈ items, ExpTame e) :
    ExpTame (.seq m items) := fun ctx => by
  rw [checkExp]
  exact (checkEach_tame h _).bind fun r => .pure fun h => (and_of_ite_ne_none h).1

theorem ExpTame.assign {target : Var} {value : Exp} (ht : VarTame target) (hv : ExpTame value) :
    ExpTame (.assign m target value) := fun ctx => by
  rw [checkExp]
  refine (ht ctx).bind fun t => (hv ctx).keep.bind fun v => ?_
  exact (passive_assign _ _).tame.bind fun ty => .pure id

theorem ExpTame.condNone {test thenPart : Exp} (ht : ExpTame test) (hp : ExpTame thenPart) :
    ExpTame (.cond m test thenPart none) := fun ctx => by
  rw [checkExp]
  refine (ht ctx).bind fun t => (hp ctx).keep.bind fun p => ?_
  refine .bind ((passive_cond _ _ _).tame.imp (fun h => ?_) fun _ h => h)
    fun ty => .pure id
  exact ⟨h.1, h.2.1⟩

theorem ExpTame.condSome {test thenPart elsePart : Exp} (ht : ExpTame test) (hp : ExpTame thenPart)
    (he : ExpTame elsePart) : ExpTame (.cond m test thenPart (some elsePart)) := fun ctx => by
  rw [checkExp]
  refine (ht ctx).bind fun t => (hp ctx).keep.bind fun p => (he ctx).keep.bind fun e => ?_
  refine .bind ((passive_cond _ _ _).tame.imp (fun h => ?_) fun _ h => h)
    fun ty => .pure id
  exact ⟨⟨h.1, h.2.1⟩, h.2.2 _ rfl⟩

theorem ExpTame.whileLoop {test body : Exp} (ht : ExpTame test) (hb : ExpTame body) :
    ExpTame (.whileLoop m test body) := fun ctx => by
  rw [checkExp]
  refine (ht ctx).bind fun t => (hb _).keep.bind fun b => ?_
  exact (passive_loop _ _).tame.bind fun ty => .pure id

theorem ExpTame.doWhile {body test : Exp} (hb : ExpTame body) (ht : ExpTame test) :
    ExpTame (.doWhile m body test) := fun ctx => by
  rw [checkExp]
  refine (hb _).bind fun b => (ht ctx).keep.bind fun t => ?_
  refine .bind ((passive_loop _ _).tame.imp And.symm fun _ h => h)
    fun ty => .pure id

theorem ExpTame.forLoop {counter : Ident} {low high body : Exp} {slot : Option VarId}
    (hl : ExpTame low) (hh : ExpTame high) (hb : ExpTame body) :
    ExpTame (.forLoop m counter low high body slot) := fun ctx => by
  rw [checkExp]
  refine (hl ctx).bind fun l => (hh ctx).keep.bind fun h => ?_
  refine (passive_bounds _ _).tame.bind fun fit => tame_enterValues.bind fun _ => ?_
  refine tame_alloc.bind fun slot => tame_bindValue.bind fun _ => ?_
  refine (hb _).keep.bind fun b => tame_exitValues.bind fun _ => .pure fun h => ?_
  simpa [Option.isSome_iff_ne_none] using (and_of_ite_ne_none h).1

theorem ExpTame.letIn {decs : List Dec} {body : Exp}
    (hds : ∀ ctx, Tame True (checkDecs ctx [] decs) (·.2 = true)) (hb : ExpTame body) :
    ExpTame (.letIn m decs body) := fun ctx => by
  rw [checkExp]
  refine tame_enterScopes.bind fun _ => (hds ctx).bind fun r => (hb ctx).keep.bind fun b => ?_
  exact tame_exitScopes.bind fun _ => .pure and_of_ite_ne_none

theorem ExpTame.array {typeName : Ident} {size init : Exp} (hz : ExpTame size) (hi : ExpTame init) :
    ExpTame (.array m typeName size init) := fun ctx => by
  rw [checkExp]
  refine (tame_typeOf typeName).bind fun ty => (hz ctx).keep.bind fun z =>
    (hi ctx).keep.bind fun i => ?_
  refine .bind ((passive_array _ _ _).tame.imp (fun h => ?_) fun _ h => h)
    fun ty => .pure id
  exact ⟨⟨h.1, h.2.1⟩, h.2.2⟩

/-! ## Declarations -/

theorem checkDec_tame (plan : Plan) {d : Dec} (h : d.Parts ExpTame) :
    Tame plan.Good (checkDec ctx plan d) (·.2 = true) := by
  cases plan with
  | dropped =>
    rw [checkDec_dropped]
    exact .pure nofun
  | typeBody id =>
    cases d with
    | type dec =>
      rw [checkDec]
      refine .bind (.of_true (tame_typeAt id) trivial) fun ty => .pure fun h => ?_
      simpa [Option.isSome_iff_ne_none] using h
    | function | var => exact .pure nofun
  | functionBody header =>
    cases d with
    | function head body loc f =>
      rw [checkDec]
      refine tame_enterValues.bind fun _ => (tame_bindParams _ _).bind fun _ => ?_
      refine (h _).keep.bind fun body => tame_exitValues.bind fun _ => tame_finalize.bind fun _ => ?_
      exact (passive_body _ _).tame.bind fun ok => .pure id
    | type | var => exact .pure nofun
  | «variable» first =>
    cases d with
    | var name typeName init loc slot =>
      rw [checkDec]
      refine tame_boundSince.bind fun bound => .ite ?_ ?_
      · exact tame_report.bind fun _ => .pure nofun
      · refine .of_true ((h ctx).bind fun init => ?_) trivial
        refine (tame_declared typeName _).bind fun r => ?_
        exact tame_alloc.bind fun slot => tame_bindValue.bind fun _ => .pure id
    | type | function => exact .pure nofun

/-- Check a declaration under the first of some plans, and the others under the rest. -/
def checkNext (ctx : Context) (plans : List Plan) (d : Dec) (ds : List Dec) :
    Check (List Dec × Bool) := do
  let (d, ok) ← checkDec ctx (plans.headD .dropped) d
  let (ds, oks) ← checkDecs ctx plans.tail ds
  return (d :: ds, ok && oks)

/-- A declaration is checked under a plan, and then something is done with the others. -/
theorem tame_checkDec_bind {d : Dec} {plan : Plan} {P : Prop} {m : Check (List Dec × Bool)}
    (hd : d.Parts ExpTame) (hm : Tame P m (·.2 = true)) :
    Tame (P ∧ plan.Good) (do
      let (d, ok) ← checkDec ctx plan d
      let (ds, oks) ← m
      return (d :: ds, ok && oks)) (·.2 = true) := by
  have hfirst : Tame (P ∧ plan.Good) (checkDec ctx plan d) fun r => P ∧ r.2 = true :=
    (checkDec_tame plan hd).frame
  refine hfirst.bind fun r => ?_
  have hrest : Tame (r.2 = true ∧ P) m fun s => r.2 = true ∧ s.2 = true := .frame hm
  exact .bind (hrest.imp And.symm fun _ h => h) fun s => .pure (by simp)

theorem checkNext_tame {d : Dec} {ds : List Dec} {plans : List Plan} (hd : d.Parts ExpTame)
    (hds : Tame (Plan.GoodFor ds.length plans.tail) (checkDecs ctx plans.tail ds)
      (·.2 = true)) :
    Tame (Plan.GoodFor (ds.length + 1) plans) (checkNext ctx plans d ds) (·.2 = true) :=
  (tame_checkDec_bind hd hds).imp (fun h => Plan.goodFor_succ h.2 h.1) fun _ h => h

/-- Declarations are checked as planned without a report, or not all of them are right. -/
theorem checkPlanned_tame {ds : List Dec} (h : ∀ d ∈ ds, d.Parts ExpTame) :
    ∀ plans, Tame (Plan.GoodFor ds.length plans) (checkPlanned ctx plans ds) (·.2 = true) := by
  induction ds with
  | nil =>
    intro plans
    rw [checkPlanned]
    · exact .pure fun _ => by simp [Plan.GoodFor]
    · simp
  | cons d ds ih =>
    obtain ⟨hd, hds⟩ := List.forall_mem_cons.mp h
    intro plans
    cases plans with
    | nil => exact .pure fun _ => by simp [Plan.GoodFor]
    | cons plan plans =>
      rw [checkPlanned]
      exact (tame_checkDec_bind hd (ih hds plans)).imp (fun h => Plan.goodFor_succ h.2 h.1) fun _ h => h

/-- **Declarations are checked without a report, or not all of them are right.** -/
theorem checkDecs_tame {ds : List Dec} (h : ∀ d ∈ ds, d.Parts ExpTame) :
    ∀ plans, Tame (Plan.GoodFor ds.length plans) (checkDecs ctx plans ds) (·.2 = true) := by
  induction ds with
  | nil =>
    intro plans
    rw [checkDecs]
    exact .pure fun _ => by simp [Plan.GoodFor]
  | cons d ds ih =>
    obtain ⟨hd, hds⟩ := List.forall_mem_cons.mp h
    intro plans
    cases plans with
    | nil =>
      rw [checkDecs_opens]
      refine .of_true (.bind (.of_run (tame_openRun _) fun c plans c' hrun hgood => ?_) fun plans =>
        checkNext_tame hd (ih hds _)) (by simp [Plan.GoodFor])
      have hlen : plans.length ≤ ds.length + 1 := by
        rw [length_of_openRun hrun, Dec.leadingRun, List.length_cons]
        exact Nat.succ_le_succ (List.takeWhile_prefix _).length_le
      rw [Plan.GoodFor, List.take_of_length_le hlen] at hgood
      exact hgood
    | cons plan plans =>
      rw [checkDecs_cons]
      exact checkNext_tame hd (ih hds (plan :: plans).tail)

/-! ## Variables -/

theorem VarTame.simple {name : String} {binding : Option VarId} :
    VarTame (.simple m name binding) := fun ctx => by
  rw [checkVar]
  exact (passive_simple (F := anyFault) trivial).tame.bind fun r => .pure id

theorem VarTame.field {base : Var} {name : Ident} {position : Option Nat} (hb : VarTame base) :
    VarTame (.field m base name position) := fun ctx => by
  rw [checkVar]
  exact (hb ctx).bind fun b => (passive_field _).tame.bind fun r => .pure id

theorem VarTame.element {base : Var} {index : Exp} (hb : VarTame base) (hi : ExpTame index) :
    VarTame (.element m base index) := fun ctx => by
  rw [checkVar]
  refine (hb ctx).bind fun b => (hi ctx).keep.bind fun i => ?_
  exact (passive_element _ _).tame.bind fun ty => .pure id

end

/-- **The walk is tame.** -/
theorem tames : Tree.Cases ExpTame VarTame (Dec.Parts ExpTame) where
  var _ _ := .var
  nil _ ctx := by
    rw [checkExp]
    exact .pure fun _ => trivial
  int _ _ ctx := by
    rw [checkExp]
    exact .pure fun _ => trivial
  string _ _ ctx := by
    rw [checkExp]
    exact .pure fun _ => trivial
  call _ _ _ _ := .call
  binary _ _ _ _ := .binary
  record _ _ _ := .record
  seq _ _ := .seq
  assign _ _ _ := .assign
  condNone _ _ _ := .condNone
  condSome _ _ _ _ := .condSome
  whileLoop _ _ _ := .whileLoop
  doWhile _ _ _ := .doWhile
  forLoop _ _ _ _ _ _ := .forLoop
  breakLoop _ ctx := by
    rw [checkExp]
    exact .ite (.bind (.pure fun _ => trivial) fun ty => .pure id)
      (.bind tame_fail fun ty => .pure id)
  letIn _ _ _ hds := .letIn fun ctx =>
    (checkDecs_tame hds []).imp (fun _ => trivial) fun _ h => h
  array _ _ _ _ := .array
  simple _ _ _ := .simple
  field _ _ _ _ := .field
  element _ _ _ := .element
  type _ := trivial
  function _ _ _ _ h := h
  varDec _ _ _ _ _ h := h

theorem expTame (e : Exp) : ExpTame e := tames.all.1 e

theorem decTame (d : Dec) : d.Parts ExpTame := tames.all.2.2 d

/-- Checking a program is tame: a type means that nothing was reported. -/
theorem checkProgram_tame (p : Program) :
    Tame True (checkProgram p) (·.body.ty ≠ none) :=
  .get (fun _ _ => rfl) fun _ => (expTame p.body _).bind fun _ => tame_finalize.bind fun _ => .pure id

end TigerCheck
