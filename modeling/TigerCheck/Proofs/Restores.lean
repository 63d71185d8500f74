import TigerCheck.Proofs.Failure
import TigerCheck.Proofs.Final
import TigerCheck.Proofs.TypeName.Works
import TigerCheck.Proofs.Walk.Arrives
import TigerCheck.Proofs.Walk.Variables

/-!
# A check leaves the scopes as they were

Lets, loops with a counter and bodies of functions open scopes and close them again, each in its own choice
of the three tables, and what is declared goes to the innermost scopes. So behind an expression the scopes
are those before it, whatever was found on the way; what was there stays, and new slots went to the frame of
the expression or to frames of its own.

* `Check.Moves.inValues`, `Check.Moves.inBlock`: an action in a scope of its own.
* `ExpRestores`, `VarRestores`: the check of an expression, and of a variable.
* `moves_checkDecs`: declarations, which bind names in the innermost scopes.
* **`restores_exp`**: every expression.
* **`checkExp_restores`**: what an expression leaves behind, in the states of a checker.
-/

namespace TigerCheck

open Check

/-! ## Scopes of their own -/

namespace Check

variable {α β : Type} {n : ℕ} {f : FrameId} {m : Check α} {k : α → Check β} {P : α → Prop} {Q : β → Prop}

/-- An action between the opening and the closing of a scope of variables. -/
theorem Moves.inValues (hm : Moves n f Checker.SameBesideValues m P)
    (hk : ∀ a, P a → Moves n f Checker.SameScopes (k a) Q) :
    Moves n f Checker.SameScopes (do
      enterValues
      let a ← m
      exitValues
      k a) Q := by
  intro c b c' hn hrun
  obtain ⟨_, c₁, h₁, h⟩ := exists_of_run_bind hrun
  obtain ⟨a, c₂, h₂, h⟩ := exists_of_run_bind h
  obtain ⟨_, c₃, h₃, h⟩ := exists_of_run_bind h
  obtain rfl := eq_of_run_enterValues h₁
  obtain ⟨hl, hs, ha⟩ := hm (c := { c with values := c.values.enter }) hn h₂
  obtain rfl : c₃ = { c₂ with values := c.values } :=
    (yields_exitValues.mpr ⟨_, Scopes.exit_of_outer hs.values, rfl⟩ :
      Yields _ _ fun _ d => d = { c₂ with values := c.values }).of_run h₃
  have hl₃ : c.Leaves n f { c₂ with values := c.values } := { hl with }
  obtain ⟨hl', hs', hb⟩ := hk a ha (Nat.le_trans hn hl₃.frames.size_le) h
  exact ⟨hl₃.trans hl', ⟨hs'.values_eq, hs'.typeNames_eq.trans hs.typeNames,
    hs'.functions_eq.trans hs.functions⟩, hb⟩

/-- An action between the opening and the closing of a scope in each namespace. -/
theorem Moves.inBlock (hm : Moves n f Checker.SameOuter m P)
    (hk : ∀ a, P a → Moves n f Checker.SameScopes (k a) Q) :
    Moves n f Checker.SameScopes (do
      enterScopes
      let a ← m
      exitScopes
      k a) Q := by
  intro c b c' hn hrun
  obtain ⟨_, c₁, h₁, h⟩ := exists_of_run_bind hrun
  obtain ⟨a, c₂, h₂, h⟩ := exists_of_run_bind h
  obtain ⟨_, c₃, h₃, h⟩ := exists_of_run_bind h
  obtain rfl := Checker.eq_of_run_enterScopes h₁
  obtain ⟨hl, hs, ha⟩ := hm (c := c.entered) hn h₂
  obtain rfl : c₃ = c₂.leftTo c :=
    (yields_exitScopes.mpr ⟨_, _, _, Scopes.exit_of_outer hs.functions, Scopes.exit_of_outer hs.values,
      Scopes.exit_of_outer hs.typeNames, rfl⟩ : Yields _ _ fun _ d => d = c₂.leftTo c).of_run h₃
  have hl₃ : c.Leaves n f (c₂.leftTo c) := { hl with }
  obtain ⟨hl', hs', hb⟩ := hk a ha (Nat.le_trans hn hl₃.frames.size_le) h
  exact ⟨hl₃.trans hl', ⟨hs'.values_eq, hs'.typeNames_eq, hs'.functions_eq⟩, hb⟩

end Check

/-! ## Expressions -/

/-- The check of an expression leaves everything alone but its frame and what comes later. -/
def ExpRestores (e : Exp) : Prop := ∀ (n : ℕ) (ctx : Context), Restores n ctx.frame (checkExp ctx e)

/-- The check of a variable leaves everything alone but its frame and what comes later. -/
def VarRestores (v : Var) : Prop := ∀ (n : ℕ) (ctx : Context), Restores n ctx.frame (checkVar ctx v)

section

variable {n : ℕ} {ctx : Context} {m : Mark}

theorem restores_checkEach {es : List Exp} (h : ∀ e ∈ es, ExpRestores e) :
    ∀ params, Restores n ctx.frame (checkEach ctx params es) := by
  induction es with
  | nil =>
    intro params
    rw [checkEach]
    exact .pure trivial
  | cons e es ih =>
    intro params
    obtain ⟨he, hes⟩ := List.forall_mem_cons.mp h
    rw [checkEach]
    refine (he n ctx).andThen fun e' => (restores_of_passive (passive_arg _ _)).andThen fun ok => ?_
    exact (ih hes _).andThen fun r => .pure trivial

theorem restores_checkInits {loc : Location} {typeName : String} {inits : List (Ident × Exp)}
    (h : ∀ i ∈ inits, ExpRestores i.2) :
    ∀ fields, Restores n ctx.frame (checkInits ctx loc typeName fields inits) := by
  induction inits with
  | nil =>
    intro fields
    rw [checkInits]
    exact .pure trivial
  | cons i inits ih =>
    intro fields
    obtain ⟨hi, hinits⟩ := List.forall_mem_cons.mp h
    obtain ⟨name, e⟩ := i
    rw [checkInits]
    refine (restores_of_passive (passive_place fields)).andThen fun fields => (hi n ctx).andThen fun e' => ?_
    refine (restores_of_passive (passive_init _ _)).andThen fun ok => ?_
    exact (ih hinits _).andThen fun r => .pure trivial

theorem ExpRestores.var {v : Var} (hv : VarRestores v) : ExpRestores (.var m v) := fun n ctx => by
  rw [checkExp]
  exact (hv n ctx).andThen fun v => .pure trivial

theorem ExpRestores.call {callee : Ident} {args : List Exp} {function : Option FunctionId}
    (h : ∀ e ∈ args, ExpRestores e) : ExpRestores (.call m callee args function) := fun n ctx => by
  rw [checkExp]
  have htarget : Passive anyFault True (Rule.target? callee.name) fun _ => True := passive_target callee.name
  refine (restores_of_passive htarget).andThen fun target => (restores_checkEach h _).andThen fun r => ?_
  have hcall : Passive anyFault (r.2 = true) (Rule.call m.loc callee target r.1.length r.2) (· ≠ none) :=
    passive_call (fun _ _ => trivial) target fun _ => trivial
  exact (restores_of_passive hcall).andThen fun ty => .pure trivial

theorem ExpRestores.binary {op : BinOp} {left right : Exp} (hl : ExpRestores left) (hr : ExpRestores right) :
    ExpRestores (.binary m op left right) := fun n ctx => by
  rw [checkExp]
  refine (hl n ctx).andThen fun l => (hr n ctx).andThen fun r => ?_
  exact (restores_of_passive (passive_binary _ _)).andThen fun ty => .pure trivial

theorem ExpRestores.record {typeName : Ident} {inits : List (Ident × Exp)}
    (h : ∀ i ∈ inits, ExpRestores i.2) : ExpRestores (.record m typeName inits) := fun n ctx => by
  rw [checkExp]
  refine (restores_typeOf typeName).andThen fun ty => ?_
  refine (restores_of_passive (passive_recordFields ty)).andThen fun fields => ?_
  exact (restores_checkInits h fields).andThen fun r => .pure trivial

theorem ExpRestores.seq {items : List Exp} (h : ∀ e ∈ items, ExpRestores e) :
    ExpRestores (.seq m items) := fun n ctx => by
  rw [checkExp]
  exact (restores_checkEach h _).andThen fun r => .pure trivial

theorem ExpRestores.assign {target : Var} {value : Exp} (ht : VarRestores target) (hv : ExpRestores value) :
    ExpRestores (.assign m target value) := fun n ctx => by
  rw [checkExp]
  refine (ht n ctx).andThen fun t => (hv n ctx).andThen fun v => ?_
  exact (restores_of_passive (passive_assign _ _)).andThen fun ty => .pure trivial

theorem ExpRestores.condNone {test thenPart : Exp} (ht : ExpRestores test) (hp : ExpRestores thenPart) :
    ExpRestores (.cond m test thenPart none) := fun n ctx => by
  rw [checkExp]
  refine (ht n ctx).andThen fun t => (hp n ctx).andThen fun p => ?_
  exact (restores_of_passive (passive_cond _ _ _)).andThen fun ty => .pure trivial

theorem ExpRestores.condSome {test thenPart elsePart : Exp} (ht : ExpRestores test)
    (hp : ExpRestores thenPart) (he : ExpRestores elsePart) :
    ExpRestores (.cond m test thenPart (some elsePart)) := fun n ctx => by
  rw [checkExp]
  refine (ht n ctx).andThen fun t => (hp n ctx).andThen fun p => (he n ctx).andThen fun e => ?_
  exact (restores_of_passive (passive_cond _ _ _)).andThen fun ty => .pure trivial

/-- The body of a loop is checked in the frame of the loop. -/
theorem ExpRestores.whileLoop {test body : Exp} (ht : ExpRestores test) (hb : ExpRestores body) :
    ExpRestores (.whileLoop m test body) := fun n ctx => by
  rw [checkExp]
  refine (ht n ctx).andThen fun t => (hb n ctx.enterLoop).andThen fun b => ?_
  exact (restores_of_passive (passive_loop _ _)).andThen fun ty => .pure trivial

theorem ExpRestores.doWhile {body test : Exp} (hb : ExpRestores body) (ht : ExpRestores test) :
    ExpRestores (.doWhile m body test) := fun n ctx => by
  rw [checkExp]
  refine (hb n ctx.enterLoop).andThen fun b => (ht n ctx).andThen fun t => ?_
  exact (restores_of_passive (passive_loop _ _)).andThen fun ty => .pure trivial

/-- The scope of the counter is closed behind the body. -/
theorem ExpRestores.forLoop {counter : Ident} {low high body : Exp} {slot : Option VarId}
    (hl : ExpRestores low) (hh : ExpRestores high) (hb : ExpRestores body) :
    ExpRestores (.forLoop m counter low high body slot) := fun n ctx => by
  rw [checkExp]
  refine (hl n ctx).andThen fun l => (hh n ctx).andThen fun h => ?_
  refine (restores_of_passive (passive_bounds _ _)).andThen fun fit => ?_
  have hscope : Moves n ctx.frame Checker.SameBesideValues (do
      let slot ← alloc ctx.frame counter.name (some .int) .loopCounter
      bindValue counter.name slot
      let body ← checkExp ctx.enterLoop body
      return (slot, body)) fun _ => True := by
    refine (restores_alloc.mono (·.besideValues) fun _ h => h).andThen fun slot => ?_
    refine moves_bindValue.andThen fun _ => ?_
    exact ((hb n ctx.enterLoop).mono (·.besideValues) fun _ h => h).andThen fun b => .pure trivial
  have hloop := hscope.inValues (Q := fun _ => True) (k := fun r =>
    pure (Exp.forLoop (m.typed (if fit && r.2.ty.isSome then some .void else none)) counter l h r.2
      (some r.1))) fun _ _ => .pure trivial
  simpa only [bind_assoc, pure_bind] using hloop

theorem ExpRestores.array {typeName : Ident} {size init : Exp} (hz : ExpRestores size)
    (hi : ExpRestores init) : ExpRestores (.array m typeName size init) := fun n ctx => by
  rw [checkExp]
  refine (restores_typeOf typeName).andThen fun ty => (hz n ctx).andThen fun z => ?_
  refine (hi n ctx).andThen fun i => ?_
  exact (restores_of_passive (passive_array _ _ _)).andThen fun ty => .pure trivial

/-! ## Declarations -/

/-- The frame of a function that is planned comes after the first `n`. -/
def Plan.Later (n : ℕ) : Plan → Prop
  | .functionBody header => n ≤ header.frame.index
  | .dropped | .typeBody _ | .variable _ => True

theorem restores_declareParams {g : FrameId} : ∀ ps : List TypedName, Restores n g (declareParams g ps)
  | [] => .pure trivial
  | p :: ps => (restores_typeOf p.typeName).andThen fun _ => restores_alloc.andThen fun _ =>
      (restores_declareParams ps).andThen fun _ => .pure trivial

/-- The frame of a function is a new one, and everything that belongs to the function goes there. -/
theorem moves_declareFunction {f : FrameId} {head : FunctionHead} :
    Moves n f Checker.SameOuter (declareFunction ctx head) fun h => n ≤ h.frame.index := by
  unfold declareFunction
  refine .ite ?_ .throw
  refine (moves_newFrame.mono (·.outer) fun _ h => h).bind fun g hg => ?_
  refine ((restores_alloc.of_later hg).mono (·.outer) fun _ h => h).andThen fun staticLink => ?_
  refine (((restores_declareParams head.params).of_later hg).mono (·.outer) fun _ h => h).andThen fun r => ?_
  have hresult : Restores n f (declaredResult head.result) := by
    cases head.result with
    | none => exact .pure trivial
    | some result => exact restores_typeOf result
  refine (hresult.mono (·.outer) fun _ h => h).andThen fun result => ?_
  refine moves_addFunction.andThen fun id => ?_
  exact (restores_log.mono (·.outer) fun _ h => h).andThen fun _ => .pure hg

theorem moves_bindHeaders {f : FrameId} : ∀ (ds : List Dec) (seen : List String),
    Moves n f Checker.SameOuter (bindHeaders ctx seen ds) fun plans => ∀ p ∈ plans, p.Later n
  | [], _ => .pure (List.forall_mem_nil _)
  | d :: ds, seen => by
    have hrest (plan : Plan) (seen : List String) (h : plan.Later n) : Moves n f Checker.SameOuter
        (do return plan :: (← bindHeaders ctx seen ds)) fun plans => ∀ p ∈ plans, p.Later n :=
      (moves_bindHeaders ds seen).bind fun plans hplans => .pure (List.forall_mem_cons.mpr ⟨h, hplans⟩)
    rw [bindHeaders]
    refine .ite ?_ ?_
    · exact (restores_report.mono (·.outer) fun _ h => h).andThen fun _ => hrest .dropped seen trivial
    · cases d with
      | type dec =>
        refine Moves.bind (P := Plan.Later n) (moves_declareType.map fun _ _ => trivial) fun plan h => ?_
        exact hrest plan _ h
      | function head body loc id =>
        refine Moves.bind (P := Plan.Later n) (moves_declareFunction.map fun _ h => h) fun plan h => ?_
        exact hrest plan _ h
      | var name typeName init loc slot =>
        exact Moves.bind (P := Plan.Later n) (.pure trivial) fun plan h => hrest plan _ h

theorem moves_openRun {f : FrameId} (run : List Dec) :
    Moves n f Checker.SameOuter (openRun ctx run) fun plans => ∀ p ∈ plans, p.Later n := by
  cases run with
  | nil => exact .pure (List.forall_mem_nil _)
  | cons d ds =>
    rw [openRun_cons]
    refine (restores_log.mono (·.outer) fun _ h => h).andThen fun _ => .ite ?_ (moves_bindHeaders _ _)
    refine .get fun c => .pure fun p hp => ?_
    obtain ⟨_, -, rfl⟩ := List.mem_map.mp hp
    trivial

/-- The body of a function is checked in a scope of its own, and in the frame of the function. -/
theorem restores_functionBody {header : Header} {head : FunctionHead} {body : Exp} {loc : Location}
    {id : Option FunctionId} (hb : ExpRestores body) (hh : n ≤ header.frame.index) :
    Restores n ctx.frame (checkDec ctx (.functionBody header) (.function head body loc id)) := by
  rw [checkDec]
  have hscope : Moves n ctx.frame Checker.SameBesideValues (do
      bindParams head.params header.params
      checkExp ⟨header.level, header.frame, 0⟩ body) fun _ => True := by
    refine (moves_bindParams _ _).andThen fun _ => ?_
    exact ((hb n ⟨header.level, header.frame, 0⟩).of_later hh).mono (·.besideValues) fun _ h => h
  have hbody := hscope.inValues (Q := fun _ => True) (k := fun body => do
      finalize header.frame
      let ok ← Rule.body header.result body.mark
      return (Dec.function head body loc (some header.id), ok)) fun body _ =>
    (restores_finalize hh).andThen fun _ =>
      (restores_of_passive (passive_body _ _)).andThen fun ok => .pure trivial
  simpa only [bind_assoc, pure_bind] using hbody

theorem restores_declared (typeName : Option Ident) (init : Mark) (literal : Bool) {f : FrameId} :
    Restores n f (Rule.declared typeName init literal) := by
  cases typeName with
  | none => exact restores_of_passive (passive_inferred init)
  | some typeName =>
    change Restores n f (Rule.annotated typeName init literal)
    rw [Rule.annotated_eq]
    exact (restores_typeOf typeName).andThen fun declared => restores_of_passive (passive_against declared init)

theorem restores_boundSince {first : ℕ} {name : String} {f : FrameId} :
    Restores n f (boundSince first name) := by
  refine .get fun c => ?_
  split
  · exact .pure trivial
  · exact .pure trivial

theorem moves_checkDec {plan : Plan} {d : Dec} (h : d.Parts ExpRestores) (hplan : plan.Later n) :
    Moves n ctx.frame Checker.SameOuter (checkDec ctx plan d) fun _ => True := by
  cases plan with
  | dropped =>
    rw [checkDec_dropped]
    exact .pure trivial
  | typeBody id =>
    cases d with
    | type dec =>
      rw [checkDec]
      exact ((restores_typeAt id).mono (·.outer) fun _ h => h).andThen fun ty => .pure trivial
    | function | var => exact .pure trivial
  | functionBody header =>
    cases d with
    | function head body loc id => exact (restores_functionBody h hplan).mono (·.outer) fun _ h => h
    | type | var => exact .pure trivial
  | «variable» first =>
    cases d with
    | var name typeName init loc slot =>
      rw [checkDec]
      refine (restores_boundSince.mono (·.outer) fun _ h => h).andThen fun bound => .ite ?_ ?_
      · exact (restores_report.mono (·.outer) fun _ h => h).andThen fun _ => .pure trivial
      · refine ((h n ctx).mono (·.outer) fun _ h => h).andThen fun init => ?_
        refine ((restores_declared typeName _ _).mono (·.outer) fun _ h => h).andThen fun r => ?_
        refine (restores_alloc.mono (·.outer) fun _ h => h).andThen fun slot => ?_
        exact (moves_bindValue.mono (·.outer) fun _ h => h).andThen fun _ => .pure trivial
    | type | function => exact .pure trivial

/-- **Declarations bind names in the innermost scopes**, and leave everything else alone. -/
theorem moves_checkDecs {ds : List Dec} (h : ∀ d ∈ ds, d.Parts ExpRestores) :
    ∀ plans : List Plan, (∀ p ∈ plans, p.Later n) →
      Moves n ctx.frame Checker.SameOuter (checkDecs ctx plans ds) fun _ => True := by
  induction ds with
  | nil =>
    intro plans _
    rw [checkDecs]
    exact .pure trivial
  | cons d ds ih =>
    obtain ⟨hd, hds⟩ := List.forall_mem_cons.mp h
    intro plans hplans
    cases plans with
    | nil =>
      rw [checkDecs_opens]
      refine (moves_openRun _).bind fun plans hplans => ?_
      have hfirst : (plans.headD .dropped).Later n := by
        cases plans with
        | nil => trivial
        | cons plan plans => exact hplans plan List.mem_cons_self
      refine (moves_checkDec hd hfirst).andThen fun r => ?_
      exact (ih hds plans.tail fun p hp => hplans p (List.mem_of_mem_tail hp)).andThen fun s => .pure trivial
    | cons plan plans =>
      obtain ⟨hplan, hrest⟩ := List.forall_mem_cons.mp hplans
      rw [checkDecs_cons]
      exact (moves_checkDec hd hplan).andThen fun r => (ih hds plans hrest).andThen fun s => .pure trivial

/-- The scopes of a block are closed behind its body. -/
theorem ExpRestores.letIn {decs : List Dec} {body : Exp} (hds : ∀ d ∈ decs, d.Parts ExpRestores)
    (hb : ExpRestores body) : ExpRestores (.letIn m decs body) := fun n ctx => by
  rw [checkExp]
  have hscope : Moves n ctx.frame Checker.SameOuter (do
      let r ← checkDecs ctx [] decs
      let body ← checkExp ctx body
      return (r, body)) fun _ => True := by
    refine (moves_checkDecs hds [] (List.forall_mem_nil _)).andThen fun r => ?_
    exact ((hb n ctx).mono (·.outer) fun _ h => h).andThen fun b => .pure trivial
  have hblock := hscope.inBlock (Q := fun _ => True) (k := fun r =>
    pure (Exp.letIn (m.typed (if r.1.2 then r.2.ty else none)) r.1.1 r.2)) fun _ _ => .pure trivial
  simpa only [bind_assoc, pure_bind] using hblock

/-! ## Variables -/

theorem VarRestores.simple {name : String} {binding : Option VarId} :
    VarRestores (.simple m name binding) := fun n ctx => by
  rw [checkVar]
  have hrule : Passive anyFault True (Rule.simple m.loc name) (·.2 ≠ none) := passive_simple trivial
  exact (restores_of_passive hrule).andThen fun r => .pure trivial

theorem VarRestores.field {base : Var} {name : Ident} {position : Option ℕ} (hb : VarRestores base) :
    VarRestores (.field m base name position) := fun n ctx => by
  rw [checkVar]
  exact (hb n ctx).andThen fun b => (restores_of_passive (passive_field _)).andThen fun r => .pure trivial

theorem VarRestores.element {base : Var} {index : Exp} (hb : VarRestores base) (hi : ExpRestores index) :
    VarRestores (.element m base index) := fun n ctx => by
  rw [checkVar]
  refine (hb n ctx).andThen fun b => (hi n ctx).andThen fun i => ?_
  exact (restores_of_passive (passive_element _ _)).andThen fun ty => .pure trivial

end

theorem restores : Tree.Cases ExpRestores VarRestores (Dec.Parts ExpRestores) where
  var _ _ := .var
  nil _ n ctx := by
    rw [checkExp]
    exact .pure trivial
  int _ _ n ctx := by
    rw [checkExp]
    exact .pure trivial
  string _ _ n ctx := by
    rw [checkExp]
    exact .pure trivial
  call _ _ _ _ := .call
  binary _ _ _ _ := .binary
  record _ _ _ := .record
  seq _ _ := .seq
  assign _ _ _ := .assign
  condNone _ _ _ := .condNone
  condSome _ _ _ _ := .condSome
  whileLoop _ _ _ := .whileLoop
  doWhile _ _ _ := .doWhile
  forLoop _ _ _ _ _ _ := .forLoop
  breakLoop _ n ctx := by
    rw [checkExp]
    refine .ite ?_ ?_
    · exact Moves.andThen (.pure trivial) fun ty => .pure trivial
    · exact restores_fail.andThen fun ty => .pure trivial
  letIn _ _ _ := .letIn
  array _ _ _ _ := .array
  simple _ _ _ := .simple
  field _ _ _ _ := .field
  element _ _ _ := .element
  type _ := trivial
  function _ _ _ _ h := h
  varDec _ _ _ _ _ h := h

/-- **The check of an expression restores the scopes**, in whatever state and at whatever place it is made. -/
theorem restores_exp (e : Exp) : ExpRestores e := restores.all.1 e

/-! ## What was there before -/

namespace Checker

variable {f : FrameId} {c c' : Checker}

/-- Behind an expression that was checked in some frame: the scopes are those before it, binding by binding;
what was reported and what was in the tables is still there, in front of what is new; and frames are as they
were, but that the frame of the expression may have further slots. -/
structure Restored (f : FrameId) (c c' : Checker) : Prop where
  values_eq : c'.values = c.values
  typeNames_eq : c'.typeNames = c.typeNames
  functions_eq : c'.functions = c.functions
  diagnostics : c.diagnostics.entries.toList <+: c'.diagnostics.entries.toList
  slots : c.frames.vars.toList <+: c'.frames.vars.toList
  prototypes : c.frames.functions.toList <+: c'.frames.functions.toList
  namedTypes : c.Settled → c.namedTypes.toList <+: c'.namedTypes.toList
  frames : ∀ (g : FrameId) fr, c.frames.frames[g.index]? = some fr →
    ∃ fr', c'.frames.frames[g.index]? = some fr' ∧ fr'.name = fr.name ∧ fr'.level = fr.level ∧
      fr'.parent = fr.parent ∧ fr.slots.toList <+: fr'.slots.toList ∧ (g ≠ f → fr' = fr)

theorem Leaves.namedTypes {n : ℕ} (h : c.Leaves n f c') (hc : c.Settled) :
    c.namedTypes.toList <+: c'.namedTypes.toList := by
  rw [List.prefix_iff_getElem?]
  intro i hi
  rw [Array.length_toList] at hi
  have hstatus : c.status ⟨i⟩ = some c.namedTypes[i] := Array.getElem?_eq_getElem hi
  have hkept := h.settled ⟨i⟩ _ hstatus fun dec o heq => hc ⟨i⟩ dec o (heq ▸ hstatus)
  simpa [status] using hkept

theorem Leaves.restored (h : c.Leaves c.frames.frames.size f c') (hs : c.SameScopes c') : c.Restored f c' where
  values_eq := hs.values_eq
  typeNames_eq := hs.typeNames_eq
  functions_eq := hs.functions_eq
  diagnostics := h.diagnostics
  slots := h.slots
  prototypes := h.prototypes
  namedTypes := h.namedTypes
  frames g fr hfr := by
    have hlt := (Array.getElem?_eq_some_iff.mp hfr).1
    by_cases hg : g = f
    · subst hg
      obtain ⟨vs, hvs⟩ := h.frames.own hlt fr hfr
      exact ⟨_, hvs, rfl, rfl, rfl, by simp, fun hne => absurd rfl hne⟩
    · exact ⟨fr, (h.frames.others g hlt hg hlt).trans hfr, rfl, rfl, rfl, List.prefix_rfl, fun _ => rfl⟩

/-- Between two requests every type name is settled. -/
theorem Idle.settled (h : c.Idle) : c.Settled := h.sound.rest.settled

end Checker

/-- A block with a function, whose body is a name that nothing binds as a variable. -/
def namedAfterFunction : Exp :=
  .letIn {} [.function ⟨⟨"f", .unknown⟩, [], none⟩ (.seq {} []) .unknown none] (.var {} (.simple {} "f" none))

end TigerCheck
