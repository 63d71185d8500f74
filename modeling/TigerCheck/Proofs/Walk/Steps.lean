import TigerCheck.Proofs.Walk.Dec
import TigerCheck.Proofs.Walk.Forms

/-!
# The steps of a check that ended

A check that ended went through the ends of its steps. The states between them are walked states. For the
forms of nodes that open scopes or append to frames these steps are told exactly: which states lie between
them, and what the last one adds.

* `walked_exp`, `walked_var`, `walked_typeOf`: behind a part, and behind a name.
* `declared_run`, `declared_decs`: behind a run of declarations, and behind those of a block.
* `exists_of_run_forLoop`, `exists_of_run_letIn`: loops with a counter, and let blocks.
* `exists_of_run_bodyOf`: the body of a function.
* `exists_of_run_declareFunction`: binding a function.
-/

namespace TigerCheck

open Check

variable {ctx : Context} {c c' : Checker}

/-! ## Between the steps -/

section

variable {e e' : Exp} {v v' : Var} {name : Ident} {ty : Option Ty}

/-- An expression that was checked is behind the walk. -/
theorem walked_exp (hc : c.Sound) (hs : ctx.Sits c) (h : (checkExp ctx e).run c = .ok (e', c')) :
    c.Walked c' ∧ ∀ t, e'.ty = some t → c'.types.Has t :=
  have hend := (expWalks e ctx c hc hs).of_run h
  ⟨hend.walked, hend.has⟩

theorem walked_var (hc : c.Sound) (hs : ctx.Sits c) (h : (checkVar ctx v).run c = .ok (v', c')) :
    c.Walked c' ∧ ∀ t, v'.ty = some t → c'.types.Has t :=
  have hend := (walks.all.2.1 v ctx c hc hs).of_run h
  ⟨hend.walked, hend.has⟩

theorem walked_typeOf (hc : c.Sound) (h : (typeOf name).run c = .ok (ty, c')) :
    c.Walked c' ∧ ∀ t, ty = some t → c'.types.Has t :=
  have hend := (yields_typeOf hc.rest name).of_run h
  have hw := hend.toSays.walked hc
  ⟨hw, fun _ ht => hw.has (hc.rest.has_typeNamed (hend.some_iff.mp ht))⟩

end

/-- Looking a function up changes nothing. -/
theorem eq_of_run_target {name : String} {target : Option Rule.Target} (hc : c.Sound)
    (h : (Rule.target? name).run c = .ok (target, c')) : c' = c := by
  refine ((Rule.yields_target? name fun id hid => ?_).of_run h).1
  obtain ⟨p, hp⟩ := hc.functions _ id hid
  exact ⟨p, hp, fun sig hsig => (hc.signatures id p sig hp hsig).1⟩

/-! ## Behind declarations -/

section

variable {d : Dec} {ds run : List Dec} {plans : List Plan} {c₀ c₁ : Checker}

/-- The functions of a run were bound when the run was opened. -/
theorem bindsFunctions_of_openRun (hk : ∀ e ∈ d :: run, e.kind = .function) (hc : c.Sound) (hs : ctx.Sits c)
    (hopen : (openRun ctx (d :: run)).run c = .ok (plans, c₁)) :
    BindsFunctions ctx [] (d :: run) (c.note (.run d.kind (run.length + 1))) plans c₁ := by
  have hw := Checker.walked_note hc (.run d.kind (run.length + 1))
  have hbind := run_bindHeaders_of_openRun (by rw [hk d List.mem_cons_self]; decide) hopen
  exact (yieldsOr_bindFunctions hk [] _ hw.sound (hs.walked hw)).of_run hbind

theorem walked_functionBody {h : Header} {head : FunctionHead} {body : Exp} {loc : Location}
    {id : Option FunctionId} {r : Dec × Bool} (hc : c.Sound) (hs : ctx.Sits c) (hfits : h.Fits ctx head c)
    (hrun : (checkDec ctx (.functionBody h) (.function head body loc id)).run c = .ok (r, c')) :
    c.Walked c' := ((yieldsOr_functionBody (expWalks body) hc hs hfits).of_run hrun).1

theorem walked_functionBodies {r : List Dec × Bool} (hc₀ : c₀.Sound)
    (hfits : List.Forall₂ (Plan.Fits ctx c₀) plans ds) (hw : c₀.Walked c) (hs : ctx.Sits c)
    (hrun : (checkPlanned ctx plans ds).run c = .ok (r, c')) : c.Walked c' :=
  ((yieldsOr_functionBodies hc₀ hfits (fun e _ => walks.all.2.2 e) c hw hs).of_run hrun).1

theorem declared_variable {first : ℕ} {name : Ident} {typeName : Option Ident} {init : Exp} {loc : Location}
    {slot : Option VarId} {r : Dec × Bool} (hc : c.Sound) (hs : ctx.Sits c)
    (hrun : (checkDec ctx (.variable first) (.var name typeName init loc slot)).run c = .ok (r, c')) :
    c.Declared ctx c' := ((yieldsOr_variable (expWalks init) hc hs).of_run hrun).declared

theorem declared_variables {first : ℕ} {r : List Dec × Bool} (hk : ∀ e ∈ ds, e.kind = .var) (hc : c.Sound)
    (hs : ctx.Sits c) (hrun : (checkPlanned ctx (ds.map fun _ => .variable first) ds).run c = .ok (r, c')) :
    c.Declared ctx c' :=
  ((yieldsOr_variables first hk (fun e _ => walks.all.2.2 e) c hc hs).of_run hrun).declared

/-- Behind a run, of whatever kind it is. -/
theorem declared_run {r : List Dec × Bool} (hk : ∀ e ∈ d :: run, e.kind = d.kind) (hc : c.Sound)
    (hs : ctx.Sits c) (hopen : (openRun ctx (d :: run)).run c = .ok (plans, c₁))
    (hrun : (checkPlanned ctx plans (d :: run)).run c₁ = .ok (r, c')) : c.Declared ctx c' :=
  (((yieldsOr_run hk (fun e _ => walks.all.2.2 e) hc hs).of_run hopen).2.of_run hrun).declared

/-- Behind the declarations of a block. -/
theorem declared_decs {r : List Dec × Bool} (hc : c.Sound) (hs : ctx.Sits c)
    (hrun : (checkDecs ctx [] ds).run c = .ok (r, c')) : c.Declared ctx c' :=
  ((yieldsOr_declarations ds (fun e _ => walks.all.2.2 e) c hc hs).of_run hrun).declared

end

/-! ## Scopes -/

/-- The state in which the body of a loop with a counter is checked. -/
def Checker.counting (c : Checker) (name : String) (v : VarId) (frames : FrameTable) : Checker :=
  { c with frames, values := c.values.enter.bind name v }

/-- **The steps of a loop with a counter**: its bounds, the slot of the counter, and the body in a scope with
the counter. -/
theorem exists_of_run_forLoop {m : Mark} {counter : Ident} {low high body e' : Exp}
    {slot : Option VarId} (hc : c.Sound) (hs : ctx.Sits c)
    (h : (checkExp ctx (.forLoop m counter low high body slot)).run c = .ok (e', c')) :
    ∃ low' c₁ high' c₂ fit c₃ v frames body' c₄, (checkExp ctx low).run c = .ok (low', c₁) ∧
      (checkExp ctx high).run c₁ = .ok (high', c₂) ∧
      (Rule.bounds m.loc low'.ty high'.ty).run c₂ = .ok (fit, c₃) ∧
      c₃.frames.alloc ctx.frame counter.name (some .int) .loopCounter = .ok (v, frames) ∧
      (c₃.counting counter.name v frames).Sound ∧ ctx.enterLoop.Sits (c₃.counting counter.name v frames) ∧
      c₃.Extends (c₃.counting counter.name v frames) ∧
      (checkExp ctx.enterLoop body).run (c₃.counting counter.name v frames) = .ok (body', c₄) ∧
      c' = { c₄ with values := c₃.values } ∧
      e' = .forLoop (m.typed (if fit && body'.ty.isSome then some .void else none)) counter low' high' body'
        (some v) := by
  rw [checkExp] at h
  obtain ⟨low', c₁, h₁, h⟩ := exists_of_run_bind h
  obtain ⟨high', c₂, h₂, h⟩ := exists_of_run_bind h
  obtain ⟨fit, c₃, h₃, h⟩ := exists_of_run_bind h
  obtain ⟨_, c₄, h₄, h⟩ := exists_of_run_bind h
  obtain ⟨v, c₅, h₅, h⟩ := exists_of_run_bind h
  obtain ⟨_, c₆, h₆, h⟩ := exists_of_run_bind h
  obtain ⟨body', c₇, h₇, h⟩ := exists_of_run_bind h
  obtain ⟨_, c₈, h₈, h⟩ := exists_of_run_bind h
  cases h
  obtain ⟨hw₁, -⟩ := walked_exp hc hs h₁
  obtain ⟨hw₂, -⟩ := walked_exp hw₁.sound (hs.walked hw₁) h₂
  have hw₃ := (Rule.yields_bounds.of_run h₃).toSays.walked hw₂.sound
  have hcounter := hw₃.sound.counter (((hs.walked hw₁).walked hw₂).walked hw₃) counter.name
  simp only [yields_bind, yields_pure] at hcounter
  obtain ⟨hc₆, hs₆, hg₆, -⟩ := ((hcounter.of_run h₄).of_run h₅).of_run h₆
  obtain rfl := eq_of_run_enterValues h₄
  obtain ⟨frames, halloc, rfl⟩ := exists_of_run_alloc h₅
  obtain rfl : c₆ = c₃.counting counter.name v frames := eq_of_run_bindValue h₆
  have hs₆' : ctx.enterLoop.Sits (c₃.counting counter.name v frames) := hs₆.loops (ctx.loops + 1)
  have hw₇ := (walked_exp hc₆ hs₆' h₇).1
  have hvalues : c₇.values.outer = c₃.values.enter.outer := by
    rw [hw₇.scopes.values_eq]
    rfl
  have hc' : c' = { c₇ with values := c₃.values } :=
    (yields_exitValues_of_outer hvalues (Q := fun _ d => d = { c₇ with values := c₃.values })
      rfl).of_run h₈
  exact ⟨low', c₁, high', c₂, fit, c₃, v, frames, body', c₇, h₁, h₂, h₃, halloc, hc₆, hs₆', hg₆, h₇, hc',
    rfl⟩

/-- A state with the scopes of an earlier one, after a block. -/
def Checker.leftTo (c c₀ : Checker) : Checker :=
  { c.note (.leaving c.values.depth) with
    functions := c₀.functions, values := c₀.values, typeNames := c₀.typeNames }

/-- **The steps of a let block**: its declarations in scopes of their own, and its body there. -/
theorem exists_of_run_letIn {m : Mark} {decs : List Dec} {body e' : Exp} (hc : c.Sound) (hs : ctx.Sits c)
    (h : (checkExp ctx (.letIn m decs body)).run c = .ok (e', c')) :
    ∃ r c₁ body' c₂, (checkDecs ctx [] decs).run c.entered = .ok (r, c₁) ∧
      (checkExp ctx body).run c₁ = .ok (body', c₂) ∧ c.entered.Declared ctx c₁ ∧ c₁.Walked c₂ ∧
      c' = c₂.leftTo c ∧ e' = .letIn (m.typed (if r.2 then body'.ty else none)) r.1 body' := by
  rw [checkExp] at h
  obtain ⟨_, c₀, h₀, h⟩ := exists_of_run_bind h
  obtain ⟨r, c₁, h₁, h⟩ := exists_of_run_bind h
  obtain ⟨body', c₂, h₂, h⟩ := exists_of_run_bind h
  obtain ⟨_, c₃, h₃, h⟩ := exists_of_run_bind h
  cases h
  obtain rfl := Checker.eq_of_run_enterScopes h₀
  have hd₁ := declared_decs hc.entered hs.entered h₁
  have hw₂ := (walked_exp hd₁.sound hd₁.sits h₂).1
  have hd := hd₁.trans (hw₂.declared hd₁.sits)
  have hexit : Yields exitScopes c₂ fun _ d => d = c₂.leftTo c :=
    yields_exitScopes.mpr ⟨c.functions, c.values, c.typeNames, Scopes.exit_of_outer hd.functions_outer,
      Scopes.exit_of_outer hd.values_outer, Scopes.exit_of_outer hd.typeNames_outer, rfl⟩
  exact ⟨r, c₁, body', c₂, h₁, h₂, hd₁, hw₂, hexit.of_run h₃, rfl⟩

/-! ## Declarations -/

/-- **The steps of the body of a function**: the body in a scope with the parameters, the layout of the
frame, and the rule. -/
theorem exists_of_run_bodyOf {h : Header} {head : FunctionHead} {body : Exp} {loc : Location}
    {id : Option FunctionId} {r : Dec × Bool} (hc : c.Sound) (hs : ctx.Sits c) (hfits : h.Fits ctx head c)
    (hrun : (checkDec ctx (.functionBody h) (.function head body loc id)).run c = .ok (r, c')) :
    ∃ body' c₁ frames ok, (checkExp ⟨h.level, h.frame, 0⟩ body).run (c.inBody head h) = .ok (body', c₁) ∧
      c₁.frames.finalize h.frame = .ok frames ∧
      (Rule.body h.result body'.mark).run { c₁ with values := c.values, frames } = .ok (ok, c') ∧
      r = (.function head body' loc (some h.id), ok) := by
  rw [checkDec] at hrun
  obtain ⟨_, d, h₁, hrun⟩ := exists_of_run_bind hrun
  obtain ⟨_, d', h₂, hrun⟩ := exists_of_run_bind hrun
  obtain ⟨body', c₁, h₃, hrun⟩ := exists_of_run_bind hrun
  obtain ⟨_, c₂, h₄, hrun⟩ := exists_of_run_bind hrun
  obtain ⟨_, c₃, h₅, hrun⟩ := exists_of_run_bind hrun
  obtain ⟨ok, c₄, h₆, hrun⟩ := exists_of_run_bind hrun
  cases hrun
  have hopen : Yields enterValues c fun _ d => Yields (bindParams head.params h.params) d
      fun _ d' => d' = c.inBody head h := yields_enterValues.mpr (yields_bindParams.mpr rfl)
  obtain rfl : d' = c.inBody head h := (hopen.of_run h₁).of_run h₂
  obtain ⟨hw₁, -⟩ := walked_exp (hc.withValues _) (hfits.sits_inBody hs) h₃
  have houter : c₁.values.outer = c.values.enter.outer := by
    rw [hw₁.scopes.values_eq]
    exact Scopes.bindAll_outer _ _ _
  obtain rfl : c₂ = { c₁ with values := c.values } :=
    (yields_exitValues_of_outer houter (Q := fun _ d => d = { c₁ with values := c.values })
      rfl).of_run h₄
  obtain ⟨frames, hfin, rfl⟩ := exists_of_run_finalize h₅
  exact ⟨body', c₁, frames, ok, h₃, hfin, h₆, rfl⟩

/-- **The steps of binding a function**: its frame, its static link, its parameters, its result, and its
prototype. -/
theorem exists_of_run_declareFunction {head : FunctionHead} {h : Header}
    (hrun : (declareFunction ctx head).run c = .ok (h, c')) :
    ∃ link frames₂ r c₃ result c₄ signature,
      (c.frames.newFrame (head.name.name ++ "Frame") (ctx.level + 1) (some ctx.frame)).2.alloc
        ⟨c.frames.frames.size⟩ "staticLink" (some (.frame ctx.frame)) .staticLink = .ok (link, frames₂) ∧
      (declareParams ⟨c.frames.frames.size⟩ head.params).run { c with frames := frames₂ } = .ok (r, c₃) ∧
      (declaredResult head.result).run c₃ = .ok (result, c₄) ∧
      h = ⟨⟨c₄.frames.functions.size⟩, ctx.level + 1, ⟨c.frames.frames.size⟩, r.1,
        signature.map (·.result)⟩ ∧
      c' = Checker.note { c₄ with
        frames := (c₄.frames.addFunction ⟨head.name.name, signature,
          .declared (ctx.level + 1) ⟨c.frames.frames.size⟩ link r.1⟩).2
        functions := c₄.functions.bind head.name.name ⟨c₄.frames.functions.size⟩ }
        (.functionDeclared head.name.name (ctx.level + 1)) := by
  unfold declareFunction at hrun
  split at hrun
  swap
  · cases hrun
  obtain ⟨frame, c₁, h₁, hrun⟩ := exists_of_run_bind hrun
  cases h₁
  obtain ⟨link, c₂, h₂, hrun⟩ := exists_of_run_bind hrun
  obtain ⟨frames₂, halloc, rfl⟩ := exists_of_run_alloc h₂
  obtain ⟨r, c₃, h₃, hrun⟩ := exists_of_run_bind hrun
  obtain ⟨result, c₄, h₄, hrun⟩ := exists_of_run_bind hrun
  obtain ⟨id, c₅, h₅, hrun⟩ := exists_of_run_bind hrun
  cases h₅
  obtain ⟨_, c₆, h₆, hrun⟩ := exists_of_run_bind hrun
  cases h₆
  cases hrun
  exact ⟨link, frames₂, r, c₃, result, c₄, _, halloc, h₃, h₄, rfl, rfl⟩

end TigerCheck
