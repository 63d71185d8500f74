import TigerCheck.Proofs.Failure
import TigerCheck.Proofs.Walk.Steps

/-!
# The states of a walk

Where the walk over a program, or over an expression that a checker is asked about, can come, and in which
state: before it, behind every part that was checked, in the body of a loop, of a block or of a function, and
within a run of variables or of functions. The levels of earlier requests are no guide to the place, but they
are never read.

* `Arrives`: the walk arrives at a place in a state.
* `Checker.Sound.within`, `Checker.Sound.body`: within a run of variables, and in the body of a function.
* `Context.Founded`: the place sits in a sound state, as far as levels do not matter.
* **`Arrives.founded`**: every place that a walk arrives at does. `Arrives.atRest`, `Arrives.slotted`: what
  this says of the state alone.
-/

namespace TigerCheck

open Check

/-- The walk arrives at a place in a state. It starts with an analysis, or with a request to a checker that has
answered others. A rule is one step for each that moves on from there: a part is checked, a type name is looked
up, a fault is reported, a loop, a block or a body is entered. -/
inductive Arrives : Context → Checker → Prop where
  | start : Arrives ⟨0, Checker.initial.mainFrame, 0⟩ (Checker.initial.note .started)
  | request {ctx : Context} {c : Checker} : c.Reachable → ctx.frame.index < c.frames.frames.size →
      Arrives ctx c
  | exp {ctx : Context} {c c' : Checker} {e e' : Exp} : Arrives ctx c →
      (checkExp ctx e).run c = .ok (e', c') → Arrives ctx c'
  | var {ctx : Context} {c c' : Checker} {v v' : Var} : Arrives ctx c →
      (checkVar ctx v).run c = .ok (v', c') → Arrives ctx c'
  | typeOf {ctx : Context} {c c' : Checker} {name : Ident} {t : Option Ty} : Arrives ctx c →
      (typeOf name).run c = .ok (t, c') → Arrives ctx c'
  | report {ctx : Context} {c : Checker} (fault : Fault) (loc : Location) : Arrives ctx c →
      Arrives ctx (c.reported fault loc)
  | loops {ctx : Context} {c : Checker} (n : Nat) : Arrives ctx c → Arrives { ctx with loops := n } c
  | counter {ctx : Context} {c c' : Checker} {name : String} {v : VarId} : Arrives ctx c →
      (do
        enterValues
        let slot ← alloc ctx.frame name (some .int) .loopCounter
        bindValue name slot
        return slot).run c = .ok (v, c') → Arrives ctx c'
  | block {ctx : Context} {c c' : Checker} : Arrives ctx c →
      enterScopes.run c = .ok ((), c') → Arrives ctx c'
  | decs {ctx : Context} {c c' : Checker} {ds : List Dec} {r : List Dec × Bool} : Arrives ctx c →
      (checkDecs ctx [] ds).run c = .ok (r, c') → Arrives ctx c'
  | within {ctx : Context} {c c₁ c' : Checker} {d : Dec} {run : List Dec} {plans : List Plan}
      {r : List Dec × Bool} (k : Nat) : Arrives ctx c → (∀ e ∈ d :: run, e.kind = .var) →
      (openRun ctx (d :: run)).run c = .ok (plans, c₁) →
      (checkPlanned ctx (plans.take k) ((d :: run).take k)).run c₁ = .ok (r, c') → Arrives ctx c'
  | body {ctx : Context} {c c₁ c₂ c' : Checker} {d : Dec} {run : List Dec} {plans : List Plan}
      {r : List Dec × Bool} {h : Header} {head : FunctionHead} {body : Exp} {loc : Location}
      {id : Option FunctionId} (k : Nat) : Arrives ctx c → (∀ e ∈ d :: run, e.kind = .function) →
      (openRun ctx (d :: run)).run c = .ok (plans, c₁) →
      (checkPlanned ctx (plans.take k) ((d :: run).take k)).run c₁ = .ok (r, c₂) →
      plans[k]? = some (.functionBody h) → (d :: run)[k]? = some (.function head body loc id) →
      (do
        enterValues
        bindParams head.params h.params).run c₂ = .ok ((), c') → Arrives ⟨h.level, h.frame, 0⟩ c'

/-! ## Within a run -/

section

variable {ctx : Context} {c c₁ c₂ c' : Checker} {d : Dec} {run : List Dec} {plans : List Plan} {r : List Dec × Bool}

/-- Behind the first variables of a run the place still sits in a sound state. -/
theorem Checker.Sound.within (hc : c.Sound) (hs : ctx.Sits c) (hk : ∀ e ∈ d :: run, e.kind = .var)
    (hopen : (openRun ctx (d :: run)).run c = .ok (plans, c₁)) (k : Nat)
    (hrun : (checkPlanned ctx (plans.take k) ((d :: run).take k)).run c₁ = .ok (r, c')) :
    c'.Sound ∧ ctx.Sits c' := by
  have hw := Checker.walked_note hc (.run d.kind (run.length + 1))
  obtain ⟨rfl, rfl⟩ := eq_of_run_openRun (hk d List.mem_cons_self) hopen
  rw [← List.map_take] at hrun
  have hdecl := declared_variables (fun e he => hk e (List.mem_of_mem_take he)) hw.sound (hs.walked hw) hrun
  exact ⟨hdecl.sound, hdecl.sits⟩

/-- In the body of a function of a run, behind the functions before it, the place of the body sits in a sound
state. -/
theorem Checker.Sound.body {h : Header} {head : FunctionHead} {body : Exp} {loc : Location}
    {id : Option FunctionId} (hc : c.Sound) (hs : ctx.Sits c) (hk : ∀ e ∈ d :: run, e.kind = .function)
    (hopen : (openRun ctx (d :: run)).run c = .ok (plans, c₁)) (k : Nat)
    (hrun : (checkPlanned ctx (plans.take k) ((d :: run).take k)).run c₁ = .ok (r, c₂))
    (hplan : plans[k]? = some (.functionBody h)) (hdec : (d :: run)[k]? = some (.function head body loc id))
    (hbind : (do
      enterValues
      bindParams head.params h.params).run c₂ = .ok ((), c')) :
    c'.Sound ∧ (⟨h.level, h.frame, 0⟩ : Context).Sits c' := by
  have hw := Checker.walked_note hc (.run d.kind (run.length + 1))
  have hfun := bindsFunctions_of_openRun hk hc hs hopen
  have hsits := hs.walked hw
  have hdecl := hfun.declared hw.sound hsits
  have hfits := hfun.fits hw.sound hsits
  have hw₂ := walked_functionBodies hdecl.sound (List.forall₂_take k hfits) (.refl hdecl.sound) hdecl.sits
    hrun
  have hfit : Plan.Fits ctx c₁ (.functionBody h) (.function head body loc id) := by
    obtain ⟨hlt, hget⟩ := List.getElem?_eq_some_iff.mp hplan
    obtain ⟨hlt', hget'⟩ := List.getElem?_eq_some_iff.mp hdec
    rw [← hget, ← hget']
    exact (List.forall₂_iff_get.mp hfits).2 k hlt hlt'
  cases hfit with
  | functionBody hfit =>
    have hfit₂ := hfit.extends hdecl.sound.rest hw₂.grown hw₂.scopes.typeNames_eq
    have hbody : c' = c₂.inBody head h := by
      refine (?_ : Yields _ c₂ fun _ c' => c' = c₂.inBody head h).of_run hbind
      rw [yields_bind, yields_enterValues]
      exact yields_bindParams.mpr rfl
    rw [hbody]
    exact ⟨hw₂.sound.withValues _, hfit₂.sits_inBody (hdecl.sits.walked hw₂)⟩

end

/-! ## Up to levels -/

/-- A place sits in a sound state, as far as levels do not matter: it does in a state that differs in levels
only. -/
def Context.Founded (ctx : Context) (c : Checker) : Prop :=
  ∃ d : Checker, d.Sound ∧ ctx.Sits d ∧ c.levelled 0 = d.levelled 0

namespace Context

variable {ctx ctx' : Context} {c c' : Checker}

theorem Sits.founded (hs : ctx.Sits c) (hc : c.Sound) : ctx.Founded c := ⟨c, hc, hs, rfl⟩

/-- Where a place sits in an idle checker, it is founded at its own level. -/
theorem founded_of_idle (h : c.Idle) (hf : ctx.frame.index < c.frames.frames.size) : ctx.Founded c :=
  ⟨c.levelled ctx.level, h.sound_levelled ctx.level, h.sits hf,
    (Checker.levelled_levelled 0 ctx.level c).symm⟩

/-- An action that does not read levels leads from a founded place to one, if it does so where levels are
right. -/
theorem Founded.run {α : Type} {R : Checker → Checker → Prop} {ok : Prop} {m : Check α} {good : α → Prop}
    {a : α} (h : ctx.Founded c) (hm : Guarded R ok m good) (hrun : m.run c = .ok (a, c'))
    (hstep : ∀ d d', d.Sound → ctx.Sits d → m.run d = .ok (a, d') → d'.Sound ∧ ctx'.Sits d') :
    ctx'.Founded c' := by
  obtain ⟨d, hd, hs, heq⟩ := h
  obtain ⟨d', hrun', heq'⟩ := hm.run_of_levelled_eq heq hrun
  obtain ⟨hd', hs'⟩ := hstep d d' hd hs hrun'
  exact ⟨d', hd', hs', heq'⟩

end Context

/-! ## Where a walk arrives -/

/-- **In every state of a walk the invariant holds**, up to levels. -/
theorem Arrives.founded {ctx : Context} {c : Checker} (h : Arrives ctx c) : ctx.Founded c := by
  induction h with
  | start =>
    have hw := Checker.walked_note Checker.initial_sound .started
    exact (Checker.initial_sits.walked hw).founded hw.sound
  | request hc hf => exact Context.founded_of_idle hc.idle hf
  | @exp ctx c c' e e' _ hrun ih =>
    refine ih.run (expTame e ctx) hrun fun d d' hd hs hrun => ?_
    have hw := ((expWalks e ctx d hd hs).of_run hrun).walked
    exact ⟨hw.sound, hs.walked hw⟩
  | @var ctx c c' v v' _ hrun ih =>
    refine ih.run (tames.all.2.1 v ctx) hrun fun d d' hd hs hrun => ?_
    have hw := ((walks.all.2.1 v ctx d hd hs).of_run hrun).walked
    exact ⟨hw.sound, hs.walked hw⟩
  | @typeOf ctx c c' name t _ hrun ih =>
    refine ih.run (tame_typeOf name) hrun fun d d' hd hs hrun => ?_
    have hw := ((yields_typeOf hd.rest name).of_run hrun).toSays.walked hd
    exact ⟨hw.sound, hs.walked hw⟩
  | @report ctx c fault loc _ ih =>
    have htame : Tame True (Check.report fault loc) fun _ => False := tame_report
    have hreport : (Check.report fault loc).run c = .ok ((), c.reported fault loc) := rfl
    refine ih.run htame hreport fun d d' hd hs hrun => ?_
    cases hrun
    have hw := Checker.walked_reported hd fault loc
    exact ⟨hw.sound, hs.walked hw⟩
  | loops n _ ih =>
    obtain ⟨d, hd, hs, heq⟩ := ih
    exact ⟨d, hd, hs.loops n, heq⟩
  | @counter ctx c c' name v _ hrun ih =>
    have htame : Tame True (do
        enterValues
        let slot ← alloc ctx.frame name (some .int) .loopCounter
        bindValue name slot
        return slot) fun _ => True :=
      tame_enterValues.bind fun _ => tame_alloc.bind fun _ => tame_bindValue.bind fun _ => .pure id
    refine ih.run htame hrun fun d d' hd hs hrun => ?_
    obtain ⟨hd', hs', -⟩ := (hd.counter hs _).of_run hrun
    exact ⟨hd', hs'⟩
  | @block ctx c c' _ hrun ih =>
    have htame : Tame True enterScopes fun _ => True := tame_enterScopes
    refine ih.run htame hrun fun d d' hd hs hrun => ?_
    obtain rfl := Checker.eq_of_run_enterScopes hrun
    exact ⟨hd.entered, hs.entered⟩
  | @decs ctx c c' ds r _ hrun ih =>
    refine ih.run (checkDecs_tame (fun d _ => decTame d) []) hrun fun d d' hd hs hrun => ?_
    have hdecl := declared_decs hd hs hrun
    exact ⟨hdecl.sound, hdecl.sits⟩
  | within k _ hk hopen hrun ih =>
    obtain ⟨d, hd, hs, heq⟩ := ih
    obtain ⟨d₁, hopen, heq₁⟩ := (tame_openRun _).run_of_levelled_eq heq hopen
    obtain ⟨d', hrun, heq'⟩ := (checkPlanned_tame (fun e _ => decTame e) _).run_of_levelled_eq heq₁ hrun
    obtain ⟨hd', hs'⟩ := hd.within hs hk hopen k hrun
    exact ⟨d', hd', hs', heq'⟩
  | @body ctx c c₁ c₂ c' dec run plans r h head body loc id k _ hk hopen hrun hplan hdec hbind ih =>
    have htame : Tame True (do enterValues; bindParams head.params h.params) fun _ => True :=
      tame_enterValues.bind fun _ => tame_bindParams _ _
    obtain ⟨d, hd, hs, heq⟩ := ih
    obtain ⟨d₁, hopen, heq₁⟩ := (tame_openRun _).run_of_levelled_eq heq hopen
    obtain ⟨d₂, hrun, heq₂⟩ := (checkPlanned_tame (fun e _ => decTame e) _).run_of_levelled_eq heq₁ hrun
    obtain ⟨d', hbind, heq'⟩ := htame.run_of_levelled_eq heq₂ hbind
    obtain ⟨hd', hs'⟩ := hd.body hs hk hopen k hrun hplan hdec hbind
    exact ⟨d', hd', hs', heq'⟩

/-- In every state of a walk no type name is unsettled, and all handles are in range. -/
theorem Arrives.atRest {ctx : Context} {c : Checker} (h : Arrives ctx c) : c.AtRest := by
  obtain ⟨d, hd, -, heq⟩ := h.founded
  have hrest : (c.levelled 0).AtRest := heq ▸ (hd.levelled 0).rest
  exact hrest.congr rfl rfl rfl

/-- In every state of a walk the variables of the innermost scope have slots. -/
theorem Arrives.slotted {ctx : Context} {c : Checker} (h : Arrives ctx c) : c.Slotted := by
  obtain ⟨d, -, hs, heq⟩ := h.founded
  have hvars : (c.levelled 0).frames.vars.size = (d.levelled 0).frames.vars.size := by rw [heq]
  simp only [Checker.levelled_frames, FrameTable.levelled, Array.size_map] at hvars
  exact hs.slotted.of_values (Checker.eq_of_levelled_eq heq).2.1 hvars.ge

end TigerCheck
