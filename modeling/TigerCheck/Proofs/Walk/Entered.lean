import TigerCheck.Proofs.Walk.Stop
import TigerCheck.Proofs.Walk.Traced

/-!
# The states between which an expression is checked

The check of an expression, wherever it stands, begins in a state between two runs of declarations. Behind
it the walk goes on without taking anything back.

* `Check.Extending`: an action takes nothing back. `Check.Stops`: a walk stops in a sound state, and an action
  that takes nothing back is left.
* `UnderWay`: how far the declarations of a block have been checked. `stops_decs`: the walk over them.
* **`ExpHole.stops`**: a walk stops in a sound state before the check of every expression.
-/

namespace TigerCheck

open Check

/-! ## Actions that take nothing back -/

namespace Check

/-- Where the action ends, it has taken nothing back. -/
def Extending {α : Type} (m : Check α) (c : Checker) : Prop :=
  ∀ a c', m.run c = .ok (a, c') → c.Extends c'

namespace Extending

variable {α β : Type} {c : Checker} {ctx : Context} {m n : Check α} {f : α → Check β}

theorem pure (a : α) : Extending (Pure.pure a) c := by
  intro b c' h
  cases h
  exact .refl c

theorem bind (hm : Extending m c) (hf : ∀ a c₁, m.run c = .ok (a, c₁) → Extending (f a) c₁) :
    Extending (m >>= f) c := by
  intro b c' h
  obtain ⟨a, c₁, h₁, h₂⟩ := exists_of_run_bind h
  exact (hm a c₁ h₁).trans (hf a c₁ h₁ b c' h₂)

/-- A typing rule, and an answer. -/
theorem rule {F : Fault → Prop} {ok : Prop} {good : α → Prop} {g : α → β} (h : Passive F ok m good) :
    Extending (m >>= fun a => Pure.pure (g a)) c :=
  bind (fun _ _ hm => h.extends hm) fun _ _ _ => pure _

/-- A typing rule, and what follows it. -/
theorem passive {F : Fault → Prop} {ok : Prop} {good : α → Prop} (h : Passive F ok m good) (hc : c.Sound)
    (hs : ctx.Sits c) (hf : ∀ a c₁, c₁.Sound → ctx.Sits c₁ → Extending (f a) c₁) :
    Extending (m >>= f) c :=
  bind (fun _ _ hm => h.extends hm) fun a c₁ hm =>
    have hw := (h.changes c a c₁ hm).toSays.walked hc
    hf a c₁ hw.sound (hs.walked hw)

/-- The check of an expression, perhaps within a loop, and what follows it. -/
theorem exp {ctx' : Context} {e : Exp} {f : Exp → Check β} (hc : c.Sound) (hs : ctx.Sits c)
    (hs' : ctx'.Sits c) (hf : ∀ e' c₁, c₁.Sound → ctx.Sits c₁ → Extending (f e') c₁) :
    Extending (checkExp ctx' e >>= f) c :=
  bind (fun _ _ h => (walked_exp hc hs' h).1.grown) fun a c₁ h =>
    have hw := (walked_exp hc hs' h).1
    hf a c₁ hw.sound (hs.walked hw)

/-- Only the variables in scope are others behind a scope. -/
theorem exitValues (h : ∀ values, Extending n { c with values }) :
    Extending (Check.exitValues >>= fun _ => n) c := by
  intro a c' hrun
  obtain ⟨u, c₁, h₁, h₂⟩ := exists_of_run_bind hrun
  obtain ⟨values, -, rfl⟩ := yields_exitValues.mp (⟨u, c₁, h₁, rfl⟩ : Yields _ _ fun _ d => d = c₁)
  have hg := h values a c' h₂
  exact ⟨hg.status, hg.shape, hg.frames, hg.diagnostics_le, hg.mainFrame_eq⟩

theorem exitScopes : Extending Check.exitScopes c := by
  intro u c' h
  obtain ⟨_, _, _, -, -, -, rfl⟩ := yields_exitScopes.mp (⟨u, c', h, rfl⟩ : Yields _ _ fun _ d => d = c')
  exact ⟨fun _ _ h => h, fun _ _ h => h, .refl _, Nat.le_refl _, rfl⟩

/-- The body of a loop with a counter, in the scope of the counter. -/
theorem counter {name : String} {body : Exp} {g : VarId → Exp → β} (hc : c.Sound) (hs : ctx.Sits c) :
    Extending (do
      enterValues
      let slot ← Check.alloc ctx.frame name (some .int) .loopCounter
      bindValue name slot
      let body ← checkExp ctx.enterLoop body
      Check.exitValues
      return g slot body) c := by
  intro b c' h
  obtain ⟨_, c₁, h₁, h⟩ := exists_of_run_bind h
  obtain ⟨v, c₂, h₂, h⟩ := exists_of_run_bind h
  obtain ⟨_, c₃, h₃, h⟩ := exists_of_run_bind h
  have hcounter := hc.counter hs name
  simp only [yields_bind, yields_pure] at hcounter
  obtain ⟨hc₃, hs₃, hg₃, -⟩ := ((hcounter.of_run h₁).of_run h₂).of_run h₃
  exact hg₃.trans (exp hc₃ hs₃ (hs₃.loops _) (fun _ _ _ _ => exitValues fun _ => pure _) b c' h)

/-- The layout of the frame of a function, and the rule for its body. -/
theorem bodyRule {h : Header} {body : Mark} {g : Bool → β} (hc : c.Sound)
    (hs : Context.Sits ⟨h.level, h.frame, 0⟩ c) :
    Extending (do
      Check.exitValues
      finalize h.frame
      let ok ← Rule.body h.result body
      return g ok) c := by
  refine exitValues fun values => bind (fun _ c' hrun => ?_) fun _ _ _ => rule (passive_body _ _)
  obtain ⟨owner, howner, -⟩ := hs.frame
  exact (((hc.withValues values).finalize howner).of_run hrun).1.grown

/-- The type, the slot and the binding of a variable. -/
theorem declared {name : Ident} {typeName : Option Ident} {init : Exp} {g : VarId → Bool → β}
    (hc : c.Sound) (hs : ctx.Sits c) (hi : ∀ t, init.ty = some t → c.types.Has t) :
    Extending (do
      let (ty, ok) ← Rule.declared typeName init.mark init.isLiteral
      let slot ← Check.alloc ctx.frame name.name ty .letBound
      bindValue name.name slot
      return g slot ok) c := by
  intro b c' h
  obtain ⟨⟨ty, ok⟩, c₁, h₁, h⟩ := exists_of_run_bind h
  obtain ⟨v, c₂, h₂, h⟩ := exists_of_run_bind h
  obtain ⟨_, c₃, h₃, h⟩ := exists_of_run_bind h
  cases h
  have hw := (walked_declared hc hi h₁).1
  obtain ⟨frames, halloc, rfl⟩ := exists_of_run_alloc h₂
  have hg := hw.sound.grows_of_alloc (hs.walked hw) halloc
  obtain rfl := eq_of_run_bindValue h₃
  exact hw.grown.trans ⟨fun _ _ h => h, fun _ _ h => h, hg, Nat.le_refl _, rfl⟩

/-- Lists of expressions and of initializers, and an answer. -/
theorem each {params : List Ty} {es : List Exp} (hc : c.Sound) (hs : ctx.Sits c) :
    Extending (checkEach ctx params es) c :=
  fun _ _ h => (traced_checkEach (fun _ _ _ _ _ _ hc hs h => traced_exp hc hs h) hc hs h).grown

theorem inits {loc : Location} {typeName : String} {fields : Option (List Field)} {is : List (Ident × Exp)}
    (hc : c.Sound) (hs : ctx.Sits c) : Extending (checkInits ctx loc typeName fields is) c :=
  fun _ _ h => (traced_checkInits (fun _ _ _ _ _ _ hc hs h => traced_exp hc hs h) hc hs h).grown

end Extending

/-! ## Walks that stop -/

variable {α β γ : Type} {x : Exp} {c : Checker} {ctx : Context} {m : Check α} {pre : Check (Stop α)}

/-- Where the walk stops before the check of `x`, the state is sound, and what follows the check takes nothing
back. -/
structure Fair (x : Exp) (s : Stop α) (c₀ : Checker) : Prop where
  sound : c₀.Sound
  sits : s.ctx.Sits c₀
  goes_on : ∀ y c₁, (checkExp s.ctx x).run c₀ = .ok (y, c₁) → Extending (s.next y) c₁

/-- Wherever the walk stops, it does so in a sound state. -/
def Stops (x : Exp) (pre : Check (Stop α)) (c : Checker) : Prop :=
  ∀ s c₀, pre.run c = .ok (s, c₀) → Fair x s c₀

namespace Stops

theorem andThen {f : α → Check β} (h : Stops x pre c) (hsplit : Splits x m pre)
    (hf : ∀ a c₁, m.run c = .ok (a, c₁) → Extending (f a) c₁) :
    Stops x (pre >>= fun s => Pure.pure (s.andThen f)) c := by
  intro s' c₀ hpre
  obtain ⟨s, c₁, h₁, h₂⟩ := exists_of_run_bind hpre
  cases h₂
  have hfair := h s c₀ h₁
  refine ⟨hfair.sound, hfair.sits, fun y c₂ hy => (hfair.goes_on y c₂ hy).bind fun a c₃ ha => ?_⟩
  refine hf a c₃ ?_
  rw [hsplit.goes_on c s c₀ h₁]
  exact (run_bind_of_run hy).trans ha

theorem bind {n : Check γ} {g : γ → Check (Stop α)} (h : ∀ b c₁, n.run c = .ok (b, c₁) → Stops x (g b) c₁) :
    Stops x (n >>= g) c := by
  intro s c₀ hpre
  obtain ⟨b, c₁, h₁, h₂⟩ := exists_of_run_bind hpre
  exact h b c₁ h₁ s c₀ h₂

theorem throw {e : Breach} : Stops x (MonadExcept.throw e : Check (Stop α)) c := by
  intro s c₀ hpre
  cases hpre

/-- Behind the check of an expression. -/
theorem exp {e : Exp} {g : Exp → Check (Stop α)} (hc : c.Sound) (hs : ctx.Sits c)
    (h : ∀ e' c₁, c₁.Sound → ctx.Sits c₁ → Stops x (g e') c₁) : Stops x (checkExp ctx e >>= g) c :=
  bind fun e' c₁ he =>
    have hw := (walked_exp hc hs he).1
    h e' c₁ hw.sound (hs.walked hw)

/-- Behind a typing rule. -/
theorem passive {F : Fault → Prop} {ok : Prop} {good : γ → Prop} {n : Check γ} {g : γ → Check (Stop α)}
    (hn : Passive F ok n good) (hc : c.Sound) (hs : ctx.Sits c)
    (h : ∀ a c₁, c₁.Sound → ctx.Sits c₁ → Stops x (g a) c₁) : Stops x (n >>= g) c :=
  bind fun a c₁ ha =>
    have hw := (hn.changes c a c₁ ha).toSays.walked hc
    h a c₁ hw.sound (hs.walked hw)

/-- Behind the resolution of a type name. -/
theorem typeOf {name : Ident} {g : Option Ty → Check (Stop α)} (hc : c.Sound) (hs : ctx.Sits c)
    (h : ∀ ty c₁, c₁.Sound → ctx.Sits c₁ → Stops x (g ty) c₁) : Stops x (Check.typeOf name >>= g) c :=
  bind fun ty c₁ ht =>
    have hw := (walked_typeOf hc ht).1
    h ty c₁ hw.sound (hs.walked hw)

end Stops

end Check

variable {x : Exp} {c : Checker} {ctx : Context}

/-! ## Lists of parts -/

section

variable {y : Exp} {hole : Check (Stop Exp)}

theorem stops_each (hsplit : Splits x (checkExp ctx y) hole)
    (h : ∀ c, c.Sound → ctx.Sits c → Stops x hole c) (after : List Exp) : ∀ (before : List Exp)
      (params : List Ty) (c : Checker), c.Sound → ctx.Sits c → Stops x (enterEach ctx hole after params before) c
  | [], params, c, hc, hs => by
    rw [enterEach]
    refine (h c hc hs).andThen hsplit fun e c₁ he => ?_
    have hw := (walked_exp hc hs he).1
    refine .passive (passive_arg _ _) hw.sound (hs.walked hw) fun _ _ hc hs => ?_
    exact .bind (.each hc hs) fun _ _ _ => .pure _
  | e :: before, params, c, hc, hs => by
    rw [enterEach]
    refine .exp hc hs fun e' c₁ hc hs => .passive (passive_arg _ _) hc hs fun ok c₂ hc hs => ?_
    exact (stops_each hsplit h after before params.tail c₂ hc hs).andThen (splits_each hsplit after before _)
      fun _ _ _ => .pure _

theorem stops_inits {loc : Location} {typeName : String} {name : Ident}
    (hsplit : Splits x (checkExp ctx y) hole) (h : ∀ c, c.Sound → ctx.Sits c → Stops x hole c)
    (after : List (Ident × Exp)) : ∀ (before : List (Ident × Exp)) (fields : Option (List Field)) (c : Checker),
      c.Sound → ctx.Sits c → Stops x (enterInits ctx hole loc typeName name after fields before) c
  | [], fields, c, hc, hs => by
    rw [enterInits]
    refine .passive (passive_place fields) hc hs fun fields c₁ hc hs => ?_
    refine (h c₁ hc hs).andThen hsplit fun e c₂ he => ?_
    have hw := (walked_exp hc hs he).1
    refine .passive (passive_init _ _) hw.sound (hs.walked hw) fun _ _ hc hs => ?_
    exact .bind (.inits hc hs) fun _ _ _ => .pure _
  | (other, e) :: before, fields, c, hc, hs => by
    rw [enterInits]
    refine .passive (passive_place fields) hc hs fun fields c₁ hc hs => .exp hc hs fun e' c₂ hc hs => ?_
    refine .passive (passive_init _ _) hc hs fun ok c₃ hc hs => ?_
    exact (stops_inits hsplit h after before _ c₃ hc hs).andThen (splits_inits hsplit after before _)
      fun _ _ _ => .pure _

end

/-! ## Declarations -/

/-- A run of functions or of variables is under way. -/
inductive MidRun (ctx : Context) (c : Checker) : List Plan → List Dec → Prop where
  | bodies {c₀ : Checker} {plans : List Plan} {run : List Dec} : c₀.Sound →
      List.Forall₂ (Plan.Fits ctx c₀) plans run → c₀.Walked c → ctx.Sits c → MidRun ctx c plans run
  | bindings {first : ℕ} {run : List Dec} : (∀ d ∈ run, d.kind = .var) → c.Sound → ctx.Sits c →
      MidRun ctx c (run.map fun _ => .variable first) run

namespace MidRun

variable {c' : Checker} {plan : Plan} {plans : List Plan} {d : Dec} {run : List Dec}

theorem sound (h : MidRun ctx c plans run) : c.Sound ∧ ctx.Sits c := by
  cases h with
  | bodies _ _ hw hs => exact ⟨hw.sound, hs⟩
  | bindings _ hc hs => exact ⟨hc, hs⟩

theorem length_eq (h : MidRun ctx c plans run) : plans.length = run.length := by
  cases h with
  | bodies _ hfits => exact hfits.length_eq
  | bindings => exact List.length_map _

/-- **One declaration of the run is checked.** -/
theorem step {r : Dec × Bool} (h : MidRun ctx c (plan :: plans) (d :: run))
    (hrun : (checkDec ctx plan d).run c = .ok (r, c')) : c.Extends c' ∧ MidRun ctx c' plans run := by
  generalize hplans : plan :: plans = ps at h
  cases h with
  | @bodies c₀ _ _ hc₀ hfits hw hs =>
    subst hplans
    obtain ⟨hfit, hrest⟩ := List.forall₂_cons.mp hfits
    cases hfit with
    | dropped =>
      rw [checkDec_dropped] at hrun
      cases hrun
      exact ⟨.refl c, .bodies hc₀ hrest hw hs⟩
    | functionBody hfit =>
      have hw₁ := walked_functionBody hw.sound hs (hfit.extends hc₀.rest hw.grown hw.scopes.typeNames_eq) hrun
      exact ⟨hw₁.grown, .bodies hc₀ hrest (hw.trans hw₁) (hs.walked hw₁)⟩
  | bindings hk hc hs =>
    rw [List.map_cons] at hplans
    cases hplans
    obtain ⟨hkind, hkinds⟩ := List.forall_mem_cons.mp hk
    cases d with
    | type => cases hkind
    | function => cases hkind
    | var name typeName init loc slot =>
      have hd := declared_variable hc hs hrun
      exact ⟨hd.grown, .bindings hkinds hd.sound hd.sits⟩

/-- The header of a function whose turn it is fits its declaration. -/
theorem fits {header : Header} {head : FunctionHead} {body : Exp} {loc : Location} {id : Option FunctionId}
    (h : MidRun ctx c (.functionBody header :: plans) (.function head body loc id :: run)) :
    header.Fits ctx head c := by
  generalize hplans : Plan.functionBody header :: plans = ps at h
  cases h with
  | bodies hc₀ hfits hw =>
    subst hplans
    cases (List.forall₂_cons.mp hfits).1 with
    | functionBody hfit => exact hfit.extends hc₀.rest hw.grown hw.scopes.typeNames_eq
  | bindings => cases hplans

/-- The rest of the run, and of the block, is checked. -/
theorem extending (h : MidRun ctx c plans run) (rest : List Dec) :
    Extending (checkDecs ctx plans (run ++ rest)) c := by
  induction run generalizing plans c with
  | nil =>
    obtain ⟨hc, hs⟩ := h.sound
    obtain rfl := List.eq_nil_of_length_eq_zero h.length_eq
    exact fun r c' hrun =>
      (declared_decs hc hs hrun).grown
  | cons d run ih =>
    cases plans with
    | nil => exact absurd h.length_eq (by simp)
    | cons plan plans =>
      rw [List.cons_append, checkDecs_cons]
      exact .bind (fun _ _ hd => (h.step hd).1) fun _ _ hd => .bind (ih (h.step hd).2) fun _ _ _ => .pure _

end MidRun

/-- How far the declarations of a block have been checked: the plans that are left of the run that is open. -/
inductive UnderWay (ctx : Context) (c : Checker) : List Plan → List Dec → Prop where
  | midRun {plans : List Plan} {run rest : List Dec} : MidRun ctx c plans run → UnderWay ctx c plans (run ++ rest)
  | types {plans : List Plan} {run rest : List Dec} : (∀ d ∈ run, d.kind = .type) →
      plans.length = run.length → (∀ r c', (checkPlanned ctx plans run).run c = .ok (r, c') →
        c'.Sound ∧ ctx.Sits c') → UnderWay ctx c plans (run ++ rest)

namespace UnderWay

variable {c' : Checker} {plan : Plan} {plans : List Plan} {d : Dec} {ds : List Dec}

/-- Between two runs the state is sound. -/
theorem sound (h : UnderWay ctx c [] ds) : c.Sound ∧ ctx.Sits c := by
  generalize hplans : ([] : List Plan) = plans at h
  cases h with
  | midRun h => exact h.sound
  | types _ hlen hend =>
    subst hplans
    obtain rfl := List.eq_nil_of_length_eq_zero hlen.symm
    exact hend _ c rfl

/-- **A run is opened.** -/
theorem opened (hc : c.Sound) (hs : ctx.Sits c)
    (h : (openRun ctx (Dec.leadingRun (d :: ds))).run c = .ok (plans, c')) :
    UnderWay ctx c' plans (d :: ds) := by
  have hsplit : d :: ds = Dec.leadingRun (d :: ds) ++ ds.dropWhile (Dec.sameKind d) := by
    simp [Dec.leadingRun]
  have hk : ∀ e ∈ Dec.leadingRun (d :: ds), e.kind = d.kind := fun e he => kind_of_mem_leadingRun he
  have hw := Checker.walked_note hc (.run d.kind ((ds.takeWhile (Dec.sameKind d)).length + 1))
  rw [hsplit]
  cases hkind : d.kind with
  | type =>
    rw [hkind] at hk
    refine .types hk (length_of_openRun h) fun r c₂ hrun => ?_
    obtain ⟨t, ts, hts⟩ : ∃ t ts, Dec.leadingRun (d :: ds) = (t :: ts).map .type :=
      exists_map_type_of_kind hk
    rw [hts] at h hrun
    have hend := (((yields_typeRun hc hs t ts).of_run h).2.of_run hrun).2.1
    exact ⟨hend.sound, hend.sits⟩
  | function =>
    rw [hkind] at hk
    have hb := bindsFunctions_of_openRun hk hc hs h
    have hd := hb.declared hw.sound (hs.walked hw)
    exact .midRun (.bodies hd.sound (hb.fits hw.sound (hs.walked hw)) (.refl hd.sound) hd.sits)
  | var =>
    rw [hkind] at hk
    obtain ⟨rfl, rfl⟩ := eq_of_run_openRun hkind h
    exact .midRun (.bindings hk hw.sound (hs.walked hw))

/-- **One declaration is checked.** -/
theorem step {r : Dec × Bool} (h : UnderWay ctx c (plan :: plans) (d :: ds))
    (hrun : (checkDec ctx plan d).run c = .ok (r, c')) : UnderWay ctx c' plans ds := by
  generalize hps : plan :: plans = ps at h
  generalize hes : d :: ds = es at h
  cases h with
  | @midRun run rest h =>
    subst hps
    cases run with
    | nil => exact absurd h.length_eq (by simp)
    | cons e run =>
      cases hes
      exact .midRun (h.step hrun).2
  | @types run rest hk hlen hend =>
    subst hps
    cases run with
    | nil => exact absurd hlen (by simp)
    | cons e run =>
      cases hes
      refine .types (List.forall_mem_cons.mp hk).2 (Nat.succ.inj hlen) fun r' c₂ hrest => ?_
      refine hend (r.1 :: r'.1, r.2 && r'.2) c₂ ?_
      rw [checkPlanned, run_bind_of_run hrun, run_bind_of_run hrest]
      rfl

/-- A function or a variable whose turn it is belongs to a run of functions or variables. -/
theorem exists_midRun (h : UnderWay ctx c (plan :: plans) (d :: ds)) (hk : d.kind ≠ .type) :
    ∃ run rest, ds = run ++ rest ∧ MidRun ctx c (plan :: plans) (d :: run) := by
  generalize hps : plan :: plans = ps at h
  generalize hes : d :: ds = es at h
  cases h with
  | @midRun run rest h =>
    subst hps
    cases run with
    | nil => exact absurd h.length_eq (by simp)
    | cons e run =>
      cases hes
      exact ⟨run, rest, rfl, h⟩
  | @types run rest hkind hlen =>
    subst hps
    cases run with
    | nil => exact absurd hlen (by simp)
    | cons e run =>
      cases hes
      exact absurd (hkind d List.mem_cons_self) hk

end UnderWay

section

variable {d : Dec} {hole : Plan → Check (Stop (Dec × Bool))}

/-- **The walk over declarations stops in a sound state.** -/
theorem stops_decs (hk : d.kind ≠ .type) (hsplit : ∀ plan, Splits x (checkDec ctx plan d) (hole plan))
    (h : ∀ c plan plans run, MidRun ctx c (plan :: plans) (d :: run) → Stops x (hole plan) c)
    (after : List Dec) : ∀ (before : List Dec) (plans : List Plan) (c : Checker),
      UnderWay ctx c plans (before ++ d :: after) → Stops x (enterDecs ctx d hole after plans before) c
  | [], plans, c, hway => by
    have hturn : ∀ plan plans c, UnderWay ctx c (plan :: plans) (d :: after) →
        Stops x (hole plan >>= fun s => pure (s.andThen fun r =>
          checkDecs ctx plans after >>= fun rs => pure (r.1 :: rs.1, r.2 && rs.2))) c := by
      intro plan plans c hway
      obtain ⟨run, rest, rfl, hmid⟩ := hway.exists_midRun hk
      refine (h c plan plans run hmid).andThen (hsplit plan) fun r c₁ hr => ?_
      exact .bind ((hmid.step hr).2.extending rest) fun _ _ _ => .pure _
    rw [enterDecs]
    cases plans with
    | nil =>
      obtain ⟨hc, hs⟩ := hway.sound
      refine .bind fun plans c₁ hopen => ?_
      cases plans with
      | nil => exact absurd (length_of_openRun hopen) (by simp [Dec.leadingRun])
      | cons plan plans => exact hturn plan plans c₁ (.opened hc hs hopen)
    | cons plan plans => exact hturn plan plans c hway
  | e :: before, plans, c, hway => by
    have hturn : ∀ plan plans c, UnderWay ctx c (plan :: plans) (e :: (before ++ d :: after)) →
        Stops x (checkDec ctx plan e >>= fun r => enterDecs ctx d hole after plans before >>= fun s =>
          pure (s.andThen fun rs => pure (r.1 :: rs.1, r.2 && rs.2))) c := fun plan plans c hway =>
      .bind fun r c₁ hr => (stops_decs hk hsplit h after before plans c₁ (hway.step hr)).andThen
        (splits_decs hsplit after before plans) fun _ _ _ => .pure _
    rw [enterDecs]
    cases plans with
    | nil =>
      obtain ⟨hc, hs⟩ := hway.sound
      refine .bind fun plans c₁ hopen => ?_
      cases plans with
      | nil => exact absurd (length_of_openRun hopen) (by simp [Dec.leadingRun])
      | cons plan plans => exact hturn plan plans c₁ (.opened hc hs hopen)
    | cons plan plans => exact hturn plan plans c hway

end

/-! ## Every expression -/

mutual

/-- **Before the check of an expression, wherever it stands, the state is sound, and what follows the check takes
nothing back.** -/
theorem ExpHole.stops (x : Exp) (ctx : Context) : ∀ (h : ExpHole) (c : Checker), c.Sound → ctx.Sits c →
    Stops x (h.enter x ctx) c
  | .here, c, hc, hs => by
    intro s c₀ hpre
    cases hpre
    exact ⟨hc, hs, fun _ _ _ => .pure _⟩
  | .var m v, c, hc, hs => by
    rw [ExpHole.enter]
    exact (v.stops x ctx c hc hs).andThen (v.splits x ctx) fun _ _ _ => .pure _
  | .arg m callee before h after function, c, hc, hs => by
    rw [ExpHole.enter]
    refine .bind fun target c₁ ht => ?_
    obtain rfl := eq_of_run_target hc ht
    refine (stops_each (h.splits x ctx) (fun c hc hs => h.stops x ctx c hc hs) after before _ c₁ hc hs).andThen
      (splits_each (h.splits x ctx) after before _) fun r c₂ _ => ?_
    exact .rule (passive_call (F := anyFault) (fun _ _ => trivial) _ fun _ => trivial)
  | .binaryLeft m op h right, c, hc, hs => by
    rw [ExpHole.enter]
    refine (h.stops x ctx c hc hs).andThen (h.splits x ctx) fun left c₁ hl => ?_
    have hw := (walked_exp hc hs hl).1
    exact .exp hw.sound (hs.walked hw) (hs.walked hw) fun _ _ _ _ => .rule (passive_binary _ _)
  | .binaryRight m op left h, c, hc, hs => by
    rw [ExpHole.enter]
    refine .exp hc hs fun left' c₁ hc hs => ?_
    exact (h.stops x ctx c₁ hc hs).andThen (h.splits x ctx) fun _ _ _ => .rule (passive_binary _ _)
  | .init m typeName before name h after, c, hc, hs => by
    rw [ExpHole.enter]
    refine .typeOf hc hs fun ty c₁ hc hs => .passive (passive_recordFields ty) hc hs fun fields c₂ hc hs => ?_
    exact (stops_inits (h.splits x ctx) (fun c hc hs => h.stops x ctx c hc hs) after before _ c₂ hc hs).andThen
      (splits_inits (h.splits x ctx) after before _) fun _ _ _ => .pure _
  | .item m before h after, c, hc, hs => by
    rw [ExpHole.enter]
    exact (stops_each (h.splits x ctx) (fun c hc hs => h.stops x ctx c hc hs) after before _ c hc hs).andThen
      (splits_each (h.splits x ctx) after before _) fun _ _ _ => .pure _
  | .assignTarget m v value, c, hc, hs => by
    rw [ExpHole.enter]
    refine (v.stops x ctx c hc hs).andThen (v.splits x ctx) fun target c₁ ht => ?_
    have hw := (walked_var hc hs ht).1
    exact .exp hw.sound (hs.walked hw) (hs.walked hw) fun _ _ _ _ => .rule (passive_assign _ _)
  | .assignValue m target h, c, hc, hs => by
    rw [ExpHole.enter]
    refine .bind fun target' c₁ ht => ?_
    have hw := (walked_var hc hs ht).1
    exact (h.stops x ctx c₁ hw.sound (hs.walked hw)).andThen (h.splits x ctx) fun _ _ _ =>
      .rule (passive_assign _ _)
  | .condTest m h thenPart none, c, hc, hs => by
    rw [ExpHole.enter]
    refine (h.stops x ctx c hc hs).andThen (h.splits x ctx) fun test c₁ ht => ?_
    have hw := (walked_exp hc hs ht).1
    exact .exp hw.sound (hs.walked hw) (hs.walked hw) fun _ _ _ _ => .rule (passive_cond _ _ _)
  | .condTest m h thenPart (some elsePart), c, hc, hs => by
    rw [ExpHole.enter]
    refine (h.stops x ctx c hc hs).andThen (h.splits x ctx) fun test c₁ ht => ?_
    have hw := (walked_exp hc hs ht).1
    exact .exp hw.sound (hs.walked hw) (hs.walked hw) fun _ _ hc hs => .exp hc hs hs fun _ _ _ _ =>
      .rule (passive_cond _ _ _)
  | .condThen m test h none, c, hc, hs => by
    rw [ExpHole.enter]
    refine .exp hc hs fun test' c₁ hc hs => ?_
    exact (h.stops x ctx c₁ hc hs).andThen (h.splits x ctx) fun _ _ _ => .rule (passive_cond _ _ _)
  | .condThen m test h (some elsePart), c, hc, hs => by
    rw [ExpHole.enter]
    refine .exp hc hs fun test' c₁ hc hs => ?_
    refine (h.stops x ctx c₁ hc hs).andThen (h.splits x ctx) fun thenPart c₂ ht => ?_
    have hw := (walked_exp hc hs ht).1
    exact .exp hw.sound (hs.walked hw) (hs.walked hw) fun _ _ _ _ => .rule (passive_cond _ _ _)
  | .condElse m test thenPart h, c, hc, hs => by
    rw [ExpHole.enter]
    refine .exp hc hs fun test' c₁ hc hs => .exp hc hs fun thenPart' c₂ hc hs => ?_
    exact (h.stops x ctx c₂ hc hs).andThen (h.splits x ctx) fun _ _ _ => .rule (passive_cond _ _ _)
  | .whileTest m h body, c, hc, hs => by
    rw [ExpHole.enter]
    refine (h.stops x ctx c hc hs).andThen (h.splits x ctx) fun test c₁ ht => ?_
    have hw := (walked_exp hc hs ht).1
    exact .exp hw.sound (hs.walked hw) ((hs.walked hw).loops _) fun _ _ _ _ => .rule (passive_loop _ _)
  | .whileBody m test h, c, hc, hs => by
    rw [ExpHole.enter]
    refine .exp hc hs fun test' c₁ hc hs => ?_
    exact (h.stops x ctx.enterLoop c₁ hc (hs.loops _)).andThen (h.splits x ctx.enterLoop) fun _ _ _ =>
      .rule (passive_loop _ _)
  | .doBody m h test, c, hc, hs => by
    rw [ExpHole.enter]
    refine (h.stops x ctx.enterLoop c hc (hs.loops _)).andThen (h.splits x ctx.enterLoop) fun body c₁ hb => ?_
    have hw := (walked_exp hc (hs.loops _) hb).1
    exact .exp hw.sound (hs.walked hw) (hs.walked hw) fun _ _ _ _ => .rule (passive_loop _ _)
  | .doTest m body h, c, hc, hs => by
    rw [ExpHole.enter]
    refine .bind fun body' c₁ hb => ?_
    have hw := (walked_exp hc (hs.loops _) hb).1
    exact (h.stops x ctx c₁ hw.sound (hs.walked hw)).andThen (h.splits x ctx) fun _ _ _ =>
      .rule (passive_loop _ _)
  | .forLow m counter h high body slot, c, hc, hs => by
    rw [ExpHole.enter]
    refine (h.stops x ctx c hc hs).andThen (h.splits x ctx) fun low c₁ hl => ?_
    have hw := (walked_exp hc hs hl).1
    exact .exp hw.sound (hs.walked hw) (hs.walked hw) fun _ _ hc hs => .passive (passive_bounds _ _) hc hs
      fun _ _ hc hs => .counter hc hs
  | .forHigh m counter low h body slot, c, hc, hs => by
    rw [ExpHole.enter]
    refine .exp hc hs fun low' c₁ hc hs => ?_
    refine (h.stops x ctx c₁ hc hs).andThen (h.splits x ctx) fun high c₂ hh => ?_
    have hw := (walked_exp hc hs hh).1
    exact .passive (passive_bounds _ _) hw.sound (hs.walked hw) fun _ _ hc hs => .counter hc hs
  | .forBody m counter low high h slot, c, hc, hs => by
    rw [ExpHole.enter]
    refine .exp hc hs fun low' c₁ hc hs => .exp hc hs fun high' c₂ hc hs => ?_
    refine .passive (passive_bounds _ _) hc hs fun fit c₃ hc hs => ?_
    refine .bind fun _ c₄ h₄ => .bind fun v c₅ h₅ => .bind fun _ c₆ h₆ => ?_
    have hcounter := hc.counter hs counter.name
    simp only [yields_bind, yields_pure] at hcounter
    obtain ⟨hc₆, hs₆, -⟩ := ((hcounter.of_run h₄).of_run h₅).of_run h₆
    exact (h.stops x ctx.enterLoop c₆ hc₆ (hs₆.loops _)).andThen (h.splits x ctx.enterLoop) fun _ _ _ =>
      .exitValues fun _ => .pure _
  | .letDec m before d after body, c, hc, hs => by
    rw [ExpHole.enter]
    refine .bind fun _ c₀ h₀ => ?_
    obtain rfl := Checker.eq_of_run_enterScopes h₀
    refine (stops_decs (d.kind_plug x) (d.splits x ctx) (d.stops x ctx) after before [] c.entered ?_).andThen
      (splits_decs (d.splits x ctx) after before []) fun r c₁ hr => ?_
    · have hmid : MidRun ctx c.entered ([].map fun _ => .variable 0) [] :=
        .bindings (List.forall_mem_nil _) hc.entered hs.entered
      show UnderWay ctx c.entered [] ([] ++ (before ++ d.plug x :: after))
      exact .midRun hmid
    · have hd := declared_decs hc.entered hs.entered hr
      exact .exp hd.sound hd.sits hd.sits fun _ _ _ _ => .bind .exitScopes fun _ _ _ => .pure _
  | .letBody m decs h, c, hc, hs => by
    rw [ExpHole.enter]
    refine .bind fun _ c₀ h₀ => .bind fun r c₁ hr => ?_
    obtain rfl := Checker.eq_of_run_enterScopes h₀
    have hd := declared_decs hc.entered hs.entered hr
    exact (h.stops x ctx c₁ hd.sound hd.sits).andThen (h.splits x ctx) fun _ _ _ =>
      .bind .exitScopes fun _ _ _ => .pure _
  | .arraySize m typeName h init, c, hc, hs => by
    rw [ExpHole.enter]
    refine .typeOf hc hs fun ty c₁ hc hs => ?_
    refine (h.stops x ctx c₁ hc hs).andThen (h.splits x ctx) fun size c₂ hz => ?_
    have hw := (walked_exp hc hs hz).1
    exact .exp hw.sound (hs.walked hw) (hs.walked hw) fun _ _ _ _ => .rule (passive_array _ _ _)
  | .arrayInit m typeName size h, c, hc, hs => by
    rw [ExpHole.enter]
    refine .typeOf hc hs fun ty c₁ hc hs => .exp hc hs fun size' c₂ hc hs => ?_
    exact (h.stops x ctx c₂ hc hs).andThen (h.splits x ctx) fun _ _ _ => .rule (passive_array _ _ _)

theorem VarHole.stops (x : Exp) (ctx : Context) : ∀ (h : VarHole) (c : Checker), c.Sound → ctx.Sits c →
    Stops x (h.enter x ctx) c
  | .field m v name position, c, hc, hs => by
    rw [VarHole.enter]
    exact (v.stops x ctx c hc hs).andThen (v.splits x ctx) fun _ _ _ => .rule (passive_field _)
  | .elementBase m v index, c, hc, hs => by
    rw [VarHole.enter]
    refine (v.stops x ctx c hc hs).andThen (v.splits x ctx) fun base c₁ hb => ?_
    have hw := (walked_var hc hs hb).1
    exact .exp hw.sound (hs.walked hw) (hs.walked hw) fun _ _ _ _ => .rule (passive_element _ _)
  | .elementIndex m base h, c, hc, hs => by
    rw [VarHole.enter]
    refine .bind fun base' c₁ hb => ?_
    have hw := (walked_var hc hs hb).1
    exact (h.stops x ctx c₁ hw.sound (hs.walked hw)).andThen (h.splits x ctx) fun _ _ _ =>
      .rule (passive_element _ _)

theorem DecHole.stops (x : Exp) (ctx : Context) : ∀ (h : DecHole) (c : Checker) (plan : Plan) (plans : List Plan)
    (run : List Dec), MidRun ctx c (plan :: plans) (h.plug x :: run) → Stops x (h.enter x ctx plan) c
  | .function head h loc id, c, .functionBody header, plans, run, hmid => by
    have hfits := hmid.fits
    obtain ⟨hc, hs⟩ := hmid.sound
    rw [DecHole.enter]
    refine .bind fun _ c₁ h₁ => .bind fun _ c₂ h₂ => ?_
    have hopen : Yields enterValues c fun _ d => Yields (bindParams head.params header.params) d
        fun _ d' => d' = c.inBody head header := yields_enterValues.mpr (yields_bindParams.mpr rfl)
    obtain rfl := (hopen.of_run h₁).of_run h₂
    have hsits := hfits.sits_inBody hs
    refine (h.stops x _ _ (hc.withValues _) hsits).andThen (h.splits x _) fun body c₃ hb => ?_
    have hw := (walked_exp (hc.withValues _) hsits hb).1
    exact .bodyRule hw.sound (hsits.walked hw)
  | .var name typeName h loc slot, c, .variable first, plans, run, hmid => by
    obtain ⟨hc, hs⟩ := hmid.sound
    rw [DecHole.enter]
    refine .bind fun again c₁ h₁ => ?_
    obtain rfl : c₁ = c := (yields_boundSince (Q := fun _ d => d = c).mpr rfl).of_run h₁
    cases again with
    | true => exact .throw
    | false =>
      refine (h.stops x ctx c₁ hc hs).andThen (h.splits x ctx) fun init c₂ hi => ?_
      obtain ⟨hw, hhas⟩ := walked_exp hc hs hi
      exact .declared hw.sound (hs.walked hw) hhas
  | .function .., _, .dropped, _, _, _ => .throw
  | .function .., _, .typeBody _, _, _, _ => .throw
  | .function .., _, .variable _, _, _, _ => .throw
  | .var .., _, .dropped, _, _, _ => .throw
  | .var .., _, .typeBody _, _, _, _ => .throw
  | .var .., _, .functionBody _, _, _, _ => .throw

end

end TigerCheck
