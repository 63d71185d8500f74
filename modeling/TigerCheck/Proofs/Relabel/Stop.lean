import TigerCheck.Proofs.Relabel.Start
import TigerCheck.Proofs.Tree.Graft
import TigerCheck.Proofs.Walk.Stop

/-!
# Stopping under a renumbering

The walk over a tree stops before the check of one of its parts. If numbers stay as they are up to this point,
all that is at hand there stays as well. So the walk behind it carries over, whatever numbers the entries get
that are new there, with one checked part in place of the other.

* `Stage.Passes`: a walk that stops, and goes on behind the stop with another part.
* `Stage.Passes.bind`, `Stage.Passes.andThen`: before the stop, and behind it.
* **`ExpHole.passes`**: the walk over an expression.
-/

namespace TigerCheck

open Check

namespace Stage

variable {ρ : Relabelling} {S : Stage ρ} {P Q : Prop} {y₀ y : Exp} {α β γ : Type}

/-- Tables only grow as far as the stop. If `P` holds and a state is the same on both sides, so is the state at the
stop, as long as no table grows beyond its limit. What follows the stop answers the same for `y` as for `y₀`, up to
the replacement `φ`. -/
def Passes (S : Stage ρ) (P : Prop) (y₀ y : Exp) (φ : α → α) (pre : Check (Stop α)) : Prop :=
  ∀ c s c₀, pre.run c = .ok (s, c₀) → c.count ≤ c₀.count ∧ (P → S.Match c c → c₀.count ≤ S.limit →
    S.Match c₀ c₀ ∧ s.ctx.relabel ρ = s.ctx ∧ ∀ T : Stage ρ, T.Carries φ (s.next y₀) (s.next y))

namespace Passes

variable {φ : α → α} {ψ : β → β} {pre : Check (Stop α)}

theorem mono (h : S.Passes Q y₀ y φ pre) (hPQ : P → Q) : S.Passes P y₀ y φ pre := fun c s c₀ hrun =>
  ⟨(h c s c₀ hrun).1, fun hP => (h c s c₀ hrun).2 (hPQ hP)⟩

/-- An action before the stop, which is the same on both sides. -/
theorem step {R : γ → γ → Prop} {n : Check γ} {g : γ → Check (Stop α)}
    (hn : ∀ c b c', n.run c = .ok (b, c') → c.count ≤ c'.count) (hself : P → S.Relates R n n)
    (hg : ∀ b, S.Passes (P ∧ R b b) y₀ y φ (g b)) : S.Passes P y₀ y φ (n >>= g) := by
  intro c s c₀ hrun
  obtain ⟨b, c₁, h₁, h₂⟩ := exists_of_run_bind hrun
  have hle₁ := hn c b c₁ h₁
  obtain ⟨hle₂, hstop⟩ := hg b c₁ s c₀ h₂
  refine ⟨hle₁.trans hle₂, fun hP hM hlim => ?_⟩
  obtain ⟨hR, hM₁⟩ := (hself hP c b c₁ h₁).2 c b c₁ h₁ hM (hle₂.trans hlim)
  exact hstop ⟨hP, hR⟩ hM₁ hlim

/-- The same, where the relabelled action is this action. -/
theorem bind {R : γ → γ → Prop} {n n' : Check γ} {g : γ → Check (Stop α)} (hn : S.Relates R n n')
    (hself : P → n' = n) (hg : ∀ b, S.Passes (P ∧ R b b) y₀ y φ (g b)) : S.Passes P y₀ y φ (n >>= g) :=
  .step (fun c b c' hrun => (hn c b c' hrun).1) (fun hP => hself hP ▸ hn) hg

/-- The walk goes on with something else behind the stop. -/
theorem andThen {k : α → Check β} (h : S.Passes P y₀ y φ pre)
    (hk : P → ∀ (T : Stage ρ) (a : α), T.Carries ψ (k a) (k (φ a))) :
    S.Passes P y₀ y ψ (pre >>= fun s => pure (s.andThen k)) := by
  intro c s c₀ hrun
  obtain ⟨s', c₁, h₁, h₂⟩ := exists_of_run_bind hrun
  cases h₂
  obtain ⟨hle, hstop⟩ := h c s' c₀ h₁
  refine ⟨hle, fun hP hM hlim => ?_⟩
  obtain ⟨hM₀, hctx, hnext⟩ := hstop hP hM hlim
  exact ⟨hM₀, hctx, fun T => (hnext T).bind (hk hP T)⟩

/-- The stop itself. -/
theorem stop {ctx : Context} {k : Exp → Check β} (hctx : P → ctx.relabel ρ = ctx)
    (hk : P → ∀ T : Stage ρ, T.Carries ψ (k y₀) (k y)) : S.Passes P y₀ y ψ (pure ⟨ctx, k⟩) := by
  intro c s c₀ hrun
  cases hrun
  exact ⟨le_rfl, fun hP hM _ => ⟨hM, hctx hP, hk hP⟩⟩

theorem throw {e : Breach} : S.Passes P y₀ y φ (MonadExcept.throw e) := by
  intro c s c₀ hrun
  cases hrun

theorem ite {p : Prop} [Decidable p] {pre' : Check (Stop α)} (h : S.Passes P y₀ y φ pre)
    (h' : S.Passes P y₀ y φ pre') : S.Passes P y₀ y φ (if p then pre else pre') := by
  split_ifs
  · exact h
  · exact h'

end Passes

/-! ## Actions that are the same on both sides -/

section

variable {T : Stage ρ} {ctx : Context}

theorem carries_exp_self {e : Exp} (hctx : ctx.relabel ρ = ctx) (he : e.relabel ρ = e) :
    T.Carries (·.relabel ρ) (checkExp ctx e) (checkExp ctx e) := by
  have h := carries_exp (S := T) e ctx
  rwa [hctx, he] at h

theorem carries_each_self {es : List Exp} {params : List Ty} (hctx : ctx.relabel ρ = ctx)
    (hes : relabelAll ρ es = es) (hparams : params.map (·.relabel ρ) = params) :
    T.Carries (Prod.map (relabelAll ρ) id) (checkEach ctx params es) (checkEach ctx params es) := by
  have h := carries_each (S := T) es params ctx
  rwa [hctx, hes, hparams] at h

theorem head?_self {params : List Ty} (h : params.map (·.relabel ρ) = params) :
    params.head?.map (·.relabel ρ) = params.head? := by
  rw [← List.head?_map, h]

theorem head_self {fields : Option (List Field)} (h : fields.map (List.map (·.relabel ρ)) = fields) :
    (fields.bind (·.head?)).map (·.relabel ρ) = fields.bind (·.head?) := by
  cases fields with
  | none => rfl
  | some fields =>
    rw [Option.map_some, Option.some.injEq] at h
    rw [Option.bind_some, ← List.head?_map, h]

theorem tails_self {fields : Option (List Field)} (h : fields.map (List.map (·.relabel ρ)) = fields) :
    (fields.map (·.tail)).map (List.map (·.relabel ρ)) = fields.map (·.tail) := by
  cases fields with
  | none => rfl
  | some fields =>
    rw [Option.map_some, Option.some.injEq] at h
    rw [Option.map_some, Option.map_some, List.map_tail, h]

theorem tail_self {params : List Ty} (h : params.map (·.relabel ρ) = params) :
    params.tail.map (·.relabel ρ) = params.tail := by
  rw [List.map_tail, h]

end

/-! ## Lists of parts -/

section

variable {ctx : Context} {hole : Check (Stop Exp)} {g : Exp → Exp}

theorem passes_each (hg : ∀ e, (g e).mark = e.mark) (hhole : S.Passes P y₀ y (fun e => g (e.relabel ρ)) hole)
    (after : List Exp) : ∀ (before : List Exp) (params : List Ty),
      S.Passes (P ∧ ctx.relabel ρ = ctx ∧ params.map (·.relabel ρ) = params ∧ relabelAll ρ before = before ∧
          relabelAll ρ after = after) y₀ y
        (fun r => ((relabelAll ρ r.1).modify before.length g, r.2)) (enterEach ctx hole after params before)
  | [], params => by
    rw [enterEach]
    refine (hhole.mono And.left).andThen fun hP T e => ?_
    obtain ⟨-, hctx, hparams, -, hafter⟩ := hP
    have harg := carries_arg (S := T) params.head? e.mark
    rw [head?_self hparams, ← Exp.mark_relabel, ← hg (e.relabel ρ)] at harg
    dsimp only
    refine harg.bind fun ok => ?_
    refine Relates.bind (carries_each_self hctx hafter (tail_self hparams)) fun r => ?_
    exact relates_pure (by simp [relabelAll])
  | e :: before, params => by
    rw [enterEach]
    refine .bind (carries_exp e ctx) ?_ fun e' => .bind (carries_arg params.head? e'.mark) ?_ fun ok => ?_
    · rintro ⟨_, hctx, -, hbefore, -⟩
      rw [hctx, (List.cons.inj hbefore).1]
    · rintro ⟨⟨_, -, hparams, -⟩, he⟩
      rw [head?_self hparams, ← Exp.mark_relabel, show e'.relabel ρ = e' from he.symm]
    · refine ((passes_each hg hhole after before params.tail).mono ?_).andThen fun hP _ r => relates_pure ?_
      · rintro ⟨⟨⟨hP, hctx, hparams, hbefore, hafter⟩, -⟩, -⟩
        exact ⟨hP, hctx, tail_self hparams, (List.cons.inj hbefore).2, hafter⟩
      · have he : e'.relabel ρ = e' := hP.1.2.symm
        simp [relabelAll, he]

theorem carries_inits_self {T : Stage ρ} {is : List (Ident × Exp)} {loc : Location} {typeName : String}
    {fields : Option (List Field)} (hctx : ctx.relabel ρ = ctx) (his : relabelInits ρ is = is)
    (hname : ρ.typeName typeName = typeName) (hfields : fields.map (List.map (·.relabel ρ)) = fields) :
    T.Carries (Prod.map (relabelInits ρ) id) (checkInits ctx loc typeName fields is)
      (checkInits ctx loc typeName fields is) := by
  have h := carries_inits (S := T) is loc typeName fields ctx
  rwa [hctx, his, hname, hfields] at h

theorem passes_inits (hg : ∀ e, (g e).mark = e.mark) (hhole : S.Passes P y₀ y (fun e => g (e.relabel ρ)) hole)
    {loc : Location} {typeName : String} {name : Ident} (after : List (Ident × Exp)) :
    ∀ (before : List (Ident × Exp)) (fields : Option (List Field)),
      S.Passes (P ∧ ctx.relabel ρ = ctx ∧ fields.map (List.map (·.relabel ρ)) = fields ∧
          ρ.typeName typeName = typeName ∧ name.rename ρ.field = name ∧ relabelInits ρ before = before ∧
          relabelInits ρ after = after) y₀ y
        (fun r => ((relabelInits ρ r.1).modify before.length (Prod.map id g), r.2))
        (enterInits ctx hole loc typeName name after fields before)
  | [], fields => by
    rw [enterInits]
    refine .bind (carries_place loc typeName name fields) ?_ fun fields' => ?_
    · rintro ⟨_, -, hfields, htypeName, hname, -⟩
      rw [hfields, htypeName, hname]
    refine (hhole.mono fun hP => hP.1.1).andThen fun hP T e => ?_
    obtain ⟨⟨-, hctx, -, htypeName, hname, -, hafter⟩, hfields⟩ := hP
    have hinit := carries_init (S := T) (fields'.bind (·.head?)) e.mark
    rw [head_self hfields.symm, ← Exp.mark_relabel, ← hg (e.relabel ρ)] at hinit
    dsimp only
    refine hinit.bind fun ok => ?_
    refine Relates.bind (carries_inits_self hctx hafter htypeName (tails_self hfields.symm)) fun r => ?_
    exact relates_pure (by simp [relabelInits, hname])
  | (other, e) :: before, fields => by
    rw [enterInits]
    refine .bind (carries_place loc typeName other fields) ?_ fun fields' =>
      .bind (carries_exp e ctx) ?_ fun e' => .bind (carries_init (fields'.bind (·.head?)) e'.mark) ?_ fun ok => ?_
    · rintro ⟨_, -, hfields, htypeName, -, hbefore, -⟩
      rw [hfields, htypeName, (Prod.mk.inj (List.cons.inj hbefore).1).1]
    · rintro ⟨⟨_, hctx, -, -, -, hbefore, -⟩, -⟩
      rw [hctx, (Prod.mk.inj (List.cons.inj hbefore).1).2]
    · rintro ⟨⟨-, hfields⟩, he⟩
      rw [head_self hfields.symm, ← Exp.mark_relabel, show e'.relabel ρ = e' from he.symm]
    · refine ((passes_inits hg hhole after before _).mono ?_).andThen fun hP _ r => relates_pure ?_
      · rintro ⟨⟨⟨⟨hP, hctx, -, htypeName, hname, hbefore, hafter⟩, hfields⟩, -⟩, -⟩
        exact ⟨hP, hctx, tails_self hfields.symm, htypeName, hname, (List.cons.inj hbefore).2, hafter⟩
      · obtain ⟨⟨⟨⟨_, -, -, -, -, hbefore, -⟩, -⟩, he⟩, -⟩ := hP
        simp [relabelInits, show e'.relabel ρ = e' from he.symm, (Prod.mk.inj (List.cons.inj hbefore).1).1]

end

/-! ## Declarations -/

theorem relabelDecs_append (ds es : List Dec) : relabelDecs ρ (ds ++ es) = relabelDecs ρ ds ++ relabelDecs ρ es := by
  rw [relabelDecs_eq_map, relabelDecs_eq_map, relabelDecs_eq_map, List.map_append]

section

variable {ctx : Context} {d : Dec} {hole : Plan → Check (Stop (Dec × Bool))} {g : Dec → Dec}

theorem carries_decs_self {T : Stage ρ} {ds : List Dec} {plans : List Plan} (hctx : ctx.relabel ρ = ctx)
    (hds : relabelDecs ρ ds = ds) (hplans : List.Forall₂ (Plan.Like ρ) plans plans) :
    T.Carries (Prod.map (relabelDecs ρ) id) (checkDecs ctx plans ds) (checkDecs ctx plans ds) := by
  have h := carries_decs (S := T) ds plans plans hplans ctx
  rwa [hctx, hds] at h

/-- Opening a run before the stop. -/
theorem Passes.openRun {φ : α → α} {e : Dec} {ds : List Dec} {k : List Plan → Check (Stop α)}
    (hself : P → ctx.relabel ρ = ctx ∧ relabelDecs ρ (e :: ds) = e :: ds)
    (hk : ∀ plans, S.Passes (P ∧ List.Forall₂ (Plan.Like ρ) plans plans) y₀ y φ (k plans)) :
    S.Passes P y₀ y φ (Check.openRun ctx (Dec.leadingRun (e :: ds)) >>= k) := by
  refine .bind (relates_openRun ctx e.kind _ fun _ he => kind_of_mem_leadingRun he) (fun hP => ?_) hk
  rw [(hself hP).1, ← leadingRun_relabelDecs, (hself hP).2]

theorem passes_decs (hhole : ∀ plan, S.Passes (P ∧ Plan.Like ρ plan plan) y₀ y
      (fun r => (g (r.1.relabel ρ), r.2)) (hole plan)) (after : List Dec) : ∀ (before : List Dec) (plans : List Plan),
      S.Passes (P ∧ ctx.relabel ρ = ctx ∧ List.Forall₂ (Plan.Like ρ) plans plans ∧
          relabelDecs ρ before = before ∧ relabelDecs ρ (d :: after) = d :: after) y₀ y
        (fun r => ((relabelDecs ρ r.1).modify before.length g, r.2)) (enterDecs ctx d hole after plans before)
  | [], plans => by
    have hgo : ∀ plans, S.Passes (P ∧ ctx.relabel ρ = ctx ∧ relabelDecs ρ (d :: after) = d :: after ∧
          List.Forall₂ (Plan.Like ρ) plans plans) y₀ y
        (fun r : List Dec × Bool => ((relabelDecs ρ r.1).modify 0 g, r.2))
        (hole (plans.headD .dropped) >>= fun s => pure (s.andThen fun r =>
          checkDecs ctx plans.tail after >>= fun rs => pure (r.1 :: rs.1, r.2 && rs.2))) := by
      intro plans
      refine ((hhole (plans.headD .dropped)).mono fun hP => ⟨hP.1, Plan.like_headD hP.2.2.2⟩).andThen fun hP T r => ?_
      obtain ⟨-, hctx, hds, hplans⟩ := hP
      refine Relates.bind (carries_decs_self hctx (List.cons.inj hds).2 (Plan.likes_tail hplans)) fun rs => ?_
      exact relates_pure (by simp [relabelDecs])
    rw [enterDecs]
    refine .ite (.openRun ?_ fun plans => (hgo plans).mono ?_) ?_
    · rintro ⟨_, hctx, -, -, hds⟩
      exact ⟨hctx, hds⟩
    · rintro ⟨⟨hP, hctx, -, -, hds⟩, hplans⟩
      exact ⟨hP, hctx, hds, hplans⟩
    · rw [pure_bind]
      refine (hgo plans).mono ?_
      rintro ⟨hP, hctx, hplans, -, hds⟩
      exact ⟨hP, hctx, hds, hplans⟩
  | e :: before, plans => by
    have hgo : ∀ plans, S.Passes (P ∧ ctx.relabel ρ = ctx ∧ List.Forall₂ (Plan.Like ρ) plans plans ∧
          relabelDecs ρ (e :: before) = e :: before ∧ relabelDecs ρ (d :: after) = d :: after) y₀ y
        (fun r : List Dec × Bool => ((relabelDecs ρ r.1).modify (before.length + 1) g, r.2))
        (checkDec ctx (plans.headD .dropped) e >>= fun r =>
          enterDecs ctx d hole after plans.tail before >>= fun s =>
            pure (s.andThen fun rs => return (r.1 :: rs.1, r.2 && rs.2))) := by
      intro plans
      obtain ⟨plan', hplan'⟩ := Plan.exists_like S.faithful (plans.headD .dropped)
      refine .step (R := fun r r' => r' = Prod.map (·.relabel ρ) id r) (fun c b c' hrun =>
        (carries_dec (S := S) e ctx _ plan' hplan' c b c' hrun).1) ?_ fun r => ?_
      · rintro ⟨_, hctx, hplans, hbefore, -⟩
        have hdec := carries_dec (S := S) e ctx _ _ (Plan.like_headD hplans)
        rwa [hctx, (List.cons.inj hbefore).1] at hdec
      · refine ((passes_decs hhole after before plans.tail).mono ?_).andThen fun hP _ rs => relates_pure ?_
        · rintro ⟨⟨hP, hctx, hplans, hbefore, hds⟩, -⟩
          exact ⟨hP, hctx, Plan.likes_tail hplans, (List.cons.inj hbefore).2, hds⟩
        · have hr : r.1.relabel ρ = r.1 := congrArg Prod.fst hP.2.symm
          simp [relabelDecs, hr]
    rw [enterDecs]
    refine .ite (.openRun ?_ fun plans => (hgo plans).mono ?_) ?_
    · rintro ⟨_, hctx, -, hbefore, hds⟩
      refine ⟨hctx, ?_⟩
      rw [← List.cons_append, relabelDecs_append, hbefore, hds]
    · rintro ⟨⟨hP, hctx, -, hbefore, hds⟩, hplans⟩
      exact ⟨hP, hctx, hplans, hbefore, hds⟩
    · rw [pure_bind]
      exact hgo plans

end

end Stage

end TigerCheck
