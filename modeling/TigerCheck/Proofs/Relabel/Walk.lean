import TigerCheck.Proofs.Relabel.Header
import TigerCheck.Proofs.Walk.Dec

/-!
# The walk under a relabelling

The check of a relabelled tree fills its cells with what the check of the tree finds, relabelled. This is proved
by induction on the tree: every node checks its parts in the same contexts, and what it does itself carries
over.

* `Stage.carries_each`, `Stage.carries_inits`, `Stage.carries_decs`: lists.
* **`Stage.carries_exp`**, `Stage.carries_var`, `Stage.carries_dec`: trees.
-/

namespace TigerCheck

open Check

namespace Stage

variable {ρ : Relabelling} {S : Stage ρ}

@[simp] theorem enterLoop_relabel (ctx : Context) :
    ctx.enterLoop.relabel ρ = (ctx.relabel ρ).enterLoop := rfl

mutual

/-- **The check of an expression carries over.** -/
theorem carries_exp : ∀ (e : Exp) (ctx : Context), S.Carries (·.relabel ρ) (checkExp ctx e)
    (checkExp (ctx.relabel ρ) (e.relabel ρ))
  | .var m v, ctx => by
    simp only [checkExp, Exp.relabel]
    refine (carries_var v ctx).bind fun v => relates_pure ?_
    simp [Exp.relabel]
  | .nil m, ctx => by
    simp only [checkExp, Exp.relabel]
    exact relates_pure (by simp [Exp.relabel, Ty.relabel])
  | .int m n, ctx => by
    simp only [checkExp, Exp.relabel]
    exact relates_pure (by simp [Exp.relabel, Ty.relabel])
  | .string m s, ctx => by
    simp only [checkExp, Exp.relabel]
    exact relates_pure (by simp [Exp.relabel, Ty.relabel])
  | .call m callee args function, ctx => by
    simp only [checkExp, Exp.relabel]
    refine (carries_target callee.name).bind fun target => ?_
    rw [expects_relabel, relabelAll_eq_map, List.length_map, ← relabelAll_eq_map]
    refine (carries_each args (Rule.Target.expects target args.length) ctx).bind fun r => ?_
    obtain ⟨args, fit⟩ := r
    simp only [Prod.map_apply, id_eq, relabelAll_eq_map, List.length_map]
    refine (carries_call m.loc callee target args.length fit).bind fun ty => relates_pure ?_
    cases target <;> simp [Exp.relabel, relabelAll_eq_map, Rule.Target.relabel]
  | .binary m op left right, ctx => by
    simp only [checkExp, Exp.relabel]
    refine (carries_exp left ctx).bind fun left => (carries_exp right ctx).bind fun right => ?_
    rw [Exp.ty_relabel, Exp.ty_relabel]
    refine (carries_binary op m.loc left.ty right.ty).bind fun ty => relates_pure ?_
    simp [Exp.relabel]
  | .record m typeName inits, ctx => by
    simp only [checkExp, Exp.relabel]
    refine (carries_typeOf typeName).bind fun ty => ?_
    rw [relabelInits_eq_map, List.length_map, ← relabelInits_eq_map]
    refine (carries_recordFields m.loc typeName inits.length ty).bind fun fields => ?_
    refine (carries_inits inits m.loc typeName.name fields ctx).bind fun r => relates_pure ?_
    obtain ⟨inits, fit⟩ := r
    cases fit <;> simp [Exp.relabel]
  | .seq m items, ctx => by
    simp only [checkExp, Exp.relabel]
    refine (carries_each items [] ctx).bind fun r => relates_pure ?_
    obtain ⟨items, fit⟩ := r
    cases fit <;> simp [Exp.relabel, lastTy_relabelAll]
  | .assign m target value, ctx => by
    simp only [checkExp, Exp.relabel]
    refine (carries_var target ctx).bind fun target => (carries_exp value ctx).bind fun value => ?_
    rw [Var.mark_relabel, Exp.mark_relabel]
    refine (carries_assign target.mark value.mark).bind fun ty => relates_pure ?_
    simp [Exp.relabel]
  | .cond m test thenPart none, ctx => by
    simp only [checkExp, Exp.relabel]
    refine (carries_exp test ctx).bind fun test => (carries_exp thenPart ctx).bind fun thenPart => ?_
    rw [Exp.mark_relabel, Exp.mark_relabel]
    refine (carries_cond m.loc test.mark thenPart.mark none).bind fun ty => relates_pure ?_
    simp [Exp.relabel]
  | .cond m test thenPart (some elsePart), ctx => by
    simp only [checkExp, Exp.relabel]
    refine (carries_exp test ctx).bind fun test => (carries_exp thenPart ctx).bind fun thenPart =>
      (carries_exp elsePart ctx).bind fun elsePart => ?_
    rw [Exp.mark_relabel, Exp.mark_relabel, Exp.mark_relabel]
    refine (carries_cond m.loc test.mark thenPart.mark (some elsePart.mark)).bind fun ty => relates_pure ?_
    simp [Exp.relabel]
  | .whileLoop m test body, ctx => by
    simp only [checkExp, Exp.relabel]
    refine (carries_exp test ctx).bind fun test => (carries_exp body ctx.enterLoop).bind fun body => ?_
    rw [Exp.mark_relabel, Exp.mark_relabel]
    refine (carries_loop test.mark body.mark).bind fun ty => relates_pure ?_
    simp [Exp.relabel]
  | .doWhile m body test, ctx => by
    simp only [checkExp, Exp.relabel]
    refine (carries_exp body ctx.enterLoop).bind fun body => (carries_exp test ctx).bind fun test => ?_
    rw [Exp.mark_relabel, Exp.mark_relabel]
    refine (carries_loop test.mark body.mark).bind fun ty => relates_pure ?_
    simp [Exp.relabel]
  | .forLoop m counter low high body slot, ctx => by
    simp only [checkExp, Exp.relabel]
    refine (carries_exp low ctx).bind fun low => (carries_exp high ctx).bind fun high => ?_
    rw [Exp.ty_relabel, Exp.ty_relabel]
    refine (carries_bounds m.loc low.ty high.ty).bind fun fit => carries_enterValues.bind fun _ => ?_
    refine (carries_alloc ctx.frame counter.name (ρ.value counter.name) (some .int) .loopCounter).bind
      fun slot => (carries_bindValue counter.name slot).bind fun _ => ?_
    refine (carries_exp body ctx.enterLoop).bind fun body => carries_exitValues.bind fun _ => relates_pure ?_
    rw [Exp.ty_relabel]
    cases fit <;> cases body.ty <;> simp [Exp.relabel, Ty.relabel]
  | .breakLoop m, ctx => by
    simp only [checkExp, Exp.relabel]
    have hfail : S.Carries (Option.map (Ty.relabel ρ)) (fail .breakOutsideLoop m.loc)
        (fail .breakOutsideLoop m.loc) := carries_fail rfl
    refine relates_ite Iff.rfl (relates_pure ?_) (hfail.bind fun ty => relates_pure ?_)
    · simp [Exp.relabel, Ty.relabel]
    · simp [Exp.relabel]
  | .letIn m decs body, ctx => by
    simp only [checkExp, Exp.relabel]
    refine carries_enterScopes.bind fun _ => (carries_decs decs [] [] .nil ctx).bind fun r => ?_
    obtain ⟨decs, fit⟩ := r
    refine (carries_exp body ctx).bind fun body => carries_exitScopes.bind fun _ => relates_pure ?_
    cases fit <;> simp [Exp.relabel]
  | .array m typeName size init, ctx => by
    simp only [checkExp, Exp.relabel]
    refine (carries_typeOf typeName).bind fun ty => (carries_exp size ctx).bind fun size =>
      (carries_exp init ctx).bind fun init => ?_
    rw [Exp.mark_relabel, Exp.mark_relabel]
    refine (carries_array typeName ty size.mark init.mark).bind fun ty => relates_pure ?_
    simp [Exp.relabel]

/-- The check of a variable carries over. -/
theorem carries_var : ∀ (v : Var) (ctx : Context), S.Carries (·.relabel ρ) (checkVar ctx v)
    (checkVar (ctx.relabel ρ) (v.relabel ρ))
  | .simple m name binding, ctx => by
    simp only [checkVar, Var.relabel]
    refine (carries_simple m.loc name).bind fun r => relates_pure ?_
    obtain ⟨slot, ty⟩ := r
    cases slot <;> simp [Var.relabel]
  | .field m base name position, ctx => by
    simp only [checkVar, Var.relabel]
    refine (carries_var base ctx).bind fun base => ?_
    rw [Var.mark_relabel]
    refine (carries_field m.loc base.mark name).bind fun r => relates_pure ?_
    simp [Var.relabel]
  | .element m base index, ctx => by
    simp only [checkVar, Var.relabel]
    refine (carries_var base ctx).bind fun base => (carries_exp index ctx).bind fun index => ?_
    rw [Var.mark_relabel, Exp.mark_relabel]
    refine (carries_element base.mark index.mark).bind fun ty => relates_pure ?_
    simp [Var.relabel]

theorem carries_each : ∀ (es : List Exp) (params : List Ty) (ctx : Context),
    S.Carries (Prod.map (relabelAll ρ) id) (checkEach ctx params es)
      (checkEach (ctx.relabel ρ) (params.map (·.relabel ρ)) (relabelAll ρ es))
  | [], params, ctx => by
    simp only [checkEach, relabelAll]
    exact carries_pure ([], true)
  | e :: es, params, ctx => by
    simp only [checkEach, relabelAll]
    refine (carries_exp e ctx).bind fun e => ?_
    rw [Exp.mark_relabel, List.head?_map, ← List.map_tail]
    exact (carries_arg params.head? e.mark).bind fun ok => (carries_each es params.tail ctx).bind fun r =>
      carries_pure (e :: r.1, ok && r.2)

theorem carries_inits : ∀ (is : List (Ident × Exp)) (loc : Location) (typeName : String)
    (fields : Option (List Field)) (ctx : Context),
    S.Carries (Prod.map (relabelInits ρ) id) (checkInits ctx loc typeName fields is)
      (checkInits (ctx.relabel ρ) loc (ρ.typeName typeName)
        (fields.map (List.map (·.relabel ρ))) (relabelInits ρ is))
  | [], loc, typeName, fields, ctx => by
    simp only [checkInits, relabelInits]
    exact relates_pure (by cases fields <;> rfl)
  | (name, e) :: is, loc, typeName, fields, ctx => by
    simp only [checkInits, relabelInits]
    refine (carries_place loc typeName name fields).bind fun fields => (carries_exp e ctx).bind fun e => ?_
    have hhead : ((fields.map (List.map (·.relabel ρ))).bind (·.head?)) =
        (fields.bind (·.head?)).map (·.relabel ρ) := by
      cases fields <;> simp
    have htail : ((fields.map (List.map (·.relabel ρ))).map (·.tail)) =
        (fields.map (·.tail)).map (List.map (·.relabel ρ)) := by
      cases fields <;> simp
    rw [Exp.mark_relabel, hhead, htail]
    exact (carries_init (fields.bind (·.head?)) e.mark).bind fun ok =>
      (carries_inits is loc typeName (fields.map (·.tail)) ctx).bind fun r =>
        carries_pure ((name, e) :: r.1, ok && r.2)

/-- The check of a declaration carries over, as planned. -/
theorem carries_dec : ∀ (d : Dec) (ctx : Context) (plan plan' : Plan), plan.Like ρ plan' →
    S.Carries (Prod.map (·.relabel ρ) id) (checkDec ctx plan d)
      (checkDec (ctx.relabel ρ) plan' (d.relabel ρ))
  | .type dec, ctx, _, _, .typeBody id => by
    simp only [checkDec, Dec.relabel]
    refine (carries_typeAt id).bind fun ty => relates_pure ?_
    cases ty <;> simp [Dec.relabel]
  | .function head body loc id, ctx, _, _, .functionBody header => by
    simp only [checkDec, Dec.relabel]
    refine carries_enterValues.bind fun _ => (carries_bindParams head.params header.params).bind fun _ => ?_
    refine (carries_exp body ⟨header.level, header.frame, 0⟩).bind fun body => carries_exitValues.bind fun _ => ?_
    refine (carries_finalize header.frame).bind fun _ => ?_
    rw [Exp.mark_relabel]
    refine (carries_body header.result body.mark).bind fun ok => relates_pure ?_
    simp [Dec.relabel, Header.relabel]
  | .var name typeName init loc slot, ctx, _, _, .since hfirst => by
    simp only [checkDec, Dec.relabel]
    refine (carries_boundSince hfirst name.name).bind fun bound => relates_ite Iff.rfl ?_ ?_
    · refine Relates.bind (carries_report ⟨.var, rfl⟩) fun _ => relates_pure ?_
      simp [Dec.relabel]
    · refine (carries_exp init ctx).bind fun init => ?_
      rw [Exp.mark_relabel, Exp.isLiteral_relabel]
      refine (carries_declared typeName init.mark init.isLiteral).bind fun r => ?_
      obtain ⟨ty, ok⟩ := r
      refine (carries_alloc ctx.frame name.name (ρ.value name.name) ty .letBound).bind fun slot =>
        (carries_bindValue name.name slot).bind fun _ => relates_pure ?_
      simp [Dec.relabel]
  | .type _, _, _, _, .dropped | .function .., _, _, _, .dropped | .var .., _, _, _, .dropped
  | .function .., _, _, _, .typeBody _ | .var .., _, _, _, .typeBody _
  | .type _, _, _, _, .functionBody _ | .var .., _, _, _, .functionBody _
  | .type _, _, _, _, .since _ | .function .., _, _, _, .since _ => by
    simp only [checkDec, Dec.relabel]
    exact relates_pure (by simp [Dec.relabel])

theorem carries_decs : ∀ (ds : List Dec) (plans plans' : List Plan),
    List.Forall₂ (Plan.Like ρ) plans plans' → ∀ ctx : Context,
      S.Carries (Prod.map (relabelDecs ρ) id) (checkDecs ctx plans ds)
        (checkDecs (ctx.relabel ρ) plans' (relabelDecs ρ ds))
  | [], plans, plans', _, ctx => by
    simp only [checkDecs, relabelDecs]
    exact carries_pure ([], true)
  | d :: ds, plans, plans', hplans, ctx => by
    have hgo : ∀ plans plans', List.Forall₂ (Plan.Like ρ) plans plans' →
        S.Carries (Prod.map (relabelDecs ρ) id)
          (do
            let (d, ok) ← checkDec ctx (plans.headD .dropped) d
            let (ds, oks) ← checkDecs ctx plans.tail ds
            return (d :: ds, ok && oks))
          (do
            let (d, ok) ← checkDec (ctx.relabel ρ) (plans'.headD .dropped) (d.relabel ρ)
            let (ds, oks) ← checkDecs (ctx.relabel ρ) plans'.tail (relabelDecs ρ ds)
            return (d :: ds, ok && oks)) := fun _ _ hplans =>
      (carries_dec d ctx _ _ (Plan.like_headD hplans)).bind fun r =>
        (carries_decs ds _ _ (Plan.likes_tail hplans) ctx).bind fun rs => carries_pure (r.1 :: rs.1, r.2 && rs.2)
    rw [checkDecs, relabelDecs, checkDecs]
    refine relates_ite (by cases hplans <;> simp) ?_ (hgo _ _ hplans)
    have hopen := relates_openRun (S := S) ctx d.kind (Dec.leadingRun (d :: ds)) fun e he => kind_of_mem_leadingRun he
    rw [← leadingRun_relabelDecs] at hopen
    exact hopen.andThen (Plan.exists_likes S.faithful) hgo

end

end Stage

end TigerCheck
