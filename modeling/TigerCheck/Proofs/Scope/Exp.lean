import TigerCheck.Proofs.Scope.Survey
import TigerCheck.Proofs.Walk.Kept

/-!
# The sites of expressions

Every expression is surveyed: what its check adds agrees with its live sites, which all hold from then on,
and the check changes nothing in the tree but the cells of live nodes. There is one lemma for each form of
expressions and variables; let blocks come with their declarations.

* `ExpSurveyed`, `VarSurveyed`: the statement for one expression and for one variable.
* `ExpSurveyed.of_kept`, `VarSurveyed.of_kept`: what is left to show of it.
* `surveyed_checkEach`, `surveyed_checkInits`: lists of expressions.
* **`ExpSurveyed.call`**, **`VarSurveyed.simple`**: where names of functions and variables are looked up.
* **`ExpSurveyed.forLoop`**: the counter is in scope in the body only.
-/

namespace TigerCheck

open Check

/-- **The check of an expression is surveyed**, wherever the expression stands, and keeps everything but
cells. -/
def ExpSurveyed (e : Exp) : Prop :=
  ∀ ⦃ctx : Context⦄ ⦃pl : Place⦄ ⦃n : ℕ⦄ ⦃c c' : Checker⦄ ⦃e' : Exp⦄, ctx.Stands pl n c → e.blank = e →
    (checkExp ctx e).run c = .ok (e', c') →
    Surveyed ctx pl n c (fun t => e'.live.sites t pl n) e'.live.ownSlots e'.live.typeDecs c' ∧
      e'.blank = e.blank ∧ e'.dropped = e.dropped

/-- The check of a variable is surveyed. -/
def VarSurveyed (v : Var) : Prop :=
  ∀ ⦃ctx : Context⦄ ⦃pl : Place⦄ ⦃n : ℕ⦄ ⦃c c' : Checker⦄ ⦃v' : Var⦄, ctx.Stands pl n c → v.blank = v →
    (checkVar ctx v).run c = .ok (v', c') →
    Surveyed ctx pl n c (fun t => v'.live.sites t pl n) v'.live.ownSlots v'.live.typeDecs c' ∧
      v'.blank = v.blank ∧ v'.dropped = v.dropped

variable {ctx : Context} {pl : Place} {n : ℕ} {c c' : Checker} {m : Mark}

/-- What the check leaves alone is known already, so only what it adds is surveyed. -/
theorem ExpSurveyed.of_kept {e : Exp} (h : ∀ (ctx : Context) (pl : Place) (n : ℕ) (c c' : Checker) (e' : Exp),
    ctx.Stands pl n c → e.blank = e → (checkExp ctx e).run c = .ok (e', c') →
    Surveyed ctx pl n c (fun t => e'.live.sites t pl n) e'.live.ownSlots e'.live.typeDecs c') :
    ExpSurveyed e := by
  intro ctx pl n c c' e' hst hf hrun
  have hkept := expKept e hst.sound hst.sits hrun
  exact ⟨h ctx pl n c c' e' hst hf hrun, hkept.blank, hkept.dropped⟩

theorem VarSurveyed.of_kept {v : Var} (h : ∀ (ctx : Context) (pl : Place) (n : ℕ) (c c' : Checker) (v' : Var),
    ctx.Stands pl n c → v.blank = v → (checkVar ctx v).run c = .ok (v', c') →
    Surveyed ctx pl n c (fun t => v'.live.sites t pl n) v'.live.ownSlots v'.live.typeDecs c') :
    VarSurveyed v := by
  intro ctx pl n c c' v' hst hf hrun
  have hkept := keptCases.all.2.1 v hst.sound hst.sits hrun
  exact ⟨h ctx pl n c c' v' hst hf hrun, hkept.blank, hkept.dropped⟩

/-! ## Leaves -/

theorem ExpSurveyed.nil : ExpSurveyed (.nil m) := by
  refine .of_kept fun ctx pl n c c' e' hst _ h => ?_
  obtain ⟨rfl, rfl⟩ := eq_of_run_nil h
  exact .refl hst

theorem ExpSurveyed.int {k : Int64} : ExpSurveyed (.int m k) := by
  refine .of_kept fun ctx pl n c c' e' hst _ h => ?_
  obtain ⟨rfl, rfl⟩ := eq_of_run_int h
  exact .refl hst

theorem ExpSurveyed.string {s : String} : ExpSurveyed (.string m s) := by
  refine .of_kept fun ctx pl n c c' e' hst _ h => ?_
  obtain ⟨rfl, rfl⟩ := eq_of_run_string h
  exact .refl hst

theorem ExpSurveyed.breakLoop : ExpSurveyed (.breakLoop m) := by
  refine .of_kept fun ctx pl n c c' e' hst _ h => ?_
  rcases exists_of_run_breakLoop h with ⟨-, rfl, rfl⟩ | ⟨-, rfl, rfl⟩
  · exact .refl hst
  · refine .of_reports (.none (Checker.Says.report _ _ .quiet).extends rfl rfl rfl rfl ?_)
      (.report _ _ .quiet) hst fun _ _ => List.forall_mem_nil _
    exact (Diagnostics.undefined_report ..).trans (by rw [if_neg (by exact nofun), List.append_nil])

theorem ExpSurveyed.var {v : Var} (hv : VarSurveyed v) : ExpSurveyed (.var m v) := by
  refine .of_kept fun ctx pl n c c' e' hst hf h => ?_
  obtain ⟨v', h₁, rfl⟩ := exists_of_run_var h
  simp only [Exp.blank, Exp.var.injEq] at hf
  exact (hv hst hf.2 h₁).1

/-! ## Operators, assignments and conditions -/

theorem ExpSurveyed.binary {op : BinOp} {left right : Exp} (hl : ExpSurveyed left)
    (hr : ExpSurveyed right) : ExpSurveyed (.binary m op left right) := by
  refine .of_kept fun ctx pl n c c' e' hst hf h => ?_
  obtain ⟨left', c₁, right', c₂, ty, h₁, h₂, h₃, rfl⟩ := exists_of_run_binary h
  simp only [Exp.blank, Exp.binary.injEq] at hf
  have hleft := (hl hst hf.2.2.1 h₁).1
  have hright := (hr hleft.stands hf.2.2.2 h₂).1
  have hboth := hleft.seq hright hst
  exact hboth.andThen ((passive_binary _ _).surveyed h₃ hboth.stands) hst

theorem ExpSurveyed.assign {target : Var} {value : Exp} (ht : VarSurveyed target)
    (hv : ExpSurveyed value) : ExpSurveyed (.assign m target value) := by
  refine .of_kept fun ctx pl n c c' e' hst hf h => ?_
  obtain ⟨target', c₁, value', c₂, ty, h₁, h₂, h₃, rfl⟩ := exists_of_run_assign h
  simp only [Exp.blank, Exp.assign.injEq] at hf
  have htarget := (ht hst hf.2.1 h₁).1
  have hvalue := (hv htarget.stands hf.2.2 h₂).1
  have hboth := htarget.seq hvalue hst
  exact hboth.andThen ((passive_assign _ _).surveyed h₃ hboth.stands) hst

theorem ExpSurveyed.condNone {test thenPart : Exp} (ht : ExpSurveyed test) (hp : ExpSurveyed thenPart) :
    ExpSurveyed (.cond m test thenPart none) := by
  refine .of_kept fun ctx pl n c c' e' hst hf h => ?_
  obtain ⟨test', c₁, then', c₂, ty, h₁, h₂, h₃, rfl⟩ := exists_of_run_condNone h
  simp only [Exp.blank, Exp.cond.injEq] at hf
  have htest := (ht hst hf.2.1 h₁).1
  have hthen := (hp htest.stands hf.2.2.1 h₂).1
  have hboth := htest.seq hthen hst
  exact hboth.andThen ((passive_cond _ _ _).surveyed h₃ hboth.stands) hst

theorem ExpSurveyed.condSome {test thenPart elsePart : Exp} (ht : ExpSurveyed test)
    (hp : ExpSurveyed thenPart) (he : ExpSurveyed elsePart) :
    ExpSurveyed (.cond m test thenPart (some elsePart)) := by
  refine .of_kept fun ctx pl n c c' e' hst hf h => ?_
  obtain ⟨test', c₁, then', c₂, else', c₃, ty, h₁, h₂, h₃, h₄, rfl⟩ := exists_of_run_condSome h
  simp only [Exp.blank, Exp.cond.injEq, Option.some.injEq] at hf
  have htest := (ht hst hf.2.1 h₁).1
  have hthen := (hp htest.stands hf.2.2.1 h₂).1
  have helse := (he hthen.stands hf.2.2.2 h₃).1
  have hall := (htest.seq hthen hst).seq helse hst
  exact hall.andThen ((passive_cond _ _ _).surveyed h₄ hall.stands) hst

/-! ## Loops and array literals -/

theorem ExpSurveyed.whileLoop {test body : Exp} (ht : ExpSurveyed test) (hb : ExpSurveyed body) :
    ExpSurveyed (.whileLoop m test body) := by
  refine .of_kept fun ctx pl n c c' e' hst hf h => ?_
  obtain ⟨test', c₁, body', c₂, ty, h₁, h₂, h₃, rfl⟩ := exists_of_run_whileLoop h
  simp only [Exp.blank, Exp.whileLoop.injEq] at hf
  have htest := (ht hst hf.2.1 h₁).1
  have hbody := (hb htest.stands.loops hf.2.2 h₂).1
  have hboth := htest.seq hbody.unloop hst
  exact hboth.andThen ((passive_loop _ _).surveyed h₃ hboth.stands) hst

theorem ExpSurveyed.doWhile {body test : Exp} (hb : ExpSurveyed body) (ht : ExpSurveyed test) :
    ExpSurveyed (.doWhile m body test) := by
  refine .of_kept fun ctx pl n c c' e' hst hf h => ?_
  obtain ⟨body', c₁, test', c₂, ty, h₁, h₂, h₃, rfl⟩ := exists_of_run_doWhile h
  simp only [Exp.blank, Exp.doWhile.injEq] at hf
  have hbody := (hb hst.loops hf.2.1 h₁).1
  have htest := (ht hbody.unloop.stands hf.2.2 h₂).1
  have hboth := hbody.unloop.seq htest hst
  exact hboth.andThen ((passive_loop _ _).surveyed h₃ hboth.stands) hst

theorem ExpSurveyed.array {typeName : Ident} {size init : Exp} (hz : ExpSurveyed size)
    (hi : ExpSurveyed init) : ExpSurveyed (.array m typeName size init) := by
  refine .of_kept fun ctx pl n c c' e' hst hf h => ?_
  obtain ⟨ty, c₁, size', c₂, init', c₃, ty', h₁, h₂, h₃, h₄, rfl⟩ := exists_of_run_array h
  simp only [Exp.blank, Exp.array.injEq] at hf
  have hname := surveyed_typeOf h₁ hst
  have hsize := (hz hname.stands hf.2.2.1 h₂).1
  have hinit := (hi hsize.stands hf.2.2.2 h₃).1
  have hall := hname.seq (hsize.seq hinit hname.stands) hst
  exact (hall.andThen ((passive_array _ _ _).surveyed h₄ hall.stands) hst).congr (fun t => rfl) rfl
    (Nat.zero_add _).symm

/-! ## Lists -/

/-- Expressions are surveyed one after another. -/
theorem surveyed_checkEach {es : List Exp} (h : ∀ e ∈ es, ExpSurveyed e) :
    ∀ {ctx : Context} {params : List Ty} {pl : Place} {n : ℕ} {c c' : Checker} {r : List Exp × Bool},
    ctx.Stands pl n c → blankAll es = es → (checkEach ctx params es).run c = .ok (r, c') →
    Surveyed ctx pl n c (fun t => sitesAll t pl n (liveAll r.1)) (ownSlotsAll (liveAll r.1))
        (typeDecsAll (liveAll r.1)) c' := by
  induction es with
  | nil =>
    intro ctx params pl n c c' r hst _ hrun
    rw [checkEach] at hrun
    cases hrun
    exact .refl hst
  | cons e es ih =>
    intro ctx params pl n c c' r hst hf hrun
    obtain ⟨e', c₁, ok, c₂, r', h₁, h₂, h₃, rfl⟩ := exists_of_run_checkEach hrun
    obtain ⟨he, hes⟩ := List.forall_mem_cons.mp h
    simp only [blankAll, List.cons.injEq] at hf
    have hhead := (he hst hf.1 h₁).1
    have hhead := hhead.andThen ((passive_arg _ _).surveyed h₂ hhead.stands) hst
    have hrest := ih hes hhead.stands hf.2 h₃
    exact hhead.seq hrest hst

/-- The initializers of a record literal are surveyed one after another. -/
theorem surveyed_checkInits {inits : List (Ident × Exp)} (h : ∀ i ∈ inits, ExpSurveyed i.2) :
    ∀ {ctx : Context} {loc : Location} {typeName : String} {fields : Option (List Field)} {pl : Place}
      {n : ℕ} {c c' : Checker} {r : List (Ident × Exp) × Bool},
    ctx.Stands pl n c → blankInits inits = inits →
    (checkInits ctx loc typeName fields inits).run c = .ok (r, c') →
    Surveyed ctx pl n c (fun t => sitesInits t pl n (liveInits r.1)) (ownSlotsInits (liveInits r.1))
        (typeDecsInits (liveInits r.1)) c' := by
  induction inits with
  | nil =>
    intro ctx loc typeName fields pl n c c' r hst _ hrun
    rw [checkInits] at hrun
    cases hrun
    exact .refl hst
  | cons i inits ih =>
    intro ctx loc typeName fields pl n c c' r hst hf hrun
    obtain ⟨name, e⟩ := i
    obtain ⟨fields', c₁, e', c₂, ok, c₃, r', h₁, h₂, h₃, h₄, rfl⟩ := exists_of_run_checkInits hrun
    obtain ⟨he, hes⟩ := List.forall_mem_cons.mp h
    simp only [blankInits, List.cons.injEq, Prod.mk.injEq, true_and] at hf
    have hplace := (passive_place fields).surveyed h₁ hst
    have hhead := (he hplace.stands hf.1 h₂).1
    have hhead := (hhead.andThen ((passive_init _ _).surveyed h₃ hhead.stands) hplace.stands).after
      hplace hst
    have hrest := ih hes hhead.stands hf.2 h₄
    exact hhead.seq hrest hst

theorem ExpSurveyed.seq {items : List Exp} (hi : ∀ e ∈ items, ExpSurveyed e) :
    ExpSurveyed (.seq m items) := by
  refine .of_kept fun ctx pl n c c' e' hst hf h => ?_
  obtain ⟨r, h₁, rfl⟩ := exists_of_run_seq h
  simp only [Exp.blank, Exp.seq.injEq] at hf
  exact surveyed_checkEach hi hst hf.2 h₁

theorem ExpSurveyed.record {typeName : Ident} {inits : List (Ident × Exp)}
    (hi : ∀ i ∈ inits, ExpSurveyed i.2) : ExpSurveyed (.record m typeName inits) := by
  refine .of_kept fun ctx pl n c c' e' hst hf h => ?_
  obtain ⟨ty, c₁, fields, c₂, r, h₁, h₂, h₃, rfl⟩ := exists_of_run_record h
  simp only [Exp.blank, Exp.record.injEq] at hf
  have hname := surveyed_typeOf h₁ hst
  have hname := hname.andThen ((passive_recordFields ty).surveyed h₂ hname.stands) hst
  have hinits := surveyed_checkInits hi hname.stands hf.2.2 h₃
  exact (hname.seq hinits hst).congr (fun t => rfl) rfl (Nat.zero_add _).symm

/-! ## Calls -/

/-- **The function of a call is the one that its name stands for**, and it can be called from there. -/
theorem ExpSurveyed.call {callee : Ident} {args : List Exp} {function : Option FunctionId}
    (ha : ∀ e ∈ args, ExpSurveyed e) : ExpSurveyed (.call m callee args function) := by
  refine .of_kept fun ctx pl n c c' e' hst hf h => ?_
  obtain ⟨target, c₁, r, c₂, ty, h₁, h₂, h₃, rfl⟩ := exists_of_run_call h
  simp only [Exp.blank, Exp.call.injEq] at hf
  obtain ⟨-, -, hargsFresh, rfl⟩ := hf
  have hfound : ∀ id, c.functions.lookup callee.name = some id → ∃ p,
      c.frames.functions[id.index]? = some p ∧
        ∀ sig, p.signature = some sig → p.hiddenParams ≤ sig.params.length := by
    intro id hid
    obtain ⟨p, hp⟩ := hst.sound.functions _ id hid
    exact ⟨p, hp, fun sig hsig => (hst.sound.signatures id p sig hp hsig).1⟩
  obtain ⟨rfl, htarget, -⟩ := (Rule.yields_target? callee.name hfound).of_run h₁
  have hargs := surveyed_checkEach ha hst hargsFresh h₂
  have hcell : target.map (·.id) = pl.functions callee.name := by rw [htarget, hst.functions_eq]
  have hkept : (pl.functions callee.name <|> none) = pl.functions callee.name := by
    cases pl.functions callee.name <;> rfl
  rw [hcell, hkept]
  have hholds : ∀ d : Checker, c₂.Extends d →
      Site.Holds d (.call pl callee (pl.functions callee.name)) := by
    intro d hd
    obtain ⟨fr, hfr, hl⟩ := hargs.stands.sits.frame
    obtain ⟨fr', hfr', hl', -⟩ := hd.frames.frame _ _ hfr
    refine ⟨rfl, ⟨fr', by rw [hst.frame_eq]; exact hfr', by rw [hl', hl, hst.level_eq]⟩, fun id hid => ?_⟩
    rw [hst.frame_eq]
    rw [hargs.stands.functions_eq] at hid
    exact (hargs.stands.calls _ id hid).grows hd.frames
  have hcall : Surveyed ctx pl (n + typeDecsAll (liveAll r.1)) c₂
      (fun _ => [.call pl callee (pl.functions callee.name)]) [] 0 c' := by
    cases target with
    | none =>
      have hnone : pl.functions callee.name = none := hcell.symm
      obtain rfl : c' = c₂.reported (.undefinedFunction callee.name) callee.loc := eq_of_run_fail h₃
      refine .of_reports (c₂.tallies_undefined rfl (by simp [Site.unbound, hnone]) (.call ..))
        (.report _ _ .quiet) hargs.stands fun d hd => List.forall_mem_singleton.mpr ?_
      exact hholds d ((Checker.Says.report _ _ .quiet).extends.trans hd)
    | some target =>
      have hbound : pl.functions callee.name ≠ none := by
        rw [← hcell]
        exact Option.some_ne_none _
      have hrule : Passive Fault.IsPlain (r.2 = true)
          (Rule.call m.loc callee (some target) r.1.length r.2) (· ≠ none) :=
        passive_call (fun _ h => h) _ fun h => absurd h (Option.some_ne_none _)
      have hreports := (hrule.changes _ _ _ h₃).toSays
      refine .of_reports ((c₂.tallies_bound (by simp [Site.unbound, hbound]) (.call ..)).andThen
        (hrule.tallies h₃)) hreports hargs.stands fun d hd => List.forall_mem_singleton.mpr ?_
      exact hholds d (hreports.extends.trans hd)
  exact ((hargs.seq hcall hst).toFront (.call ..)).congr (fun t => rfl) (List.append_nil _).symm rfl

/-! ## Loops with a counter -/

/-- **The counter is in scope in the body only**, and its slot stands between those of the bounds and those of
the body. -/
theorem ExpSurveyed.forLoop {counter : Ident} {low high body : Exp} {slot : Option VarId}
    (hl : ExpSurveyed low) (hh : ExpSurveyed high) (hb : ExpSurveyed body) :
    ExpSurveyed (.forLoop m counter low high body slot) := by
  refine .of_kept fun ctx pl n c c' e' hst hf h => ?_
  have hw := (walked_exp hst.sound hst.sits h).1
  obtain ⟨low', c₁, high', c₂, fit, c₃, v, frames, body', c₄, h₁, h₂, h₃, halloc, hc₃, hs₃, hg₃, h₄, rfl,
    rfl⟩ := exists_of_run_forLoop hst.sound hst.sits h
  simp only [Exp.blank, Exp.forLoop.injEq] at hf
  have hlow := (hl hst hf.2.2.1 h₁).1
  have hhigh := (hh hlow.stands hf.2.2.2.1 h₂).1
  have hbounds := hlow.seq hhigh hst
  have hbounds := hbounds.andThen ((passive_bounds _ _).surveyed h₃ hbounds.stands) hst
  have hslot : Surveys ctx.frame c₃ (fun _ => [.slot pl (some v)]) [some v] 0
      (c₃.counting counter.name v frames) := surveys_slot pl halloc hg₃ rfl rfl rfl
  have hinner : ctx.enterLoop.Stands (pl.bindValue counter.name (some v))
      (n + (low'.live.typeDecs + high'.live.typeDecs)) (c₃.counting counter.name v frames) := by
    refine ⟨hc₃, hs₃, hbounds.stands.calls.extends hg₃ rfl, ?_, hbounds.stands.count⟩
    rw [← hbounds.stands.stood]
    exact ctx.place_bindValue c₃ frames c₃.values.enter counter.name v rfl
  have hbody := (hb hinner hf.2.2.2.2.1 h₄).1
  have hw₄ := (walked_exp hc₃ hs₃ h₄).1
  have hleft : Surveys ctx.frame c₄ (fun _ => []) [] 0 { c₄ with values := c₃.values } :=
    surveys_rescope ⟨fun _ _ h => h, fun _ _ h => h, .refl _, Nat.le_refl _, rfl⟩ rfl rfl rfl
  have hlt := hst.sits.frame_lt
  have hlt₃ := hbounds.stands.sits.frame_lt
  have hall := hbounds.surveys.seq ((hslot.seq (hbody.surveys.seq hleft hinner.sits.frame_lt) hlt₃)) hlt
  refine .congr (k := low'.live.typeDecs + high'.live.typeDecs + (0 + (body'.live.typeDecs + 0)))
    ⟨hall, ?_⟩ (fun t => ?_) ?_ ?_
  · exact hst.walked hw (by rw [hall.tallies.types, hst.count])
  · simp [Exp.live, Exp.sites, Nat.add_assoc]
  · simp [Exp.live, Exp.ownSlots]
  · simp [Exp.live, Exp.typeDecs]

/-! ## Variables -/

/-- **The slot of a name is the one that the name stands for.** -/
theorem VarSurveyed.simple {name : String} {binding : Option VarId} :
    VarSurveyed (.simple m name binding) := by
  refine .of_kept fun ctx pl n c c' v' hst hf h => ?_
  obtain ⟨r, h₁, rfl⟩ := exists_of_run_simple h
  simp only [Var.blank, Var.simple.injEq, true_and] at hf
  obtain ⟨-, rfl⟩ := hf
  have hfound : ∀ v, c.values.lookup name = some v → ∃ s, c.frames.vars[v.index]? = some s :=
    fun v hv => (hst.sits.values name v hv).imp fun _ hs => hs.1
  obtain ⟨hcell, hend⟩ := (Rule.yields_simple name hfound).of_run h₁
  rw [← hst.values_eq] at hcell hend
  have hkept : (pl.values name <|> none) = pl.values name := by cases pl.values name <;> rfl
  rw [hcell, hkept]
  have huse : ∀ d : Checker, Site.Holds d (.use pl ⟨name, m.loc⟩ (pl.values name)) := fun d => rfl
  rcases hend with ⟨v, s, hv, -, -, rfl⟩ | ⟨hnone, -, rfl⟩
  · refine .of_reports (c'.tallies_bound ?_ (.use ..)) .quiet hst fun d _ =>
      List.forall_mem_singleton.mpr (huse d)
    simp [Site.unbound, hv]
  · refine .of_reports (c.tallies_undefined rfl ?_ (.use ..)) (.report _ _ .quiet) hst fun d _ =>
      List.forall_mem_singleton.mpr (huse d)
    simp [Site.unbound, hnone]
    rfl

theorem VarSurveyed.field {base : Var} {name : Ident} {position : Option ℕ} (hb : VarSurveyed base) :
    VarSurveyed (.field m base name position) := by
  refine .of_kept fun ctx pl n c c' v' hst hf h => ?_
  obtain ⟨base', c₁, r, h₁, h₂, rfl⟩ := exists_of_run_field h
  simp only [Var.blank, Var.field.injEq] at hf
  have hbase := (hb hst hf.2.1 h₁).1
  exact hbase.andThen ((passive_field _).surveyed h₂ hbase.stands) hst

theorem VarSurveyed.element {base : Var} {index : Exp} (hb : VarSurveyed base) (hi : ExpSurveyed index) :
    VarSurveyed (.element m base index) := by
  refine .of_kept fun ctx pl n c c' v' hst hf h => ?_
  obtain ⟨base', c₁, index', c₂, ty, h₁, h₂, h₃, rfl⟩ := exists_of_run_element h
  simp only [Var.blank, Var.element.injEq] at hf
  have hbase := (hb hst hf.2.1 h₁).1
  have hindex := (hi hbase.stands hf.2.2 h₂).1
  have hboth := hbase.seq hindex hst
  exact hboth.andThen ((passive_element _ _).surveyed h₃ hboth.stands) hst

end TigerCheck
