import TigerCheck.Proofs.Typing.Inversion
import TigerCheck.Proofs.Typing.Judged

/-!
# Checking expressions and variables decides their typing

One lemma for each form of node: if the checks of its parts decide their typing, so does its own. Let
blocks are treated with their declarations.

* `ExpJudged.binary`, `ExpJudged.assign`, …: expressions.
* **`ExpJudged.forLoop`**: the counter is an integer in the body, and nowhere else.
* `VarJudged.simple`, `VarJudged.field`, `VarJudged.element`: variables.
-/

namespace TigerCheck

open Check

section

variable {m : Mark} {ctx : Context} {c c₁ c' : Checker} {ν ν₁ : Renaming} {n n' : ℕ}

theorem Context.inLoop_enterLoop (ctx : Context) : ctx.enterLoop.inLoop = true :=
  decide_eq_true (Nat.succ_pos ctx.loops)

/-! ## Leaves -/

/-- A literal has its type, and nothing is checked. -/
theorem judged_literal {t : Ty} {J : Arena → Ty → Prop} (ht : ∀ ν, t.rename ν = t)
    (hf : c.Fine ν n) (hJ : ∀ b y, J b y ↔ y = t) : Judged c ν c n J (Answers (some t)) :=
  .same hf ⟨t, rfl, (ht ν).symm⟩ fun b _ y => hJ b y

theorem ExpJudged.nil : ExpJudged (.nil m) := by
  intro ctx c c' ν n e' hc hs hf h
  obtain ⟨rfl, rfl⟩ := eq_of_run_nil h
  exact judged_literal (fun _ => rfl) hf fun _ _ => Exp.typed_nil_iff

theorem ExpJudged.int {i : Int64} : ExpJudged (.int m i) := by
  intro ctx c c' ν n e' hc hs hf h
  obtain ⟨rfl, rfl⟩ := eq_of_run_int h
  exact judged_literal (fun _ => rfl) hf fun _ _ => Exp.typed_int_iff

theorem ExpJudged.string {s : String} : ExpJudged (.string m s) := by
  intro ctx c c' ν n e' hc hs hf h
  obtain ⟨rfl, rfl⟩ := eq_of_run_string h
  exact judged_literal (fun _ => rfl) hf fun _ _ => Exp.typed_string_iff

theorem ExpJudged.breakLoop : ExpJudged (.breakLoop m) := by
  intro ctx c c' ν n e' hc hs hf h
  rcases exists_of_run_breakLoop h with ⟨hl, rfl, rfl⟩ | ⟨hl, rfl, rfl⟩
  · exact judged_literal (t := .void) (fun _ => rfl) hf fun b y => by
      rw [Exp.typed_breakLoop_iff, and_iff_right hl]
  · exact .wrong (c.lt_reported _ _) fun b _ y hy =>
      Bool.false_ne_true (hl.symm.trans (Exp.typed_breakLoop_iff.mp hy).1)

theorem ExpJudged.var {v : Var} (hv : VarJudged v) : ExpJudged (.var m v) := by
  intro ctx c c' ν n e' hc hs hf h
  obtain ⟨v', h₁, rfl⟩ := exists_of_run_var h
  exact (hv hc hs hf h₁).of_iff fun _ _ => Exp.typed_var_iff

/-! ## Operators, assignments and conditions -/

theorem ExpJudged.binary {op : BinOp} {left right : Exp} (hl : ExpJudged left)
    (hr : ExpJudged right) : ExpJudged (.binary m op left right) := by
  intro ctx c c' ν n e' hc hs hf h
  obtain ⟨left', c₁, right', c₂, ty, h₁, h₂, h₃, rfl⟩ := exists_of_run_binary h
  obtain ⟨hw₁, hleft⟩ := walked_exp hc hs h₁
  obtain ⟨hw₂, hright⟩ := walked_exp hw₁.sound (hs.walked hw₁) h₂
  have hclosed := hw₂.sound.rest.closed
  have hrule := (Rule.yields_binary hclosed op (hw₂.forall_has hleft) hright).of_run h₃
  have hw₃ := hrule.toSays.walked hw₂.sound
  refine Judged.of_iff ?_ fun b y => Exp.typed_binary_iff
  refine hl.bind hc hs hf h₁ (hw₂.trans hw₃).grown fun ν₁ t ht hag₁ henv₁ hf₁ => ?_
  rw [← henv₁, Exp.typeDecs, ← Nat.add_assoc]
  refine hr.bind hw₁.sound (hs.walked hw₁) hf₁ h₂ hw₃.grown fun ν₂ u hu hag₂ henv₂ hf₂ => ?_
  refine hrule.answers (by simp [ht, hu]) hf₂ fun b hb y => ?_
  rw [← hag₂.rename_eq (hleft t ht), hb.matches_iff hf₂.fits hclosed (hw₂.has (hleft t ht))
    (hright u hu)]
  simp [Rule.BinaryTy, ht, hu, and_assoc, and_comm]

theorem ExpJudged.assign {target : Var} {value : Exp} (ht : VarJudged target)
    (hv : ExpJudged value) : ExpJudged (.assign m target value) := by
  intro ctx c c' ν n e' hc hs hf h
  obtain ⟨target', c₁, value', c₂, ty, h₁, h₂, h₃, rfl⟩ := exists_of_run_assign h
  obtain ⟨hw₁, htarget⟩ := walked_var hc hs h₁
  obtain ⟨hw₂, hvalue⟩ := walked_exp hw₁.sound (hs.walked hw₁) h₂
  have hclosed := hw₂.sound.rest.closed
  have hrule := (Rule.yields_assign hclosed (hw₂.forall_has htarget) hvalue).of_run h₃
  have hw₃ := hrule.toSays.walked hw₂.sound
  refine Judged.of_iff ?_ fun b y => Exp.typed_assign_iff
  refine ht.bind hc hs hf h₁ (hw₂.trans hw₃).grown fun ν₁ t ht hag₁ henv₁ hf₁ => ?_
  rw [← henv₁, Exp.typeDecs, ← Nat.add_assoc]
  refine hv.bind hw₁.sound (hs.walked hw₁) hf₁ h₂ hw₃.grown fun ν₂ u hu hag₂ henv₂ hf₂ => ?_
  change target'.mark.ty = some t at ht
  change value'.mark.ty = some u at hu
  refine hrule.answers (by simp [ht, hu]) hf₂ fun b hb y => ?_
  rw [← hag₂.rename_eq (htarget t ht), hb.matches_iff hf₂.fits hclosed (hw₂.has (htarget t ht))
    (hvalue u hu)]
  simp [Rule.AssignTy, ht, hu, and_comm]

theorem ExpJudged.condNone {test thenPart : Exp} (ht : ExpJudged test) (hp : ExpJudged thenPart) :
    ExpJudged (.cond m test thenPart none) := by
  intro ctx c c' ν n e' hc hs hf h
  obtain ⟨test', c₁, then', c₂, ty, h₁, h₂, h₃, rfl⟩ := exists_of_run_condNone h
  obtain ⟨hw₁, -⟩ := walked_exp hc hs h₁
  obtain ⟨hw₂, -⟩ := walked_exp hw₁.sound (hs.walked hw₁) h₂
  have hrule := Rule.yields_condNone.of_run h₃
  have hw₃ := hrule.toSays.walked hw₂.sound
  refine Judged.of_iff ?_ fun b y => Exp.typed_condNone_iff
  refine ht.bind hc hs hf h₁ (hw₂.trans hw₃).grown fun ν₁ t ht hag₁ henv₁ hf₁ => ?_
  rw [← henv₁, Exp.typeDecs, ← Nat.add_assoc]
  refine hp.bind hw₁.sound (hs.walked hw₁) hf₁ h₂ hw₃.grown fun ν₂ u hu hag₂ henv₂ hf₂ => ?_
  change test'.mark.ty = some t at ht
  change then'.mark.ty = some u at hu
  refine hrule.answers (by simp [ht, hu]) hf₂ fun b hb y => ?_
  simp [Rule.CondTy, ht, hu, and_comm]

theorem ExpJudged.condSome {test thenPart elsePart : Exp} (ht : ExpJudged test)
    (hp : ExpJudged thenPart) (he : ExpJudged elsePart) :
    ExpJudged (.cond m test thenPart (some elsePart)) := by
  intro ctx c c' ν n e' hc hs hf h
  obtain ⟨test', c₁, then', c₂, else', c₃, ty, h₁, h₂, h₃, h₄, rfl⟩ := exists_of_run_condSome h
  obtain ⟨hw₁, -⟩ := walked_exp hc hs h₁
  obtain ⟨hw₂, hthen⟩ := walked_exp hw₁.sound (hs.walked hw₁) h₂
  have hs₂ := (hs.walked hw₁).walked hw₂
  obtain ⟨hw₃, helse⟩ := walked_exp hw₂.sound hs₂ h₃
  have hclosed := hw₃.sound.rest.closed
  have hrule := (Rule.yields_condSome hclosed (hw₃.forall_has hthen) helse).of_run h₄
  have hw₄ := hrule.toSays.walked hw₃.sound
  refine Judged.of_iff ?_ fun b y => Exp.typed_condSome_iff
  refine ht.bind hc hs hf h₁ ((hw₂.trans hw₃).trans hw₄).grown fun ν₁ s hs₁ hag₁ henv₁ hf₁ => ?_
  rw [← henv₁, Exp.typeDecs, ← Nat.add_assoc, ← Nat.add_assoc]
  refine hp.bind hw₁.sound (hs.walked hw₁) hf₁ h₂ (hw₃.trans hw₄).grown
    fun ν₂ t ht₂ hag₂ henv₂ hf₂ => ?_
  rw [← henv₂]
  refine he.bind hw₂.sound hs₂ hf₂ h₃ hw₄.grown fun ν₃ u hu hag₃ henv₃ hf₃ => ?_
  change test'.mark.ty = some s at hs₁
  change then'.mark.ty = some t at ht₂
  change else'.mark.ty = some u at hu
  refine hrule.answers (by simp [hs₁, ht₂, hu]) hf₃ fun b hb y => ?_
  rw [← hag₃.rename_eq (hthen t ht₂), hb.matches_iff hf₃.fits hclosed (hw₃.has (hthen t ht₂))
    (helse u hu)]
  simp [Rule.BranchTy, hs₁, ht₂, hu, apply_ite (Ty.rename ν₃), and_assoc]

theorem ExpJudged.array {typeName : Ident} {size init : Exp} (hz : ExpJudged size)
    (hi : ExpJudged init) : ExpJudged (.array m typeName size init) := by
  intro ctx c c' ν n e' hc hs hf h
  obtain ⟨ty, c₁, size', c₂, init', c₃, ty', h₁, h₂, h₃, h₄, rfl⟩ := exists_of_run_array h
  obtain ⟨hw₁, hty⟩ := walked_typeOf hc h₁
  obtain ⟨hw₂, -⟩ := walked_exp hw₁.sound (hs.walked hw₁) h₂
  have hs₂ := (hs.walked hw₁).walked hw₂
  obtain ⟨hw₃, hinit⟩ := walked_exp hw₂.sound hs₂ h₃
  have hclosed := hw₃.sound.rest.closed
  have hty₃ := (hw₂.trans hw₃).forall_has hty
  have hrule := (Rule.yields_array hclosed typeName hty₃ hinit).of_run h₄
  have hw₄ := hrule.toSays.walked hw₃.sound
  refine Judged.of_iff ?_ fun b y => Exp.typed_array_iff
  refine judged_typeOf hc hs hf h₁ ((hw₂.trans hw₃).trans hw₄).grown
    fun ν₁ t ht hag₁ henv₁ hf₁ => ?_
  rw [← henv₁, Exp.typeDecs, ← Nat.add_assoc]
  refine hz.bind hw₁.sound (hs.walked hw₁) hf₁ h₂ (hw₃.trans hw₄).grown
    fun ν₂ s hs₁ hag₂ henv₂ hf₂ => ?_
  rw [← henv₂]
  refine hi.bind hw₂.sound hs₂ hf₂ h₃ hw₄.grown fun ν₃ u hu hag₃ henv₃ hf₃ => ?_
  change size'.mark.ty = some s at hs₁
  change init'.mark.ty = some u at hu
  have helement : ¬ Rule.ArrayMissing c₃.types ty size'.mark.ty init'.mark.ty := by
    rintro (hmissing | hmissing | hmissing | ⟨v, hv, harr, hnone⟩)
    · rw [ht] at hmissing; cases hmissing
    · rw [hs₁] at hmissing; cases hmissing
    · rw [hu] at hmissing; cases hmissing
    · cases v with
      | array id =>
        obtain ⟨e, he⟩ := hf₃.element?_ne_none (hty₃ _ hv)
        rw [hnone] at he
        cases he
      | _ => cases harr
  refine hrule.answers helement hf₃ fun b hb y => ?_
  have hag := hag₂.trans hag₃ fun _ => hw₂.has
  rw [← hag.rename_eq (hty t ht), hb.element?_rename (hty₃ t ht)]
  have hsame : ∀ e, c₃.types.element? t = some e →
      (b.Same (u.rename ν₃) (e.rename ν₃) ↔ c₃.types.Same u e) := fun e he =>
    hb.same_iff hf₃.fits hclosed (hinit u hu) (Arena.has_element? hclosed he)
  simp only [Rule.ArrayTy, ht, hs₁, hu, Ty.rename_eq_int_iff, Option.map_eq_some_iff,
    Option.some.injEq]
  constructor
  · rintro ⟨rfl, rfl, _, ⟨e, he, rfl⟩, h⟩
    exact ⟨t, ⟨rfl, rfl, u, e, rfl, he, (hsame e he).mp h⟩, rfl⟩
  · rintro ⟨_, ⟨rfl, rfl, _, e, rfl, he, h⟩, rfl⟩
    exact ⟨rfl, rfl, _, ⟨e, he, rfl⟩, (hsame e he).mpr h⟩

/-! ## Loops -/

theorem ExpJudged.whileLoop {test body : Exp} (ht : ExpJudged test) (hb : ExpJudged body) :
    ExpJudged (.whileLoop m test body) := by
  intro ctx c c' ν n e' hc hs hf h
  obtain ⟨test', c₁, body', c₂, ty, h₁, h₂, h₃, rfl⟩ := exists_of_run_whileLoop h
  obtain ⟨hw₁, -⟩ := walked_exp hc hs h₁
  have hs₁ := (hs.walked hw₁).loops (ctx.loops + 1)
  obtain ⟨hw₂, -⟩ := walked_exp hw₁.sound hs₁ h₂
  have hrule := Rule.yields_loop.of_run h₃
  have hw₃ := hrule.toSays.walked hw₂.sound
  refine Judged.of_iff ?_ fun b y => Exp.typed_whileLoop_iff
  refine ht.bind hc hs hf h₁ (hw₂.trans hw₃).grown fun ν₁ t ht hag₁ henv₁ hf₁ => ?_
  rw [← henv₁, Exp.typeDecs, ← Nat.add_assoc, ← Context.inLoop_enterLoop ctx]
  refine hb.bind hw₁.sound hs₁ hf₁ h₂ hw₃.grown fun ν₂ u hu hag₂ henv₂ hf₂ => ?_
  change test'.mark.ty = some t at ht
  change body'.mark.ty = some u at hu
  refine hrule.answers (by simp [ht, hu]) hf₂ fun b hb y => ?_
  simp [Rule.LoopTy, ht, hu, and_comm]

theorem ExpJudged.doWhile {body test : Exp} (hb : ExpJudged body) (ht : ExpJudged test) :
    ExpJudged (.doWhile m body test) := by
  intro ctx c c' ν n e' hc hs hf h
  obtain ⟨body', c₁, test', c₂, ty, h₁, h₂, h₃, rfl⟩ := exists_of_run_doWhile h
  have hs₀ := hs.loops (ctx.loops + 1)
  obtain ⟨hw₁, -⟩ := walked_exp hc hs₀ h₁
  obtain ⟨hw₂, -⟩ := walked_exp hw₁.sound (hs.walked hw₁) h₂
  have hrule := Rule.yields_loop.of_run h₃
  have hw₃ := hrule.toSays.walked hw₂.sound
  refine Judged.of_iff ?_ fun b y => Exp.typed_doWhile_iff
  rw [← Context.inLoop_enterLoop ctx]
  refine hb.bind hc hs₀ hf h₁ (hw₂.trans hw₃).grown fun ν₁ u hu hag₁ henv₁ hf₁ => ?_
  rw [← henv₁, Exp.typeDecs, ← Nat.add_assoc]
  refine ht.bind hw₁.sound (hs.walked hw₁) hf₁ h₂ hw₃.grown fun ν₂ t ht hag₂ henv₂ hf₂ => ?_
  change test'.mark.ty = some t at ht
  change body'.mark.ty = some u at hu
  refine hrule.answers (by simp [ht, hu]) hf₂ fun b hb y => ?_
  simp [Rule.LoopTy, ht, hu, and_comm]

/-- The counter of a loop is bound around its body. -/
theorem Checker.bindsValue_counter {frames : FrameTable} {name : String} {f : FrameId} {v : VarId}
    (hg : c.frames.Grows frames) (halloc : c.frames.alloc f name (some .int) .loopCounter = .ok (v, frames)) :
    c.BindsValue name .int frames (c.values.enter.bind name v) where
  grows := hg
  found := by
    obtain ⟨-, rfl, rfl⟩ := FrameTable.alloc_eq halloc
    exact ⟨⟨c.frames.vars.size⟩, _, by rw [Scopes.lookup_bind, if_pos rfl], Array.getElem?_push_size, rfl⟩
  others x hx := by
    rw [Scopes.lookup_bind, if_neg hx]
    rfl

/-- **The counter of a loop is an integer in the body, and nowhere else.** -/
theorem ExpJudged.forLoop {counter : Ident} {low high body : Exp} {slot : Option VarId}
    (hl : ExpJudged low) (hh : ExpJudged high) (hb : ExpJudged body) :
    ExpJudged (.forLoop m counter low high body slot) := by
  intro ctx c c' ν n e' hc hs hf h
  obtain ⟨low', c₁, high', c₂, fit, c₃, v, frames, body', c₄, h₁, h₂, h₃, halloc, hc₃, hs₃, hg₃, h₄, rfl, rfl⟩ :=
    exists_of_run_forLoop hc hs h
  obtain ⟨hw₁, -⟩ := walked_exp hc hs h₁
  have hs₁ := hs.walked hw₁
  obtain ⟨hw₂, -⟩ := walked_exp hw₁.sound hs₁ h₂
  have hrule := Rule.yields_bounds.of_run h₃
  have hw₃ := hrule.toSays.walked hw₂.sound
  have hsits := (hs₁.walked hw₂).walked hw₃
  obtain ⟨hw₄, -⟩ := walked_exp hc₃ hs₃ h₄
  have hw₅ : c₃.Walked { c₄ with values := c₃.values } :=
    .rescope hw₄.scopes.typeNames_eq hw₄.scopes.functions_eq (hg₃.trans hw₄.grown) hw₄.sound
  refine Judged.of_iff ?_ fun b y => Exp.typed_forLoop_iff
  refine hl.bind hc hs hf h₁ ((hw₂.trans hw₃).trans hw₅).grown fun ν₁ t ht hag₁ henv₁ hf₁ => ?_
  rw [← henv₁, Exp.typeDecs, ← Nat.add_assoc, ← Nat.add_assoc]
  refine hh.bind hw₁.sound hs₁ hf₁ h₂ (hw₃.trans hw₅).grown fun ν₂ u hu hag₂ henv₂ hf₂ => ?_
  rw [← henv₂]
  have hbounds := hrule.judged (J := fun _ => t.rename ν₁ = .int ∧ u.rename ν₂ = .int)
    (by simp [ht, hu]) hf₂ fun b hb => by simp [ht, hu]
  refine hbounds.and hw₃.grown hw₃.sound.rest.closed hw₅.grown fun ν₃ hfit hag₃ hf₃ => ?_
  rw [← hw₃.env_eq hw₂.sound (hs₁.walked hw₂) hag₃]
  have hbind : c₃.BindsValue counter.name .int frames (c₃.values.enter.bind counter.name v) :=
    Checker.bindsValue_counter hg₃.frames halloc
  have henv : (c₃.counting counter.name v frames).env ν₃ = (c₃.env ν₃).bindValue counter.name .int :=
    hbind.env_eq hw₃.sound hsits ν₃
  have hbody := (hb hc₃ hs₃ (hbind.fine hw₃.sound hsits hf₃) h₄).map (f := fun _ => .void)
    (A := Answers (if (fit && body'.ty.isSome) = true then some .void else none))
    fun ν' x _ _ hx => by
      obtain ⟨w, hw, -⟩ := hx
      exact ⟨.void, by simp [hfit, hw], rfl⟩
  rw [Context.inLoop_enterLoop, henv] at hbody
  exact hbody.within rfl rfl rfl rfl fun ν' hf₄ => hf₃.rescope hw₃.sound hsits hw₅ hf₄ rfl rfl

/-! ## Variables -/

/-- A variable has the type of what its name is bound to. -/
theorem VarJudged.simple {name : String} {binding : Option VarId} :
    VarJudged (.simple m name binding) := by
  intro ctx c c' ν n v' hc hs hf h
  obtain ⟨r, h₁, rfl⟩ := exists_of_run_simple h
  have hrule := (Rule.yields_simple name fun v hv => by
    obtain ⟨s, hs', -⟩ := hs.values name v hv
    exact ⟨s, hs'⟩).of_run h₁
  obtain ⟨-, ⟨v, s, hl, hv, hty, rfl⟩ | ⟨hl, -, rfl⟩⟩ := hrule
  · obtain ⟨t, ht⟩ := hf.values name v hl
    have hst : s.ty = some t := by
      obtain ⟨w, s', hw, hs', ht'⟩ := Checker.valueTy_eq_some_iff.mp ht
      rw [hl] at hw
      cases hw
      rw [hv] at hs'
      cases hs'
      exact ht'
    refine .same hf ⟨t, hty.trans hst, rfl⟩ fun b _ y => ?_
    rw [Var.typed_simple_iff, Checker.env_values, ht, Option.map_some, Option.some.injEq, eq_comm]
  · refine .wrong (c.lt_reported _ _) fun b _ y hy => ?_
    rw [Var.typed_simple_iff, Checker.env_values, Option.map_eq_some_iff] at hy
    obtain ⟨t, ht, -⟩ := hy
    obtain ⟨v, -, hv, -⟩ := Checker.valueTy_eq_some_iff.mp ht
    rw [hl] at hv
    cases hv

theorem VarJudged.field {base : Var} {name : Ident} {position : Option ℕ} (hb : VarJudged base) :
    VarJudged (.field m base name position) := by
  intro ctx c c' ν n v' hc hs hf h
  obtain ⟨base', c₁, r, h₁, h₂, rfl⟩ := exists_of_run_field h
  obtain ⟨hw₁, hbase⟩ := walked_var hc hs h₁
  have hrule := (Rule.yields_field hbase name).of_run h₂
  have hw₂ := hrule.toSays.walked hw₁.sound
  refine Judged.of_iff ?_ fun b y => Var.typed_field_iff
  refine hb.bind hc hs hf h₁ hw₂.grown fun ν₁ t ht hag₁ henv₁ hf₁ => ?_
  change base'.mark.ty = some t at ht
  refine hrule.answers (by simp [ht]) hf₁ fun b hb y => ?_
  rw [hb.record?_rename (hbase t ht)]
  have hfind : ∀ e : RecordEntry, (e.rename ν₁).fields.find? (·.name == name.name) =
      (e.fields.find? (·.name == name.name)).map (·.rename ν₁) := fun e => List.find?_map ..
  simp only [Rule.FieldTy, ht, Option.map_eq_some_iff, Option.some.injEq]
  constructor
  · rintro ⟨_, f, ⟨e, he, rfl⟩, hf', rfl⟩
    rw [hfind, Option.map_eq_some_iff] at hf'
    obtain ⟨g, hg, rfl⟩ := hf'
    exact ⟨g.ty, ⟨t, e, g, rfl, he, hg, rfl⟩, rfl⟩
  · rintro ⟨_, ⟨_, e, g, rfl, he, hg, rfl⟩, rfl⟩
    exact ⟨_, g.rename ν₁, ⟨e, he, rfl⟩, by rw [hfind, hg]; rfl, rfl⟩

theorem VarJudged.element {base : Var} {index : Exp} (hb : VarJudged base)
    (hi : ExpJudged index) : VarJudged (.element m base index) := by
  intro ctx c c' ν n v' hc hs hf h
  obtain ⟨base', c₁, index', c₂, ty, h₁, h₂, h₃, rfl⟩ := exists_of_run_element h
  obtain ⟨hw₁, hbase⟩ := walked_var hc hs h₁
  obtain ⟨hw₂, -⟩ := walked_exp hw₁.sound (hs.walked hw₁) h₂
  have hbase₂ := hw₂.forall_has hbase
  have hrule := (Rule.yields_element hbase₂).of_run h₃
  have hw₃ := hrule.toSays.walked hw₂.sound
  refine Judged.of_iff ?_ fun b y => Var.typed_element_iff
  refine hb.bind hc hs hf h₁ (hw₂.trans hw₃).grown fun ν₁ t ht hag₁ henv₁ hf₁ => ?_
  rw [← henv₁, Var.typeDecs, ← Nat.add_assoc]
  refine hi.bind hw₁.sound (hs.walked hw₁) hf₁ h₂ hw₃.grown fun ν₂ u hu hag₂ henv₂ hf₂ => ?_
  change base'.mark.ty = some t at ht
  change index'.mark.ty = some u at hu
  have helement : ¬ Rule.ElementMissing c₂.types base'.mark.ty index'.mark.ty := by
    rintro (hmissing | hmissing | ⟨v, hv, harr, hnone⟩)
    · rw [ht] at hmissing; cases hmissing
    · rw [hu] at hmissing; cases hmissing
    · cases v with
      | array id =>
        obtain ⟨e, he⟩ := hf₂.element?_ne_none (hbase₂ _ hv)
        rw [hnone] at he
        cases he
      | _ => cases harr
  refine hrule.answers helement hf₂ fun b hb y => ?_
  rw [← hag₂.rename_eq (hbase t ht), hb.element?_rename (hbase₂ t ht)]
  simp only [Rule.ElementTy, ht, hu, Ty.rename_eq_int_iff, Option.map_eq_some_iff,
    Option.some.injEq, exists_eq_left']
  constructor
  · rintro ⟨rfl, e, he, rfl⟩
    exact ⟨e, ⟨rfl, he⟩, rfl⟩
  · rintro ⟨e, ⟨rfl, he⟩, rfl⟩
    exact ⟨rfl, e, he, rfl⟩

end

end TigerCheck
