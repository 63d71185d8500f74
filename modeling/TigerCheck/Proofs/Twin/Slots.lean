import TigerCheck.Proofs.Scope.Table
import TigerCheck.Proofs.Twin.Exp
import TigerCheck.Proofs.Walk.Variables

/-!
# Variables in two runs

A variable that is bound on both sides gets a slot on both sides, each with the next handle of its own
table. Where the two slots have paired types, the states behind them are alike.

* `Checker.Binds`: a state with one more variable in scope. **`Twin.binds`**: on both sides.
* `Stretch.close`: the end of a scope on both sides.
* **`ExpTwinned.forLoop`**: loops with a counter.
* `both_newVariable`, **`both_variables`**: the variables of a run.
-/

namespace TigerCheck

open Check

variable {free : Prop} {ρ ρ' : Pairing} {ctx ctx' ctx₁ ctx₁' : Context} {c d c₁ d₁ c' d' : Checker}
  {name : String} {ty ty' : Option Ty} {xs ys : List (Option Ty)}

namespace Checker

/-- The types are the same and no table has grown, whatever is in scope; and nothing is reported. -/
structure Unchanged (c c' : Checker) : Prop where
  types_eq : c'.types = c.types
  gains : c.Gains {} c'

theorem Unchanged.of_tables (htypes : c'.types = c.types) (hframes : c'.frames = c.frames)
    (hdiag : c'.diagnostics = c.diagnostics) : c.Unchanged c' := ⟨htypes, .none htypes hframes hdiag⟩

/-- A slot is gained. -/
theorem gains_alloc {frame : FrameId} {kind : SlotKind} {v : VarId} {frames : FrameTable}
    (h : c.frames.alloc frame name ty kind = .ok (v, frames)) (values : Scopes VarId) :
    c.Gains ⟨[], 0, 0, 1, 0, 0⟩ { c with frames, values } := by
  obtain ⟨-, -, hvars, hfunctions, hframes, -⟩ := FrameTable.appends_of_alloc h
  exact ⟨(List.append_nil _).symm, rfl, rfl, hvars, congrArg Array.size hfunctions, hframes⟩

/-- A state with one more variable in scope, whose slot has a type if there is one. -/
structure Binds (ctx : Context) (c : Checker) (name : String) (ty : Option Ty) (c' : Checker) : Prop where
  grown : c.Extends c'
  typeNames_eq : c'.typeNames = c.typeNames
  functions_eq : c'.functions = c.functions
  found : ∃ v s, c'.values.lookup name = some v ∧ c'.frames.vars[v.index]? = some s ∧ s.ty = ty
  others : ∀ x, x ≠ name → c'.values.lookup x = c.values.lookup x
  sound : c'.Sound
  sits : ctx.Sits c'

/-- A slot that was just appended is bound. -/
theorem binds_of_alloc {frame : FrameId} {kind : SlotKind} {v : VarId} {frames : FrameTable}
    {values : Scopes VarId} (h : c.frames.alloc frame name ty kind = .ok (v, frames))
    (hvalues : values.lookup = c.values.lookup)
    (hg : c.Extends { c with frames, values := values.bind name v })
    (hsound : Sound { c with frames, values := values.bind name v })
    (hsits : ctx.Sits { c with frames, values := values.bind name v }) :
    c.Binds ctx name ty { c with frames, values := values.bind name v } := by
  obtain ⟨-, -, -, -, -, s, hs, -, hty, -⟩ := FrameTable.appends_of_alloc h
  refine ⟨hg, rfl, rfl, ⟨v, s, ?_, hs, hty⟩, fun x hx => ?_, hsound, hsits⟩
  · rw [Scopes.lookup_bind, if_pos rfl]
  · rw [Scopes.lookup_bind, if_neg hx, hvalues]

namespace Binds

variable {x : String}

theorem valueTy_self (h : c.Binds ctx name ty c') : c'.valueTy name = ty := by
  obtain ⟨v, s, hv, hs, hty⟩ := h.found
  simp only [valueTy, hv, hs, hty, bind, Option.bind_some]

theorem valueTy_other (h : c.Binds ctx name ty c') (hs : ctx₁.Sits c) (hx : x ≠ name) :
    c'.valueTy x = c.valueTy x := by
  rw [valueTy, valueTy, h.others x hx]
  cases hl : c.values.lookup x with
  | none => rfl
  | some v =>
    obtain ⟨s, hs', -⟩ := hs.values x v hl
    simp only [bind, Option.bind_some, hs', h.grown.frames.slot v s hs']

end Binds

end Checker

/-- **A variable is bound on both sides**, with paired types. -/
theorem Twin.binds (h : Twin ρ ctx ctx' c d) (hc : c.Binds ctx name ty c') (hd : d.Binds ctx' name ty' d')
    (hty : Option.Rel ρ ty ty') : Twin ρ ctx ctx' c' d' where
  alike :=
    { sound := hc.sound
      sound' := hd.sound
      mirrors := h.alike.mirrors.kept hc.grown.shape hd.grown.shape
      types := h.alike.types.extends h.alike.sound.rest h.alike.sound'.rest hc.grown hd.grown
        hc.typeNames_eq hd.typeNames_eq fun _ _ hst => hst
      values := by
        intro x
        by_cases hx : x = name
        · obtain ⟨v, s, hv, -⟩ := hc.found
          obtain ⟨v', s', hv', -⟩ := hd.found
          rw [hx, hv, hv', hc.valueTy_self, hd.valueTy_self]
          exact ⟨rfl, hty⟩
        · rw [hc.others x hx, hd.others x hx, hc.valueTy_other h.sits hx, hd.valueTy_other h.sits' hx]
          exact h.alike.values x
      functions := h.alike.functions.extends h.alike.sound h.alike.sound' hc.grown hd.grown
        hc.functions_eq hd.functions_eq fun _ _ hst => hst }
  sits := hc.sits
  sits' := hd.sits
  inLoop_eq := h.inLoop_eq

/-- **A slot is appended and bound on both sides**, with paired types. -/
theorem Twin.bindSlot {kind : SlotKind} {v v' : VarId} {frames frames' : FrameTable}
    (h : Twin ρ ctx ctx' c d) (halloc : c.frames.alloc ctx.frame name ty kind = .ok (v, frames))
    (halloc' : d.frames.alloc ctx'.frame name ty' kind = .ok (v', frames')) (hty : Option.Rel ρ ty ty')
    (hc : Checker.Sound { c with frames, values := c.values.bind name v })
    (hs : ctx.Sits { c with frames, values := c.values.bind name v })
    (hd : Checker.Sound { d with frames := frames', values := d.values.bind name v' })
    (hs' : ctx'.Sits { d with frames := frames', values := d.values.bind name v' }) :
    After free ρ ctx ctx' c d ρ { c with frames, values := c.values.bind name v }
      { d with frames := frames', values := d.values.bind name v' } where
  grows := .same h.alike.mirrors (Checker.gains_alloc halloc _) (Checker.gains_alloc halloc' _)
  twin := by
    have hg := h.alike.sound.grows_of_alloc h.sits halloc
    have hg' := h.alike.sound'.grows_of_alloc h.sits' halloc'
    exact h.binds
      (Checker.binds_of_alloc halloc rfl ⟨fun _ _ h => h, fun _ _ h => h, hg, Nat.le_refl _, rfl⟩ hc hs)
      (Checker.binds_of_alloc halloc' rfl ⟨fun _ _ h => h, fun _ _ h => h, hg', Nat.le_refl _, rfl⟩ hd hs')
      hty

/-- **The end of a scope on both sides**: the tables are those of the scope, and what is in scope is what was
in scope before it. -/
theorem Stretch.close (h : Twin ρ ctx ctx' c d) (h' : Stretch free ρ ctx₁ ctx₁' c d xs ys ρ' c₁ d₁)
    (hw : c.Walked c') (hw' : d.Walked d') (hc : c₁.Unchanged c') (hd : d₁.Unchanged d') :
    Stretch free ρ ctx ctx' c d xs ys ρ' c' d' := by
  have hm : c'.types.Mirrors ρ' d'.types := by
    rw [hc.types_eq, hd.types_eq]
    exact h'.grows.mirrors
  exact ⟨h.grown (h'.grows.trans (.same hm hc.gains hd.gains)) hw hw', h'.cells⟩

/-! ## Loops with a counter -/

theorem ExpTwinned.forLoop {m : Mark} {counter : Ident} {low high body : Exp} {slot : Option VarId}
    (hl : ExpTwinned free low) (hh : ExpTwinned free high) (hb : ExpTwinned free body) :
    ExpTwinned free (.forLoop m counter low high body slot) := by
  intro f ρ ctx ctx' c d hf h e' c' f' d' hrun hrun'
  obtain ⟨low', high', body', rfl, hl', hh', hb'⟩ := hf
  have hw := (walked_exp h.alike.sound h.sits hrun).1
  have hw' := (walked_exp h.alike.sound' h.sits' hrun').1
  obtain ⟨l, c₁, r, c₂, fit, c₃, v, frames, b, c₄, h₁, h₂, h₃, halloc, hc, hs, hg, h₄, rfl, rfl⟩ :=
    exists_of_run_forLoop h.alike.sound h.sits hrun
  obtain ⟨l', d₁, r', d₂, _, d₃, v', frames', b', d₄, k₁, k₂, k₃, kalloc, hd, hs', hg', k₄, rfl, rfl⟩ :=
    exists_of_run_forLoop h.alike.sound' h.sits' hrun'
  obtain ⟨ρ₁, hst₁, hm₁⟩ := hl hl' h _ _ _ _ h₁ k₁
  obtain ⟨ρ₂, hst₂, hm₂⟩ := hh hh' hst₁.twin _ _ _ _ h₂ k₂
  obtain ⟨he, rfl⟩ := Rule.both_bounds hst₂.twin.alike (hm₁.imp hst₂.grows.le).ty hm₂.ty _ _ _ _ h₃ k₃
  have hst₃ := (hst₁.seq hst₂).echo he
  -- the counter is in scope on both sides
  have hbound : After free ρ₂ ctx.enterLoop ctx'.enterLoop c₃ d₃ ρ₂ (c₃.counting counter.name v frames)
      (d₃.counting counter.name v' frames') :=
    ⟨.same hst₃.twin.alike.mirrors (Checker.gains_alloc halloc _) (Checker.gains_alloc kalloc _),
      hst₃.twin.enterLoop.binds (Checker.binds_of_alloc halloc rfl hg hc hs)
        (Checker.binds_of_alloc kalloc rfl hg' hd hs') (.some hst₃.twin.alike.mirrors.int)⟩
  obtain ⟨ρ₃, hst₄, hm₄⟩ := hb hb' hbound.twin _ _ _ _ h₄ k₄
  have hst := Stretch.close h ((hst₃.after hbound).seq hst₄) hw hw' (.of_tables rfl rfl rfl) (.of_tables rfl rfl rfl)
  have hsome : (fit && b.ty.isSome) = (fit && b'.ty.isSome) :=
    congrArg (fit && ·) (isSome_eq_of_rel hm₄.ty)
  refine hst.node m .quiet ?_
  rw [hsome]
  split
  · exact .some hst.twin.alike.mirrors.void
  · exact .none

/-! ## The variables of a run -/

section

variable {first first' : ℕ} {seen : List String} {id : Ident} {typeName : Option Ident} {init init' : Exp}
  {loc : Location} {slot : Option VarId} {r r' : Dec × Bool}

/-- Behind a variable that was checked the states are alike, and the variable is right on both sides or on
neither. -/
theorem twinned_newVariable (hinit : ExpTwinned free init) (hi : init.Reordered free init')
    (h : Twin ρ ctx ctx' c d) (hb : c.BoundFrom first seen) (hb' : d.BoundFrom first' seen)
    (hmem : id.name ∉ seen)
    (hrun : (checkDec ctx (.variable first) (.var id typeName init loc slot)).run c = .ok (r, c'))
    (hrun' : (checkDec ctx' (.variable first') (.var id typeName init' loc slot)).run d = .ok (r', d')) :
    ∃ e e' v v' ok ρ', r = (.var id typeName e loc (some v), ok) ∧
      r' = (.var id typeName e' loc (some v'), ok) ∧
      Stretch free ρ ctx ctx' c d e.live.tys e'.live.tys ρ' c' d' := by
  obtain ⟨e, c₁, a, c₂, v, frames, h₁, h₂, halloc, rfl, rfl⟩ := exists_of_run_newVariable hb hmem hrun
  obtain ⟨e', d₁, a', d₂, v', frames', k₁, k₂, kalloc, rfl, rfl⟩ := exists_of_run_newVariable hb' hmem hrun'
  have hdecl := declared_variable h.alike.sound h.sits hrun
  have hdecl' := declared_variable h.alike.sound' h.sits' hrun'
  obtain ⟨ρ', hst, hm⟩ := hinit hi h _ _ _ _ h₁ k₁
  rw [isLiteral_of_reordered hi] at k₂
  obtain ⟨he, hty, hok⟩ := Rule.both_declared hst.twin.alike typeName hm _ _ _ _ _ h₂ k₂
  have hst₂ := hst.echo he
  have hbound : After free ρ' ctx ctx' c₂ d₂ ρ' _ _ :=
    hst₂.twin.bindSlot halloc kalloc hty hdecl.sound hdecl.sits hdecl'.sound hdecl'.sits
  exact ⟨e, e', v, v', a.2, ρ', rfl, by rw [hok], hst₂.after hbound⟩

end

/-- **The variables of a run are bound on both sides**, one after another. -/
theorem both_variables {first first' : ℕ} {ds : List Dec} (hk : ∀ d ∈ ds, d.kind = .var)
    (h : ∀ d ∈ ds, d.Parts (ExpTwinned free)) : ∀ {es : List Dec} {seen : List String} {ρ : Pairing}
      {c d : Checker}, reorderedDecs free ds es → Twin ρ ctx ctx' c d → c.BoundFrom first seen →
      d.BoundFrom first' seen →
      Both (checkPlanned ctx (ds.map fun _ => .variable first) ds)
        (checkPlanned ctx' (es.map fun _ => .variable first') es) c d fun r r' c' d' => ∃ ρ',
          Stretch free ρ ctx ctx' c d (tysDecs (liveDecs ⟨some .var, seen⟩ r.1))
            (tysDecs (liveDecs ⟨some .var, seen⟩ r'.1)) ρ' c' d' ∧ r.2 = r'.2 := by
  induction ds with
  | nil =>
    intro es seen ρ c d hes ht _ _
    cases hes
    exact both_pure ⟨ρ, .refl ht, rfl⟩
  | cons x ds ih =>
    intro es seen ρ c d hes ht hb hb' s c' s' d' hrun hrun'
    obtain ⟨y, es, rfl, hx, hes⟩ := hes
    obtain ⟨hkind, hkinds⟩ := List.forall_mem_cons.mp hk
    obtain ⟨hpart, hparts⟩ := List.forall_mem_cons.mp h
    cases x with
    | type => cases hkind
    | function => cases hkind
    | var id typeName init loc slot =>
      obtain ⟨init', rfl, hi⟩ := hx
      obtain ⟨r, c₁, rs, h₁, h₂, rfl⟩ := exists_of_run_checkPlanned hrun
      obtain ⟨r', d₁, rs', k₁, k₂, rfl⟩ := exists_of_run_checkPlanned hrun'
      by_cases hmem : id.name ∈ seen
      · -- the name is one of the run on both sides
        obtain ⟨rfl, rfl⟩ := eq_of_run_again hb hmem h₁
        obtain ⟨rfl, rfl⟩ := eq_of_run_again hb' hmem k₁
        have hst₀ : Stretch free ρ ctx ctx' c d [] [] ρ c d := .refl ht
        have hst₁ := hst₀.echo (.report (.duplicateDefinition id.name) id.loc .quiet)
        have hw := Checker.walked_reported ht.alike.sound (.duplicateDefinition id.name) id.loc
        have hw' := Checker.walked_reported ht.alike.sound' (.duplicateDefinition id.name) id.loc
        obtain ⟨ρ', hst₂, hok⟩ := ih hkinds hparts hes hst₁.twin (hb.walked hw) (hb'.walked hw') _ _ _ _ h₂ k₂
        refine ⟨ρ', ?_, by simp [hok]⟩
        change Stretch _ _ _ _ _ _ (tysDecs (liveDecs _ (.var id typeName init loc slot :: rs.1)))
          (tysDecs (liveDecs _ (.var id typeName init' loc slot :: rs'.1))) _ _ _
        rw [liveDecs_of_mem (k := .var) (by rfl) (by exact hmem),
          liveDecs_of_mem (k := .var) (by rfl) (by exact hmem)]
        exact hst₁.seq hst₂
      · have hb₁ := boundFrom_of_run ht.alike.sound ht.sits hb hmem h₁
        have hb₁' := boundFrom_of_run ht.alike.sound' ht.sits' hb' hmem k₁
        obtain ⟨e, e', v, v', ok, ρ₁, rfl, rfl, hst₁⟩ := twinned_newVariable hpart hi ht hb hb' hmem h₁ k₁
        obtain ⟨ρ', hst₂, hok⟩ := ih hkinds hparts hes hst₁.twin hb₁ hb₁' _ _ _ _ h₂ k₂
        refine ⟨ρ', ?_, by simp [hok]⟩
        change Stretch _ _ _ _ _ _ (tysDecs (liveDecs _ (.var id typeName e loc (some v) :: rs.1)))
          (tysDecs (liveDecs _ (.var id typeName e' loc (some v') :: rs'.1))) _ _ _
        rw [liveDecs_of_not_mem (k := .var) (by rfl) (by exact hmem),
          liveDecs_of_not_mem (k := .var) (by rfl) (by exact hmem)]
        exact hst₁.seq hst₂

end TigerCheck
