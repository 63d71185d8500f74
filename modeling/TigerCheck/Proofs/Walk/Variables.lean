import TigerCheck.Proofs.Walk.Steps

/-!
# The variables of a run

The variables of a run are bound one after another, each behind its initializer. A name that was bound
since the run was opened is not bound again. So the names of the run so far are those that the innermost
scope binds to a variable from the first one of the run on.

* `isLiteral_of_run`: a checked literal is a literal.
* `Checker.Slotted`, `Checker.BoundFrom`: the names of a run so far.
* `eq_of_run_again`: a name of the run is not bound again.
* **`exists_of_run_newVariable`**, `exists_of_run_variable`: the steps of the check of a variable.
-/

namespace TigerCheck

open Check

variable {ctx : Context} {c c₁ c' : Checker}

/-- A literal stays a literal, and nothing else becomes one. -/
theorem isLiteral_of_run {e e' : Exp} (h : (checkExp ctx e).run c = .ok (e', c')) :
    e'.isLiteral = e.isLiteral := by
  cases e with
  | cond m test thenPart elsePart =>
    cases elsePart <;>
    · rw [checkExp] at h
      repeat obtain ⟨_, _, -, h⟩ := exists_of_run_bind h
      cases h
      rfl
  | breakLoop =>
    rw [checkExp] at h
    split at h <;>
    · obtain ⟨_, _, -, h⟩ := exists_of_run_bind h
      cases h
      rfl
  | _ =>
    rw [checkExp] at h
    repeat obtain ⟨_, _, -, h⟩ := exists_of_run_bind h
    cases h
    rfl

/-- Behind the type of a declared variable. -/
theorem walked_declared {typeName : Option Ident} {init : Mark} {literal : Bool} {r : Option Ty × Bool}
    (hc : c.Sound) (hi : ∀ t, init.ty = some t → c.types.Has t)
    (h : (Rule.declared typeName init literal).run c = .ok (r, c')) :
    c.Walked c' ∧ ∀ t, r.1 = some t → c'.types.Has t :=
  have hend := (Rule.yields_declared hc.rest typeName hi literal).of_run h
  have hw := hend.1.walked hc
  ⟨hw, hw.forall_has hend.2⟩

/-! ## The names of a run -/

/-- The variables that the innermost scope binds have slots. -/
def Checker.Slotted (c : Checker) : Prop :=
  ∀ name v, c.values.lookupLocal name = some v → v.index < c.frames.vars.size

theorem Checker.Slotted.of_values (h : c.Slotted) (hv : c'.values = c.values)
    (hle : c.frames.vars.size ≤ c'.frames.vars.size) : c'.Slotted := by
  intro name v hl
  rw [hv] at hl
  exact Nat.lt_of_lt_of_le (h name v hl) hle

theorem Context.Sits.slotted (h : ctx.Sits c) : c.Slotted := by
  intro name v hl
  obtain ⟨s, hs, -⟩ := h.values name v (Scopes.lookup_of_lookupLocal hl)
  exact (Array.getElem?_eq_some_iff.mp hs).1

/-- The names of a run so far are those that the innermost scope binds to a variable from the first one
of the run on. -/
structure Checker.BoundFrom (c : Checker) (first : ℕ) (seen : List String) : Prop where
  le_size : first ≤ c.frames.vars.size
  iff_mem : ∀ name, (c.values.lookupLocal name).any (fun v => first ≤ v.index) = true ↔ name ∈ seen

/-- When a run is opened it has no names. -/
theorem Checker.Slotted.boundFrom (h : c.Slotted) : c.BoundFrom c.frames.vars.size [] where
  le_size := Nat.le_refl _
  iff_mem name := by
    simp only [List.not_mem_nil, iff_false, Option.any_eq_true, decide_eq_true_eq, not_exists, not_and, not_le]
    exact fun v hv => h name v hv

namespace Checker.BoundFrom

variable {first : ℕ} {seen : List String}

theorem opened (hs : ctx.Sits c) : c.BoundFrom c.frames.vars.size [] := hs.slotted.boundFrom

theorem of_values (h : c.BoundFrom first seen) (hv : c'.values = c.values)
    (hle : c.frames.vars.size ≤ c'.frames.vars.size) : c'.BoundFrom first seen where
  le_size := Nat.le_trans h.le_size hle
  iff_mem name := by
    rw [hv]
    exact h.iff_mem name

theorem walked (h : c.BoundFrom first seen) (hw : c.Walked c') : c'.BoundFrom first seen :=
  h.of_values hw.scopes.values_eq hw.grown.frames.vars_le

/-- A variable of the run that is bound adds its name. -/
theorem bind (h : c.BoundFrom first seen) {name : String} {v : VarId} (hfirst : first ≤ v.index)
    (hv : c'.values = c.values.bind name v) (hle : c.frames.vars.size ≤ c'.frames.vars.size) :
    c'.BoundFrom first (name :: seen) where
  le_size := Nat.le_trans h.le_size hle
  iff_mem other := by
    rw [hv, Scopes.lookupLocal_bind, List.mem_cons]
    by_cases hother : other = name
    · rw [if_pos hother]
      simp [hother, hfirst]
    · rw [if_neg hother, h.iff_mem, or_iff_right hother]

theorem bindSlot (h : c.BoundFrom first seen) {v : VarId} {frames : FrameTable} {ty : Option Ty}
    (ha : c.frames.Allocs ctx.frame ty v frames) (name : String) :
    BoundFrom { c with frames, values := c.values.bind name v } first (name :: seen) :=
  h.bind (by rw [ha.id_eq]; exact h.le_size) rfl ha.grows.vars_le

end Checker.BoundFrom

/-! ## One variable -/

section

variable {first : ℕ} {seen : List String} {name : Ident} {typeName : Option Ident} {init : Exp}
  {loc : Location} {slot : Option VarId} {r : Dec × Bool}

/-- A name of the run is not bound again, which is reported. -/
theorem eq_of_run_again (hb : c.BoundFrom first seen) (hmem : name.name ∈ seen)
    (hrun : (checkDec ctx (.variable first) (.var name typeName init loc slot)).run c = .ok (r, c')) :
    c' = c.reported (.duplicateDefinition name.name) name.loc ∧
      r = (.var name typeName init loc slot, false) := by
  have hend : Yields (checkDec ctx (.variable first) (.var name typeName init loc slot)) c
      fun r d => d = c.reported (.duplicateDefinition name.name) name.loc ∧
        r = (.var name typeName init loc slot, false) := by
    rw [checkDec, yields_bind, yields_boundSince, if_pos ((hb.iff_mem name.name).mpr hmem), yields_bind,
      yields_report, yields_pure]
    exact ⟨rfl, rfl⟩
  exact hend.of_run hrun

/-- **The steps of a variable whose name is not one of the run**: its initializer, its type, its slot, and
its binding. -/
theorem exists_of_run_newVariable (hb : c.BoundFrom first seen) (hmem : name.name ∉ seen)
    (hrun : (checkDec ctx (.variable first) (.var name typeName init loc slot)).run c = .ok (r, c')) :
    ∃ init' c₁ d c₂ v frames, (checkExp ctx init).run c = .ok (init', c₁) ∧
      (Rule.declared typeName init'.mark init.isLiteral).run c₁ = .ok (d, c₂) ∧
      c₂.frames.alloc ctx.frame name.name d.1 .letBound = .ok (v, frames) ∧
      c' = { c₂ with frames, values := c₂.values.bind name.name v } ∧
      r = (.var name typeName init' loc (some v), d.2) := by
  rw [checkDec] at hrun
  obtain ⟨again, c₀, h₀, hsteps⟩ := exists_of_run_bind hrun
  have hbound : Yields (boundSince first name.name) c fun again d => again = false ∧ d = c := by
    rw [yields_boundSince]
    exact ⟨Bool.eq_false_iff.mpr fun h => hmem ((hb.iff_mem name.name).mp h), rfl⟩
  obtain ⟨hagain, hc₀⟩ := hbound.of_run h₀
  rw [hagain, hc₀, if_neg Bool.false_ne_true] at hsteps
  obtain ⟨init', c₁, h₁, hsteps⟩ := exists_of_run_bind hsteps
  obtain ⟨d, c₂, h₂, hsteps⟩ := exists_of_run_bind hsteps
  obtain ⟨v, c₃, h₃, hsteps⟩ := exists_of_run_bind hsteps
  obtain ⟨_, c₄, h₄, hsteps⟩ := exists_of_run_bind hsteps
  cases hsteps
  obtain ⟨frames, halloc, rfl⟩ := exists_of_run_alloc h₃
  exact ⟨init', c₁, d, c₂, v, frames, h₁, isLiteral_of_run h₁ ▸ h₂, halloc, eq_of_run_bindValue h₄, rfl⟩

/-- In a place the slot of the variable is one of the frame, and has its type. -/
theorem exists_of_run_variable (hc : c.Sound) (hs : ctx.Sits c) (hb : c.BoundFrom first seen)
    (hmem : name.name ∉ seen)
    (hrun : (checkDec ctx (.variable first) (.var name typeName init loc slot)).run c = .ok (r, c')) :
    ∃ init' c₁ d c₂ v frames s, (checkExp ctx init).run c = .ok (init', c₁) ∧
      (Rule.declared typeName init'.mark init.isLiteral).run c₁ = .ok (d, c₂) ∧
      c₂.frames.Allocs ctx.frame d.1 v frames ∧ frames.vars[v.index]? = some s ∧ s.ty = d.1 ∧
      c' = { c₂ with frames, values := c₂.values.bind name.name v } ∧ c₂.Declared ctx c' ∧
      r = (.var name typeName init' loc (some v), d.2) := by
  obtain ⟨init', c₁, d, c₂, v, frames, h₁, h₂, h₃, hc', hr⟩ := exists_of_run_newVariable hb hmem hrun
  obtain ⟨hw₁, hinit⟩ := walked_exp hc hs h₁
  obtain ⟨hw₂, hty⟩ := walked_declared hw₁.sound hinit h₂
  have hbind := hw₂.sound.bindSlot ((hs.walked hw₁).walked hw₂) name.name hty .letBound
    (Q := fun v c' => ∃ frames s, c₂.frames.Allocs ctx.frame d.1 v frames ∧
      frames.vars[v.index]? = some s ∧ s.ty = d.1 ∧
      c' = { c₂ with frames, values := c₂.values.bind name.name v } ∧ c₂.Declared ctx c')
    fun v frames s halloc hs' hst hdecl => ⟨frames, s, halloc, hs', hst, rfl, hdecl⟩
  simp only [yields_bind, yields_bindValue, yields_pure] at hbind
  obtain ⟨frames', s, halloc, hs', hst, heq, hdecl⟩ := hbind.of_run (run_alloc h₃)
  obtain rfl : frames = frames' := congrArg Checker.frames heq
  exact ⟨init', c₁, d, c₂, v, frames, s, h₁, h₂, halloc, hs', hst, hc', hc' ▸ hdecl, hr⟩

/-- A variable that is checked adds its name to those of the run. -/
theorem boundFrom_of_run (hc : c.Sound) (hs : ctx.Sits c) (hb : c.BoundFrom first seen)
    (hmem : name.name ∉ seen)
    (hrun : (checkDec ctx (.variable first) (.var name typeName init loc slot)).run c = .ok (r, c')) :
    c'.BoundFrom first (name.name :: seen) := by
  obtain ⟨init', c₁, d, c₂, v, frames, s, h₁, h₂, halloc, -, -, rfl, -, -⟩ :=
    exists_of_run_variable hc hs hb hmem hrun
  obtain ⟨hw₁, hhas⟩ := walked_exp hc hs h₁
  obtain ⟨hw₂, -⟩ := walked_declared hw₁.sound hhas h₂
  exact (hb.walked (hw₁.trans hw₂)).bindSlot halloc name.name

end

end TigerCheck
