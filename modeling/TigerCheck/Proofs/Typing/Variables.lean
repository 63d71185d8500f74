import TigerCheck.Proofs.Typing.Inversion
import TigerCheck.Proofs.Typing.Judged
import TigerCheck.Proofs.Walk.Variables

/-!
# Checking a run of variables decides whether it is right

The variables of a run are in scope one after another, each behind its initializer. So each is judged in the
environment that those before it left behind.

* `judged_declared`: the type of a declared variable.
* **`judged_variable`**, **`judged_variableRun`**: one variable, and the variables of a run.
-/

namespace TigerCheck

open Check

variable {ctx : Context} {c c₁ c' : Checker} {ν : Renaming} {n n' : ℕ}

/-! ## The type of a declared variable -/

section

variable {typeName : Option Ident} {init : Mark} {literal : Bool} {r : Option Ty × Bool} {u : Ty}

/-- **A declared variable has the type of its initializer, or that of its annotation.** -/
theorem judged_declared (hc : c.Sound) (hf : c.Fine ν n) (hu : init.ty = some u)
    (hhas : c.types.Has u) (h : (Rule.declared typeName init literal).run c = .ok (r, c')) :
    Judged c ν c' n (fun b t => VariableTy b (c.env ν) typeName literal (u.rename ν) t)
      fun ν' t => Answers r.1 ν' t ∧ r.2 = true := by
  have hi : ∀ t, init.ty = some t → c.types.Has t := by
    rintro t ht
    rw [hu] at ht
    cases ht
    exact hhas
  cases typeName with
  | none =>
    obtain ⟨hrule, hok⟩ := (Rule.yields_inferred init).of_run h
    have hjudged := hrule.judged (ν := ν) (J := fun b t => VariableTy b (c.env ν) none literal
      (u.rename ν) t) (fun ν t => t.rename ν) (by simp [hu]) hf fun b _ y => by
        simp only [VariableTy, Rule.InferredTy, hu, Option.some.injEq, ne_eq,
          Ty.rename_eq_nil_iff]
        grind
    refine hjudged.imp fun ν' t ht => ?_
    obtain ⟨t', ht', rfl⟩ := ht
    exact ⟨⟨t', ht', rfl⟩, by rw [hok, ht']; rfl⟩
  | some name =>
    obtain ⟨ty, ok⟩ := r
    obtain ⟨hty, hrule⟩ := (Rule.yields_annotated hc.rest name hi literal).of_run h
    dsimp only at hty hrule
    have hkey : ∀ b, c.types.Embeds ν b → ∀ t,
        VariableTy b (c.env ν) (some name) literal (u.rename ν) t ↔ ∃ d,
          (c.typeNamed name.name = some d ∧ c.types.Matches d u ∧ (literal = true → d = u)) ∧
            t = d.rename ν := by
      intro b hb t
      simp only [VariableTy, Checker.env_types, Option.map_eq_some_iff]
      constructor
      · rintro ⟨⟨d, hd, rfl⟩, hm, hlit⟩
        have hhasd := hc.rest.has_typeNamed hd
        exact ⟨d, ⟨hd, (hb.matches_iff hf.fits hc.rest.closed hhasd hhas).mp hm,
          fun hl => hf.fits.rename_inj hhasd hhas (hlit hl)⟩, rfl⟩
      · rintro ⟨d, ⟨hd, hm, hlit⟩, rfl⟩
        have hhasd := hc.rest.has_typeNamed hd
        exact ⟨⟨d, hd, rfl⟩, (hb.matches_iff hf.fits hc.rest.closed hhasd hhas).mpr hm,
          fun hl => congrArg (·.rename ν) (hlit hl)⟩
    cases hrule with
    | yes hp =>
      obtain ⟨d, i, hd, hi', hm, hlit⟩ := hp
      rw [hu] at hi'
      cases hi'
      refine .same hf ⟨⟨d, hty.trans hd, rfl⟩, rfl⟩ fun b hb y => ?_
      rw [hkey b hb]
      simp only [hd, Option.some.injEq, and_assoc, exists_eq_left', hm, true_and]
      exact and_iff_right hlit
    | missing hm => exact absurd hm (by simp [hu, hf.clean])
    | refused hno _ hlt =>
      refine .wrong hlt fun b hb t ht => ?_
      obtain ⟨d, ⟨hd, hm, hlit⟩, -⟩ := (hkey b hb t).mp ht
      exact hno ⟨d, u, hd, hu, hm, hlit⟩

end

/-! ## One variable -/

section

variable {first : ℕ} {seen : List String} {name : Ident} {typeName : Option Ident} {init : Exp}
  {loc : Location} {slot : Option VarId} {r : Dec × Bool}

/-- **The check of a variable decides its type**, and binds it. -/
theorem judged_variable (hinit : ExpJudged init) (hc : c.Sound) (hs : ctx.Sits c) (hf : c.Fine ν n)
    (hb : c.BoundFrom first seen) (hmem : name.name ∉ seen)
    (hrun : (checkDec ctx (.variable first) (.var name typeName init loc slot)).run c = .ok (r, c')) :
    Judged c ν c' (n + init.typeDecs)
      (fun b Γ' => ∃ u, init.Typed b (c.env ν) n ctx.inLoop u ∧ ∃ t,
        VariableTy b (c.env ν) typeName init.isLiteral u t ∧
          Γ' = (c.env ν).bindValue name.name t)
      fun ν' Γ' => Γ' = c'.env ν' ∧ r.2 = true := by
  obtain ⟨init', c₁, d, c₂, v, frames, s, h₁, h₂, halloc, hs', hst, rfl, hdecl, rfl⟩ :=
    exists_of_run_variable hc hs hb hmem hrun
  obtain ⟨hw₁, hhas⟩ := walked_exp hc hs h₁
  have hs₁ := hs.walked hw₁
  obtain ⟨hw₂, -⟩ := walked_declared hw₁.sound hhas h₂
  have hs₂ := hs₁.walked hw₂
  refine hinit.bind hc hs hf h₁ (hw₂.grown.trans hdecl.grown) fun ν₁ u hu hag₁ henv₁ hf₁ => ?_
  rw [← henv₁]
  refine (judged_declared hw₁.sound hf₁ hu (hhas u hu) h₂).bind hw₂.grown
    hw₂.sound.rest.closed hdecl.grown fun ν₂ x hx hag₂ hf₂ => ?_
  obtain ⟨⟨t, ht, rfl⟩, hok⟩ := hx
  have hbind : c₂.BindsValue name.name t frames (c₂.values.bind name.name v) := by
    refine ⟨halloc.grows, ⟨v, s, by rw [Scopes.lookup_bind, if_pos rfl], hs', hst.trans ht⟩, ?_⟩
    intro x hx
    rw [Scopes.lookup_bind, if_neg hx]
  have henv := hbind.env_eq hw₂.sound hs₂ ν₂
  rw [hw₂.env_eq hw₁.sound hs₁ hag₂] at henv
  rw [← henv]
  exact .right rfl (.refl ν₂ c₂.types) (hbind.fine hw₂.sound hs₂ hf₂) ⟨rfl, hok⟩
    fun b hb y => (and_iff_right hb).symm

end

/-! ## The variables of a run -/

/-- **The checks of the variables of a run decide whether the run is right.** -/
theorem judged_variables {first : ℕ} {ds : List Dec} (hk : ∀ d ∈ ds, d.kind = .var)
    (h : ∀ d ∈ ds, d.Parts ExpJudged) : ∀ {seen : List String} {c c' : Checker} {ν : Renaming}
    {n : ℕ} {r : List Dec × Bool}, c.Sound → ctx.Sits c → c.Fine ν n → c.BoundFrom first seen →
      (checkPlanned ctx (ds.map fun _ => .variable first) ds).run c = .ok (r, c') →
      Judged c ν c' (n + typeDecsDecs ds)
        (fun b Γ' => VariablesTyped b seen (c.env ν) n ctx.inLoop ds Γ')
        fun ν' Γ' => Γ' = c'.env ν' ∧ r.2 = true := by
  induction ds with
  | nil =>
    intro seen c c' ν n r _ _ hf _ hrun
    cases hrun
    exact .same hf ⟨rfl, rfl⟩ fun b _ Γ' => variablesTyped_nil_iff
  | cons d ds ih =>
    intro seen c c' ν n r hc hs hf hb hrun
    obtain ⟨hd, hkinds⟩ := List.forall_mem_cons.mp hk
    obtain ⟨hpart, hparts⟩ := List.forall_mem_cons.mp h
    cases d with
    | type => cases hd
    | function => cases hd
    | var name typeName init loc slot =>
      obtain ⟨r₁, c₁, r₂, h₁, h₂, rfl⟩ := exists_of_run_checkPlanned hrun
      have hd₁ := declared_variable hc hs h₁
      have hd₂ := declared_variables hkinds hd₁.sound hd₁.sits h₂
      refine Judged.of_iff ?_ fun b Γ' => variablesTyped_cons_iff
      by_cases hmem : name.name ∈ seen
      · rw [(eq_of_run_again hb hmem h₁).1] at hd₂
        refine .wrong (Nat.lt_of_lt_of_le (c.lt_reported _ _) hd₂.grown.diagnostics_le) ?_
        exact fun b _ Γ' hΓ => hΓ.1 hmem
      · have hb₁ := boundFrom_of_run hc hs hb hmem h₁
        rw [typeDecsDecs, Dec.typeDecs, ← Nat.add_assoc]
        have hjudged : Judged c ν c' (n + init.typeDecs + typeDecsDecs ds)
            (fun b Γ' => ∃ Γ₁, (∃ u, init.Typed b (c.env ν) n ctx.inLoop u ∧ ∃ t,
              VariableTy b (c.env ν) typeName init.isLiteral u t ∧
                Γ₁ = (c.env ν).bindValue name.name t) ∧
              VariablesTyped b (name.name :: seen) Γ₁ (n + init.typeDecs) ctx.inLoop ds Γ')
            fun ν' Γ' => Γ' = c'.env ν' ∧ (r₁.2 && r₂.2) = true := by
          refine (judged_variable hpart hc hs hf hb hmem h₁).bind hd₁.grown hd₁.sound.rest.closed
            hd₂.grown fun ν₁ Γ₁ hΓ _ hf₁ => ?_
          obtain ⟨rfl, hok⟩ := hΓ
          refine (ih hkinds hparts hd₁.sound hd₁.sits hf₁ hb₁ h₂).imp fun ν' Γ' hΓ' => ?_
          exact ⟨hΓ'.1, by simp [hok, hΓ'.2]⟩
        refine hjudged.of_iff fun b Γ' => ?_
        constructor
        · rintro ⟨-, u, hu, t, ht, hrest⟩
          exact ⟨_, ⟨u, hu, t, ht, rfl⟩, hrest⟩
        · rintro ⟨_, ⟨u, hu, t, ht, rfl⟩, hrest⟩
          exact ⟨hmem, u, hu, t, ht, hrest⟩

/-- **The check of a run of variables decides whether it is right.** -/
theorem judged_variableRun {d : Dec} {ds : List Dec} (hk : ∀ e ∈ d :: ds, e.kind = .var)
    (h : ∀ e ∈ d :: ds, e.Parts ExpJudged) (hc : c.Sound) (hs : ctx.Sits c) (hf : c.Fine ν n)
    {plans : List Plan} {r : List Dec × Bool}
    (hopen : (openRun ctx (d :: ds)).run c = .ok (plans, c₁))
    (hrun : (checkPlanned ctx plans (d :: ds)).run c₁ = .ok (r, c')) :
    Judged c ν c' (n + typeDecsDecs (d :: ds))
      (fun b Γ' => VariablesTyped b [] (c.env ν) n ctx.inLoop (d :: ds) Γ')
      fun ν' Γ' => Γ' = c'.env ν' ∧ r.2 = true := by
  obtain ⟨rfl, rfl⟩ := eq_of_run_openRun (hk d List.mem_cons_self) hopen
  have hw := Checker.walked_note hc (.run d.kind (ds.length + 1))
  have hf' : (c.note (.run d.kind (ds.length + 1))).Fine ν n :=
    ⟨hf.clean, hf.elements, hf.fits, hf.values, hf.functions⟩
  refine Judged.within (c := c.note (.run d.kind (ds.length + 1))) ?_ rfl rfl rfl rfl fun _ h => h
  exact judged_variables hk h hw.sound (hs.walked hw) hf' (.opened (hs.walked hw)) hrun

end TigerCheck
