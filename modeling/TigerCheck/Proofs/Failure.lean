import TigerCheck.Report
import TigerCheck.Proofs.Session

/-!
# When a check fails

A missing type and a diagnostic mean the same. A check that reports something gives no type, and one that
gives no type has reported something, or what it needed was reported before. The flag for code generation
is set exactly when there is a diagnostic.

* `Checker.Reachable`: the states that a checker can be brought to, one request after another.
* `Diagnostics.Flagged`: the flag says whether there are diagnostics.
* **`untyped_iff_reported`**: the agreement, for expressions, declarations and whole programs.
-/

namespace TigerCheck

open Check

/-- The states of a checker that was asked to check expressions at existing frames, and programs. -/
inductive Checker.Reachable : Checker → Prop where
  | initial : Reachable .initial
  | exp {c c' : Checker} {ctx : Context} {e e' : Exp} : Reachable c →
      ctx.frame.index < c.frames.frames.size → (checkExp ctx e).run c = .ok (e', c') → Reachable c'
  | program {c c' : Checker} {p p' : Program} : Reachable c →
      (checkProgram p).run c = .ok (p', c') → Reachable c'

theorem Checker.Reachable.idle {c : Checker} (h : c.Reachable) : c.Idle := by
  induction h with
  | initial => exact Checker.initial_idle
  | exp _ hf hrun ih => exact ((ih.checkExp _ hf _).of_run hrun).1
  | program _ hrun ih => exact ((ih.checkProgram _).of_run hrun).1

namespace Diagnostics

variable {ds ds' : Diagnostics}

/-- The flag is set exactly if there are diagnostics. -/
def Flagged (ds : Diagnostics) : Prop := ds.hasError = true ↔ ds.isEmpty = false

theorem isEmpty_eq_false_iff : ds.isEmpty = false ↔ ds.size ≠ 0 := by
  rw [isEmpty, size, ← Bool.not_eq_true, Array.isEmpty_iff_size_eq_zero]

theorem Flagged.adds (h : ds.Flagged) (hadds : ds.Adds ds') : ds'.Flagged := by
  cases hadds with
  | refl => exact h
  | report => simp [Flagged, Diagnostics.report, hasError, isEmpty]

end Diagnostics

theorem Checker.Reachable.flagged {c : Checker} (h : c.Reachable) : c.diagnostics.Flagged := by
  induction h with
  | initial => exact ⟨nofun, nofun⟩
  | exp _ _ hrun ih => exact ih.adds ((expTame _ _).changes _ _ _ hrun)
  | program _ hrun ih => exact ih.adds ((checkProgram_tame _).changes _ _ _ hrun)

/-- An action that reported something has no good answer. -/
theorem Check.Guarded.not_good {α : Type} {R : Checker → Checker → Prop} {ok : Prop} {m : Check α} {good : α → Prop}
    {c c' : Checker} {a : α} (h : Guarded R ok m good) (hm : m.run c = .ok (a, c'))
    (hlt : c.diagnostics.size < c'.diagnostics.size) : ¬ good a := fun hgood => by
  rw [(h.honest c a c' hm hgood).2] at hlt
  exact Nat.lt_irrefl _ hlt

/-! ## Expressions -/

theorem Checker.Reachable.checkExp {c : Checker} (h : c.Reachable) (ctx : Context)
    (hf : ctx.frame.index < c.frames.frames.size) (e : Exp) :
    (∃ e' c', (TigerCheck.checkExp ctx e).run c = .ok (e', c') ∧
      (c.diagnostics.size < c'.diagnostics.size → e'.ty = none) ∧
      (e'.ty = none → c'.diagnostics.isEmpty = false) ∧ c'.diagnostics.Flagged) ∨
    (maxLevel < ctx.level + e.nesting ∧ (TigerCheck.checkExp ctx e).run c = .error .levelOverflow) := by
  rcases h.idle.checkExp ctx hf e with ⟨e', c', hrun, -, -, hty⟩ | hdeep
  · refine Or.inl ⟨e', c', hrun, fun hlt => ?_, fun hnone => ?_, (h.exp hf hrun).flagged⟩
    · exact Classical.not_not.mp ((expTame e ctx).not_good hrun hlt)
    · exact Diagnostics.isEmpty_eq_false_iff.mpr (hty hnone)
  · exact Or.inr hdeep

/-! ## Programs -/

/-- A program without a type was reported, and one that was reported has no type. -/
theorem yieldsOr_untyped_iff (p : Program) :
    YieldsOr (maxLevel < p.body.nesting) (checkFromStart p) .initial fun p' c =>
      (p'.body.ty = none ↔ c.diagnostics.isEmpty = false) ∧ c.diagnostics.Flagged := by
  refine Yields.bindOr (yields_log.mpr ?_)
  rcases (Checker.initial_idle.note .started).checkProgram p with ⟨p', c, hrun, -, hty⟩ | hdeep
  · refine Or.inl ⟨p', c, hrun, ?_, ?_⟩
    · rw [Diagnostics.isEmpty_eq_false_iff]
      refine ⟨hty, fun hne => Classical.not_not.mp ?_⟩
      exact (checkProgram_tame p).not_good hrun (Nat.pos_of_ne_zero hne)
    · have hflagged : (Checker.initial.note .started).diagnostics.Flagged :=
        Checker.Reachable.initial.flagged
      exact hflagged.adds ((checkProgram_tame p).changes _ _ _ hrun)
  · exact Or.inr hdeep

/-- **A missing type and a diagnostic mean the same.** In every state that a checker can be brought to, an
expression without a type leaves diagnostics, and one that was reported has no type. Declarations are not
right if something in them was reported. And of a program without a type, of the flag, of the diagnostics
and of the success in the report each says as much as any other. -/
theorem untyped_iff_reported :
    (∀ c : Checker, c.Reachable → ∀ (ctx : Context) (e : Exp),
      ctx.frame.index < c.frames.frames.size →
      (∃ e' c', (checkExp ctx e).run c = .ok (e', c') ∧
        (c.diagnostics.size < c'.diagnostics.size → e'.ty = none) ∧
        (e'.ty = none → c'.diagnostics.isEmpty = false) ∧ c'.diagnostics.Flagged) ∨
      (maxLevel < ctx.level + e.nesting ∧ (checkExp ctx e).run c = .error .levelOverflow)) ∧
    (∀ (c c' : Checker) (ctx : Context) (plans : List Plan) (ds ds' : List Dec) (fit : Bool),
      (checkDecs ctx plans ds).run c = .ok ((ds', fit), c') →
      c.diagnostics.size < c'.diagnostics.size → fit = false) ∧
    ∀ p : Program,
      (∃ p' a, analyze p = .ok (p', a) ∧ (a.result = none ↔ a.hasError = true) ∧
        (a.hasError = true ↔ a.diagnostics.isEmpty = false) ∧
        ∀ sourceFile elapsedMs,
          (a.hasError = true ↔ (Report.ofAnalysis a sourceFile elapsedMs).success = false)) ∨
      (maxLevel < p.body.nesting ∧ analyze p = .error .levelOverflow) := by
  refine ⟨fun c hc ctx e hf => hc.checkExp ctx hf e,
    fun c c' ctx plans ds ds' fit hrun hlt => ?_, fun p => ?_⟩
  · have htame : Tame _ (checkDecs ctx plans ds) (·.2 = true) :=
      checkDecs_tame (fun d _ => decTame d) plans
    exact Bool.not_eq_true _ ▸ htame.not_good hrun hlt
  · rcases analyze_of_yieldsOr (yieldsOr_untyped_iff p) with
      ⟨p', a, c, ha, ⟨hty, hflag⟩, hresult, -, -, hdiag, -⟩ | hdeep
    · have herror : a.hasError = true ↔ a.diagnostics.isEmpty = false := by
        rw [Analysis.hasError, hdiag]
        exact hflag
      refine Or.inl ⟨p', a, ha, ?_, herror, fun sourceFile elapsedMs => ?_⟩
      · rw [hresult, hty, herror, hdiag]
      · simp [Report.ofAnalysis]
    · exact Or.inr hdeep

/-- A name that nothing binds, at the beginning: it has no type, and there is a diagnostic. -/
theorem untyped_iff_reported_unbound :
    Checker.initial.Reachable ∧ Checker.initial.mainFrame.index < Checker.initial.frames.frames.size ∧
      ∃ e' c', (checkExp ⟨0, Checker.initial.mainFrame, 0⟩ (.var {} (.simple {} "x" none))).run .initial =
        .ok (e', c') ∧ e'.ty = none ∧ c'.diagnostics.isEmpty = false := by
  have hmain := Checker.initial_idle.main
  refine ⟨.initial, hmain, ?_⟩
  have hrun : (checkExp ⟨0, Checker.initial.mainFrame, 0⟩ (.var {} (.simple {} "x" none))).run .initial =
      .ok (.var {} (.simple {} "x" none),
        Checker.initial.reported (.undefinedVariable "x") .unknown) := by
    rw [checkExp, checkVar]
    rfl
  rcases untyped_iff_reported.1 _ .initial ⟨0, Checker.initial.mainFrame, 0⟩
    (.var {} (.simple {} "x" none)) hmain with ⟨e', c', hrun', -, hreported, -⟩ | ⟨-, hrun'⟩
  · have hnone : e'.ty = none := by
      rw [hrun] at hrun'
      cases hrun'
      rfl
    exact ⟨e', c', hrun', hnone, hreported hnone⟩
  · rw [hrun] at hrun'
    cases hrun'

end TigerCheck
