import TigerCheck.Proofs.Walk.Mimics

/-!
# Repeated names

A run of types or functions keeps a list of the names it has met; a run of variables looks whether the innermost
scope binds the name to a slot that was made since the run was opened. Both come to the same: a declaration is
dropped exactly if its name occurs before it in its run, whatever was bound by other runs, around the block, in
other namespaces or inside initializers. A dropped declaration is reported once, binds nothing, and is not looked
at any further.

* `Checker.Reachable.slotted`: between two requests the variables of the innermost scope have slots.
* `mimics_checkFromStart`, `analyze_trim`: the analysis of a trimmed program.
* **`checkDecs_repeats`**: the law for blocks, expressions and programs.
-/

namespace TigerCheck

open Check

/-! ## States of a checker -/

/-- Between two requests no variable is bound. -/
theorem Checker.Reachable.slotted {c : Checker} (h : c.Reachable) : c.Slotted := by
  intro name v hl
  have hnone := h.idle.values name
  rw [Scopes.lookup_of_lookupLocal hl] at hnone
  cases hnone

/-! ## Programs -/

/-- The check of a program goes as that of the trimmed one. -/
theorem mimics_checkFromStart (p : Program) :
    Mimics .initial Program.trim p.body.dropped (checkFromStart p) (checkFromStart p.trim) := by
  have hget : NoRepeat (get : Check Checker) := .of_eq fun c a c' hrun => by
    cases hrun
    rfl
  rw [checkFromStart, checkFromStart, checkProgram, checkProgram, Program.trim]
  refine .same (.of_tame tame_log) fun _ c₁ _ => .same hget fun c₂ c₃ _ => ?_
  refine (mimics_exp p.body _ c₃).tail fun body c₄ _ => ?_
  exact .same (.of_tame tame_finalize) fun _ c₅ _ => .pure rfl

/-- **The analysis of a trimmed program is that of the program.** -/
theorem analyze_trim (p : Program) : analyze p.trim = (analyze p).map (Prod.map Program.trim id) := by
  rw [analyze, analyze, (mimics_checkFromStart p).run_eq]
  cases (checkFromStart p).run .initial with
  | error e => rfl
  | ok r =>
    obtain ⟨p', c⟩ := r
    change Except.ok _ = Except.ok _
    rw [Prod.map, Program.trim, Exp.ty_trim]
    rfl

/-- **A declaration that repeats a name is reported once, binds nothing, and is not looked at.** In every state of
a checker, and in every new block, the variables of the innermost scope have slots. From such a state on, the
declarations of a block are reported as repeated exactly if their names occur before them in their runs, each at
its own name and once; with them those are reported that repeat names in blocks further inside, but not inside
dropped declarations. The others bind their names, each in its own namespace and once. A declaration whose name
occurs in the unbroken stretch of its kind in front of it may be exchanged for any other one of its kind and
name: the check of the block goes to the same state, and its answer is the same, but for what is in dropped
declarations. For expressions this holds in all states whatever. And the analysis of a program, which ends unless
functions are nested deeper than levels count, depends on nothing in dropped declarations but their names. -/
theorem checkDecs_repeats :
    (∀ (c c' : Checker) (ctx : Context) (ds : List Dec) (r : List Dec × Bool), c.Slotted →
      (checkDecs ctx [] ds).run c = .ok (r, c') →
      c'.Slotted ∧
      c'.diagnostics.repeats.Perm (c.diagnostics.repeats ++ (droppedDecs {} ds).map Dec.again) ∧
      ∀ k, c'.boundNames k = (namesOf k (liveDecs {} ds)).reverse ++ c.boundNames k) ∧
    (∀ (c : Checker) (ctx : Context) (before after : List Dec) (d d' : Dec), c.Slotted →
      (∃ e ∈ before.reverse.takeWhile (·.kind = d.kind), e.name.name = d.name.name) →
      d'.kind = d.kind → d'.name = d.name →
      ((checkDecs ctx [] (before ++ d' :: after)).run c).map (Prod.map (Prod.map (trimDecs {}) id) id) =
        ((checkDecs ctx [] (before ++ d :: after)).run c).map (Prod.map (Prod.map (trimDecs {}) id) id)) ∧
    (∀ (ctx : Context) (c : Checker), c.entered.Slotted ∧ (c.Reachable → c.Slotted) ∧
      (Arrives ctx c → c.Slotted ∧ ∀ ds, ctx.level + decNestings ds ≤ maxLevel →
        ∃ r c', (checkDecs ctx [] ds).run c = .ok (r, c'))) ∧
    (∀ (c c' : Checker) (ctx : Context) (e e' : Exp), (checkExp ctx e).run c = .ok (e', c') →
      c'.diagnostics.repeats.Perm (c.diagnostics.repeats ++ e.dropped.map Dec.again)) ∧
    (∀ (c : Checker) (ctx : Context) (e e' : Exp), e.trim = e'.trim →
      ((checkExp ctx e).run c).map (Prod.map Exp.trim id) = ((checkExp ctx e').run c).map (Prod.map Exp.trim id)) ∧
    (∀ p : Program,
      (∃ p' a, analyze p = .ok (p', a) ∧ a.diagnostics.repeats.Perm (p.body.dropped.map Dec.again)) ∨
      (maxLevel < p.body.nesting ∧ analyze p = .error .levelOverflow)) ∧
    ∀ p q : Program, p.trim = q.trim →
      (analyze p).map (Prod.map Program.trim id) = (analyze q).map (Prod.map Program.trim id) := by
  have hblock (ctx : Context) (c : Checker) (ds : List Dec) (hc : c.Slotted) :
      Mimics c (Prod.map (trimDecs {}) id) (droppedDecs {} ds) (checkDecs ctx [] ds)
        (checkDecs ctx [] (trimDecs {} ds)) :=
    mimics_checkDecs ds (fun d _ => mimics.all.2.2 d) (fun _ _ => nofun) hc
  refine ⟨fun c c' ctx ds r hc hrun => ?_, fun c ctx before after d d' hc hrep hk hn => ?_, fun ctx c => ?_,
    fun c c' ctx e e' hrun => (mimics_exp e ctx c).repeats e' c' hrun, fun c ctx e e' htrim => ?_,
    fun p => ?_, fun p q htrim => ?_⟩
  · have hdecl := declares_checkDecs ds (o := {}) (fun _ _ => nofun) hc hrun
    exact ⟨hdecl.slotted hc, (hblock ctx c ds hc).repeats r c' hrun, hdecl.bound⟩
  · have htrim : trimDecs {} (before ++ d' :: after) = trimDecs {} (before ++ d :: after) :=
      trimDecs_replace (OpenRun.mem_before_after.mpr hrep) hk hn
    rw [← (hblock ctx c _ hc).run_eq, ← (hblock ctx c _ hc).run_eq, htrim]
  · refine ⟨c.entered_slotted, fun h => h.slotted, fun h => ⟨h.slotted, fun ds hlevel => ?_⟩⟩
    obtain ⟨d, hd, hs, heq⟩ := h.founded
    have hwalk := yieldsOr_declarations ds (fun e _ => walks.all.2.2 e) d hd hs
    rcases (checkDecs_tame (fun e _ => decTame e) []).yieldsOr heq hwalk with ⟨r, c', hrun, -⟩ | ⟨hdeep, -⟩
    · exact ⟨r, c', hrun⟩
    · exact absurd hdeep (Nat.not_lt_of_le hlevel)
  · rw [← (mimics_exp e ctx c).run_eq, ← (mimics_exp e' ctx c).run_eq, htrim]
  · rcases analyze_ends p with ⟨p', a, c, ha, hrun, -, -, -, hdiag, -⟩ | h
    · refine .inl ⟨p', a, ha, ?_⟩
      rw [hdiag]
      exact (mimics_checkFromStart p).repeats p' c hrun
    · exact .inr h
  · rw [← analyze_trim, ← analyze_trim, htrim]

/-- In each kind of run a name is declared twice; inside an initializer it is declared again. -/
def declaredTwice (init : Exp) : List Dec :=
  [.type ⟨⟨"a", ⟨1, 6⟩⟩, .synonym ⟨"missing", .unknown⟩, .unknown⟩,
    .type ⟨⟨"a", ⟨2, 6⟩⟩, .record [], .unknown⟩,
    .function ⟨⟨"a", ⟨3, 10⟩⟩, [], none⟩ (.seq {} []) .unknown none,
    .function ⟨⟨"a", ⟨4, 10⟩⟩, [], none⟩ init .unknown none,
    .var ⟨"a", ⟨5, 5⟩⟩ none
      (.letIn {} [.var ⟨"a", ⟨5, 14⟩⟩ none (.int {} 1) .unknown none] (.int {} 2)) .unknown none,
    .var ⟨"a", ⟨6, 5⟩⟩ none init .unknown none]

/-- Each name is reported once, at the later declaration, and the last initializer is never looked at. -/
theorem declaredTwice_repeats :
    ∃ r c', (checkDecs ⟨0, Checker.initial.mainFrame, 0⟩ [] (declaredTwice (.breakLoop {}))).run
        (Checker.initial.note .started) = .ok (r, c') ∧
      c'.diagnostics.repeats.Perm [⟨⟨2, 6⟩, .duplicateDefinition "a"⟩, ⟨⟨4, 10⟩, .duplicateDefinition "a"⟩,
        ⟨⟨6, 5⟩, .duplicateDefinition "a"⟩] ∧
      c'.boundNames .var = ["a"] ∧
      (analyze ⟨.letIn {} (declaredTwice (.breakLoop {})) (.seq {} [])⟩).map (Prod.map Program.trim id) =
        (analyze ⟨.letIn {} (declaredTwice (.nil {})) (.seq {} [])⟩).map (Prod.map Program.trim id) := by
  obtain ⟨hblock, -, hstates, -, -, -, hprograms⟩ := checkDecs_repeats
  obtain ⟨hslotted, hends⟩ := (hstates ⟨0, Checker.initial.mainFrame, 0⟩ _).2.2 .start
  obtain ⟨r, c', hrun⟩ := hends (declaredTwice (.breakLoop {})) (by decide)
  obtain ⟨-, hreports, hbound⟩ := hblock _ c' _ _ r hslotted hrun
  exact ⟨r, c', hrun, hreports, hbound .var, hprograms _ _ rfl⟩

end TigerCheck
