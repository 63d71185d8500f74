import TigerCheck.Proofs.Scope.Functions
import TigerCheck.Proofs.Scope.Types
import TigerCheck.Proofs.Scope.Variables

/-!
# The sites of declarations and let blocks

The declarations of a block are surveyed run by run. With that every form of node is covered.

* `sitesDecs_append`, `sitesDecs_opens`: the sites of one run after another.
* **`surveyed_checkDecs`**: the declarations of a block.
* **`ExpSurveyed.letIn`**, **`expSurveyed`**: let blocks, and every expression.
-/

namespace TigerCheck

open Check

/-! ## One run after another -/

section

variable {o : OpenRun} {k : Dec.Kind} {d : Dec} {ds es : List Dec} {t : FrameTable} {pl : Place} {n : ℕ}

theorem sitesDecs_append (h : ∀ e ∈ ds, e.kind = k) : sitesDecs t pl n (some k) (ds ++ es) =
    sitesDecs t pl n (some k) ds ++
      sitesDecs t (pl.behind n (some k) ds) (n + typeDecsDecs ds) (some k) es := by
  induction ds generalizing pl n with
  | nil => rfl
  | cons d ds ih =>
    obtain ⟨hd, hds⟩ := List.forall_mem_cons.mp h
    rw [List.cons_append, sitesDecs_of_kind hd, sitesDecs_of_kind hd, behind_of_kind hd, ih hds,
      List.append_assoc, typeDecsDecs, Nat.add_assoc]

theorem behind_append (h : ∀ e ∈ ds, e.kind = k) : pl.behind n (some k) (ds ++ es) =
    (pl.behind n (some k) ds).behind (n + typeDecsDecs ds) (some k) es := by
  induction ds generalizing pl n with
  | nil => rfl
  | cons d ds ih =>
    obtain ⟨hd, hds⟩ := List.forall_mem_cons.mp h
    rw [List.cons_append, behind_of_kind hd, behind_of_kind hd, ih hds, typeDecsDecs, Nat.add_assoc]

/-- **The sites of a run and of what follows it.** -/
theorem sitesDecs_opens {previous : Option Dec.Kind} (h : ∀ e ∈ d :: ds, e.kind = k)
    (hes : OpenRun.Ends ⟨some k, []⟩ es) (hprev : previous ≠ some k) :
    sitesDecs t pl n previous (d :: ds ++ es) =
      headSites (pl.bindRun n (d :: ds)) (d :: ds) ++
        sitesDecs t (pl.bindRun n (d :: ds)) n (some k) (d :: ds ++ es) := by
  have hd := h d List.mem_cons_self
  rw [List.cons_append, sitesDecs_of_kind hd, sitesDecs, Dec.newRun, if_neg (hd ▸ hprev),
    ← List.cons_append, leadingRun_append h hes, hd, List.append_assoc]

theorem behind_opens {previous : Option Dec.Kind} (h : ∀ e ∈ d :: ds, e.kind = k)
    (hes : OpenRun.Ends ⟨some k, []⟩ es) (hprev : previous ≠ some k) :
    pl.behind n previous (d :: ds ++ es) =
      (pl.bindRun n (d :: ds)).behind n (some k) (d :: ds ++ es) := by
  have hd := h d List.mem_cons_self
  rw [List.cons_append, behind_of_kind hd, Place.behind, Dec.newRun, if_neg (hd ▸ hprev),
    ← List.cons_append, leadingRun_append h hes, hd]

end

/-! ## Blocks -/

section

variable {ctx : Context} {pl : Place} {n : ℕ} {c c' : Checker}

/-- **A run is surveyed**, of whatever kind it is. -/
theorem surveyed_run {d : Dec} {run : List Dec} {c₁ : Checker} {plans : List Plan} {r : List Dec × Bool}
    (hk : ∀ e ∈ d :: run, e.kind = d.kind) (hst : ctx.Stands pl n c)
    (hparts : ∀ e ∈ d :: run, e.Parts ExpSurveyed) (hfresh : blankDecs (d :: run) = d :: run)
    (hopen : (openRun ctx (d :: run)).run c = .ok (plans, c₁))
    (hrun : (checkPlanned ctx plans (d :: run)).run c₁ = .ok (r, c')) :
    RunSurveyed ctx pl n c d.kind (d :: run) r.1 c' := by
  cases hkind : d.kind with
  | type =>
    rw [hkind] at hk
    obtain ⟨t, ts, hts⟩ := exists_map_type_of_kind hk
    rw [hts] at hopen hrun ⊢
    exact surveyed_typeRun hst hopen hrun
  | function => exact surveyed_functionRun (hkind ▸ hk) hst hparts hfresh hopen hrun
  | var => exact surveyed_variableRun (hkind ▸ hk) hst hparts hfresh hopen hrun

/-- **The declarations of a block are surveyed run by run.** -/
theorem surveyed_checkDecs : ∀ ds : List Dec, (∀ d ∈ ds, d.Parts ExpSurveyed) →
    ∀ {o : OpenRun} {pl : Place} {n : ℕ} {c c' : Checker} {r : List Dec × Bool}, o.Ends ds →
    ctx.Stands pl n c → blankDecs ds = ds → (checkDecs ctx [] ds).run c = .ok (r, c') →
    Surveys ctx.frame c (fun t => sitesDecs t pl n o.kind (liveDecs o r.1)) (ownSlotsDecs (liveDecs o r.1))
        (typeDecsDecs (liveDecs o r.1)) c' ∧
      ctx.Stands (pl.behind n o.kind (liveDecs o r.1)) (n + typeDecsDecs (liveDecs o r.1)) c'
  | [], _, o, pl, n, c, c', r, _, hst, _, hrun => by
    rw [checkDecs] at hrun
    cases hrun
    exact ⟨(Surveyed.refl hst).surveys, (Surveyed.refl hst).stands⟩
  | d :: ds, h, o, pl, n, c, c', r, ho, hst, hfresh, hrun => by
    have hsplit : d :: ds = Dec.leadingRun (d :: ds) ++ ds.dropWhile (Dec.sameKind d) := by
      simp [Dec.leadingRun]
    have hk : ∀ e ∈ Dec.leadingRun (d :: ds), e.kind = d.kind := fun e he => kind_of_mem_leadingRun he
    obtain ⟨plans, c₁, r₁, c₂, r₂, hopen, hplanned, hrest, rfl⟩ := exists_of_run_checkDecs hrun
    have hfresh' : blankDecs (Dec.leadingRun (d :: ds)) ++ blankDecs (ds.dropWhile (Dec.sameKind d)) =
        Dec.leadingRun (d :: ds) ++ ds.dropWhile (Dec.sameKind d) := by
      rw [← blankDecs_append, ← hsplit, hfresh]
    obtain ⟨hfreshRun, hfreshRest⟩ := List.append_inj hfresh' (by simp [blankDecs_eq_map])
    obtain ⟨hsurvey, hst₂, hkept⟩ := surveyed_run hk hst
      (fun e he => h e (hsplit ▸ List.mem_append_left _ he)) hfreshRun hopen hplanned
    -- the run is not empty, and the declarations that follow it are of another kind
    have hkinds := kind_of_mem_blankDecs hkept.1 hk
    obtain ⟨d', ds', hr₁, hd'⟩ := OpenRun.Keeps.exists_cons ⟨hkept.1, hkept.2⟩
    have hkind : (o.after r₁.1).kind = some d.kind := by
      rw [hr₁] at hkinds ⊢
      exact OpenRun.kind_after hkinds
    have hends := OpenRun.ends_dropWhile hkind ds
    have hkept' := kept_checkDecs _ (fun d _ => keptCases.all.2.2 d) hends hst₂.sound hst₂.sits hrest
    obtain ⟨hsurvey', hst'⟩ := surveyed_checkDecs (ds.dropWhile (Dec.sameKind d))
      (fun e he => h e (List.mem_cons_of_mem _ (List.dropWhile_subset _ he))) hends hst₂ hfreshRest hrest
    rw [hkind] at hsurvey' hst'
    have hlive : liveDecs o (r₁.1 ++ r₂.1) =
        liveDecs ⟨some d.kind, []⟩ r₁.1 ++ liveDecs (o.after r₁.1) r₂.1 := by
      rw [liveDecs_append]
      refine congrArg (· ++ _) ?_
      rw [hr₁, ← hd']
      exact liveDecs_opens (hd' ▸ ho d rfl)
    have hliveRun := kind_of_mem_liveDecs hkinds ⟨some d.kind, []⟩
    have hliveEnds : OpenRun.Ends ⟨some d.kind, []⟩ (liveDecs (o.after r₁.1) r₂.1) :=
      fun e he => hkind ▸ (hends.of_blank hkept'.blank).live e he
    obtain ⟨e, es, hes⟩ : ∃ e es, liveDecs ⟨some d.kind, []⟩ r₁.1 = e :: es := by
      rw [hr₁, liveDecs_of_not_mem hd' List.not_mem_nil]
      exact ⟨_, _, rfl⟩
    have hprev := ho d rfl
    rw [hes] at hlive hliveRun hsurvey hst₂ hsurvey' hst'
    rw [hlive]
    refine ⟨(hsurvey.seq hsurvey' hst.sits.frame_lt).congr_grows (fun t _ => ?_) (ownSlotsDecs_append ..)
      (typeDecsDecs_append ..), ?_⟩
    · rw [sitesDecs_opens hliveRun hliveEnds hprev, sitesDecs_append hliveRun, List.append_assoc]
    · rw [behind_opens hliveRun hliveEnds hprev, behind_append hliveRun, typeDecsDecs_append, ← Nat.add_assoc]
      exact hst'
termination_by ds => ds.length
decreasing_by
  exact Nat.lt_succ_of_le (List.length_dropWhile_le _ ds)

/-- **Behind a block the scopes are those before it.** -/
theorem ExpSurveyed.letIn {m : Mark} {decs : List Dec} {body : Exp}
    (hd : ∀ d ∈ decs, d.Parts ExpSurveyed) (hb : ExpSurveyed body) : ExpSurveyed (.letIn m decs body) := by
  refine .of_kept fun ctx pl n c c' e' hst hf h => ?_
  have hw := (walked_exp hst.sound hst.sits h).1
  obtain ⟨r, c₁, body', c₂, h₁, h₂, -, -, rfl, rfl⟩ := exists_of_run_letIn hst.sound hst.sits h
  simp only [Exp.blank, Exp.letIn.injEq] at hf
  have hentered : ctx.Stands pl n c.entered :=
    ⟨hst.sound.entered, hst.sits.entered, fun name id hid =>
      (hst.calls name id hid).grows (Checker.extends_entered c).frames, hst.stood, hst.count⟩
  obtain ⟨hdecs, hst₁⟩ := surveyed_checkDecs decs hd (o := {}) (fun _ _ => nofun) hentered hf.2.1 h₁
  have hbody := (hb hst₁ hf.2.2 h₂).1
  have hopened : Surveys ctx.frame c (fun _ => []) [] 0 c.entered :=
    surveys_rescope (Checker.extends_entered c) rfl rfl rfl
  have hclosed : Surveys ctx.frame c₂ (fun _ => []) [] 0 (c₂.leftTo c) :=
    surveys_rescope ⟨fun _ _ h => h, fun _ _ h => h, .refl _, Nat.le_refl _, rfl⟩ rfl rfl rfl
  have hall := hopened.seq (hdecs.seq (hbody.surveys.seq hclosed hst₁.sits.frame_lt)
    hentered.sits.frame_lt) hst.sits.frame_lt
  refine ⟨hall.congr_grows (fun t _ => ?_) ?_ ?_, ?_⟩
  · simp [Exp.live, Exp.sites]
  · simp [Exp.live, Exp.ownSlots]
  · simp [Exp.live, Exp.typeDecs]
  · refine hst.walked hw ?_
    rw [hall.tallies.types, hst.count]
    simp [Exp.live, Exp.typeDecs]

/-- There is a case for every form of node. -/
theorem surveyedCases : Tree.Cases ExpSurveyed VarSurveyed (Dec.Parts ExpSurveyed) where
  var _ _ h := .var h
  nil _ := .nil
  int _ _ := .int
  string _ _ := .string
  call _ _ _ _ h := .call h
  binary _ _ _ _ hl hr := .binary hl hr
  record _ _ _ h := .record h
  seq _ _ h := .seq h
  assign _ _ _ ht hv := .assign ht hv
  condNone _ _ _ ht hp := .condNone ht hp
  condSome _ _ _ _ ht hp he := .condSome ht hp he
  whileLoop _ _ _ ht hb := .whileLoop ht hb
  doWhile _ _ _ hb ht := .doWhile hb ht
  forLoop _ _ _ _ _ _ hl hh hb := .forLoop hl hh hb
  breakLoop _ := .breakLoop
  letIn _ _ _ hd hb := .letIn hd hb
  array _ _ _ _ hz hi := .array hz hi
  simple _ _ _ := .simple
  field _ _ _ _ hb := .field hb
  element _ _ _ hb hi := .element hb hi
  type _ := trivial
  function _ _ _ _ hb := hb
  varDec _ _ _ _ _ hi := hi

/-- **The check of every expression is surveyed.** -/
theorem expSurveyed (e : Exp) : ExpSurveyed e := surveyedCases.all.1 e

end

end TigerCheck
