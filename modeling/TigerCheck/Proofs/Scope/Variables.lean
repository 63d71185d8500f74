import TigerCheck.Proofs.Scope.Exp
import TigerCheck.Proofs.Walk.Variables

/-!
# The sites of variables

The variables of a run are checked and bound one after another, so each is in scope behind its own
initializer and annotation. Its slot comes behind those of the initializer.

* `surveyed_declared`: the type of a variable.
* **`surveyed_variable`**: one variable.
* **`surveyed_variableRun`**: a run of variables.
-/

namespace TigerCheck

open Check

variable {ctx : Context} {pl : Place} {n first : ℕ} {c c' : Checker} {seen : List String} {ds : List Dec}

/-- The annotation of a variable is looked up behind the initializer. -/
theorem surveyed_declared {typeName : Option Ident} {init : Mark} {literal : Bool}
    {r : Option Ty × Bool} (hst : ctx.Stands pl n c)
    (h : (Rule.declared typeName init literal).run c = .ok (r, c')) :
    Surveyed ctx pl n c (fun _ => typeName.toList.map (.typeName pl)) [] 0 c' := by
  cases typeName with
  | none => exact (passive_inferred init).surveyed h hst
  | some name =>
    rw [Rule.declared, Rule.annotated_eq] at h
    obtain ⟨ty, c₁, h₁, h⟩ := exists_of_run_bind h
    have hname := surveyed_typeOf h₁ hst
    exact hname.andThen ((passive_against ty init).surveyed h hname.stands) hst

/-- **A variable is in scope behind its declaration.** -/
theorem surveyed_variable {name : Ident} {typeName : Option Ident} {init : Exp} {loc : Location}
    {slot : Option VarId} {r : Dec × Bool} (hi : ExpSurveyed init) (hst : ctx.Stands pl n c)
    (hb : c.BoundFrom first seen) (hmem : name.name ∉ seen) (hfresh : init.blank = init)
    (hrun : (checkDec ctx (.variable first) (.var name typeName init loc slot)).run c = .ok (r, c')) :
    ∃ init' v, r.1 = .var name typeName init' loc (some v) ∧
      Surveys ctx.frame c (fun t => init'.live.sites t pl n ++ typeName.toList.map (.typeName pl) ++
        [.slot pl (some v)]) (init'.live.ownSlots ++ [some v]) init'.live.typeDecs c' ∧
      ctx.Stands (pl.bindValue name.name (some v)) (n + init'.live.typeDecs) c' ∧
      c'.BoundFrom first (name.name :: seen) := by
  have hdecl := declared_variable hst.sound hst.sits hrun
  obtain ⟨init', c₁, d, c₂, v, frames, h₁, h₂, halloc, rfl, rfl⟩ := exists_of_run_newVariable hb hmem hrun
  have hinit := (hi hst hfresh h₁).1
  obtain ⟨hw₁, hhas⟩ := walked_exp hst.sound hst.sits h₁
  obtain ⟨hw₂, hty⟩ := walked_declared hw₁.sound hhas h₂
  have hall := hinit.seq (surveyed_declared hinit.stands h₂) hst
  obtain ⟨_, hframes, hallocs, hw₃⟩ := (hw₂.sound.alloc (Array.getElem?_eq_getElem
    hall.stands.sits.frame_lt) name.name hty .letBound).of_run (run_alloc halloc)
  cases hframes
  have hg : c₂.Extends { c₂ with frames, values := c₂.values.bind name.name v } :=
    ⟨hw₃.grown.status, hw₃.grown.shape, hw₃.grown.frames, hw₃.grown.diagnostics_le, hw₃.grown.mainFrame_eq⟩
  have hslot : Surveys ctx.frame c₂ (fun _ => [.slot pl (some v)]) [some v] 0
      { c₂ with frames, values := c₂.values.bind name.name v } := surveys_slot pl halloc hg rfl rfl rfl
  refine ⟨init', v, rfl, (hall.surveys.seq hslot hst.sits.frame_lt).congr_grows (fun _ _ => rfl)
    (by simp) rfl, ⟨hdecl.sound, hdecl.sits, fun f id hid => ?_, ?_, hall.stands.count⟩,
    ((hb.walked hw₁).walked hw₂).bindSlot hallocs name.name⟩
  · exact (hall.stands.calls f id hid).grows hg.frames
  · rw [← hall.stands.stood]
    exact ctx.place_bindValue c₂ frames c₂.values name.name v rfl

/-- What checking the variables of a run leaves behind. -/
structure VariablesSurveyed (ctx : Context) (pl : Place) (n : ℕ) (c : Checker) (seen : List String)
    (ds ds' live : List Dec) (c' : Checker) : Prop where
  surveys : Surveys ctx.frame c (fun t => sitesDecs t pl n (some .var) live) (ownSlotsDecs live)
    (typeDecsDecs live) c'
  stands : ctx.Stands (pl.behind n (some .var) live) (n + typeDecsDecs live) c'
  blank : blankDecs ds' = blankDecs ds
  dropped : droppedDecs ⟨some .var, seen⟩ ds' = droppedDecs ⟨some .var, seen⟩ ds

/-- **The variables of a run are surveyed one after another.** -/
theorem variables_surveyed (hk : ∀ d ∈ ds, d.kind = .var) (hparts : ∀ d ∈ ds, d.Parts ExpSurveyed) :
    ∀ {seen : List String} {pl : Place} {n : ℕ} {c c' : Checker} {r : List Dec × Bool},
    ctx.Stands pl n c → c.BoundFrom first seen → blankDecs ds = ds →
    (checkPlanned ctx (ds.map fun _ => .variable first) ds).run c = .ok (r, c') →
    VariablesSurveyed ctx pl n c seen ds r.1 (liveDecs ⟨some .var, seen⟩ r.1) c' := by
  induction ds with
  | nil =>
    intro seen pl n c c' r hst _ _ hrun
    cases hrun
    have hnone := Surveyed.refl hst
    exact ⟨hnone.surveys, hnone.stands, rfl, rfl⟩
  | cons d ds ih =>
    intro seen pl n c c' r hst hb hfresh hrun
    obtain ⟨hd, hkinds⟩ := List.forall_mem_cons.mp hk
    obtain ⟨hpart, hrest⟩ := List.forall_mem_cons.mp hparts
    have hkept := kept_variables hk (fun d _ => keptCases.all.2.2 d) hst.sound hst.sits hb hrun
    obtain ⟨r₁, c₁, r', h₁, h₂, rfl⟩ := exists_of_run_checkPlanned hrun
    cases d with
    | type => cases hd
    | function => cases hd
    | var name typeName init loc slot =>
      simp only [blankDecs, List.cons.injEq, Dec.blank, Dec.var.injEq, true_and] at hfresh
      by_cases hmem : name.name ∈ seen
      · obtain ⟨rfl, rfl⟩ := eq_of_run_again hb hmem h₁
        have hw := Checker.walked_reported hst.sound (.duplicateDefinition name.name) name.loc
        have hvars := ih hkinds hrest (hst.reported _ _) (hb.walked hw) hfresh.2 h₂
        have hagain : Surveys ctx.frame c (fun _ => []) [] 0 (c.reported (.duplicateDefinition name.name) name.loc) :=
          .of_tallies (tallies_again c name) rfl fun _ _ => List.forall_mem_nil _
        rw [liveDecs_of_mem (k := .var) (d := .var name typeName init loc slot) rfl hmem]
        exact ⟨(hagain.seq hvars.surveys hst.sits.frame_lt).congr_grows (fun _ _ => rfl) rfl
          (Nat.zero_add _).symm, hvars.stands, hkept.blank, hkept.dropped⟩
      · obtain ⟨init', v, hr₁, hsurvey, hst₁, hb₁⟩ := surveyed_variable hpart hst hb hmem hfresh.1.1 h₁
        have hvars := ih hkinds hrest hst₁ hb₁ hfresh.2 h₂
        rw [hr₁, liveDecs_of_not_mem (k := .var) (d := .var name typeName init' loc (some v)) rfl hmem]
        refine ⟨(hsurvey.seq hvars.surveys hst.sits.frame_lt).congr_grows (fun t _ => ?_) rfl rfl, ?_,
          hr₁ ▸ hkept.blank, hr₁ ▸ hkept.dropped⟩
        · exact sitesDecs_of_kind (k := .var) (d := .var name typeName init'.live loc (some v)) rfl
        · rw [typeDecsDecs, ← Nat.add_assoc]
          exact (behind_of_kind (k := .var) (d := .var name typeName init'.live loc (some v)) rfl) ▸ hvars.stands

/-! ## A run of variables -/

theorem headSites_of_var (h : ∀ d ∈ ds, d.kind = .var) (pl : Place) : headSites pl ds = [] := by
  induction ds with
  | nil => rfl
  | cons d ds ih =>
    obtain ⟨hd, hds⟩ := List.forall_mem_cons.mp h
    cases d with
    | type => cases hd
    | function => cases hd
    | var => exact ih hds

theorem bindRun_of_var (h : ∀ d ∈ ds, d.kind = .var) (pl : Place) (n : ℕ) : pl.bindRun n ds = pl := by
  induction ds with
  | nil => rfl
  | cons d ds ih =>
    obtain ⟨hd, hds⟩ := List.forall_mem_cons.mp h
    cases d with
    | type => cases hd
    | function => cases hd
    | var => exact ih hds

/-- **A run of variables is surveyed.** -/
theorem surveyed_variableRun {d : Dec} {c₁ : Checker} {plans : List Plan} {r : List Dec × Bool}
    (hk : ∀ e ∈ d :: ds, e.kind = .var) (hst : ctx.Stands pl n c)
    (hparts : ∀ e ∈ d :: ds, e.Parts ExpSurveyed) (hfresh : blankDecs (d :: ds) = d :: ds)
    (hopen : (openRun ctx (d :: ds)).run c = .ok (plans, c₁))
    (hrun : (checkPlanned ctx plans (d :: ds)).run c₁ = .ok (r, c')) :
    RunSurveyed ctx pl n c .var (d :: ds) r.1 c' := by
  obtain ⟨rfl, rfl⟩ := eq_of_run_openRun (hk d List.mem_cons_self) hopen
  have hst₀ := hst.note (.run d.kind (ds.length + 1))
  have hvars := variables_surveyed hk hparts hst₀ (.opened hst₀.sits) hfresh hrun
  have hkinds := kind_of_mem_liveDecs (kind_of_mem_blankDecs hvars.blank hk) ⟨some .var, []⟩
  have hnote : Surveys ctx.frame c (fun _ => []) [] 0 (c.note (.run d.kind (ds.length + 1))) :=
    .of_tallies (tallies_note c _) rfl fun _ _ => List.forall_mem_nil _
  rw [RunSurveyed]
  simp only [headSites_of_var hkinds, bindRun_of_var hkinds]
  exact ⟨(hnote.seq hvars.surveys hst.sits.frame_lt).congr_grows (fun _ _ => rfl) rfl (Nat.zero_add _).symm,
    hvars.stands, hvars.blank, hvars.dropped⟩

end TigerCheck
