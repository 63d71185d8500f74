import TigerCheck.Checker.Walk
import TigerCheck.Proofs.Yields

/-!
# Declarations, run by run

A let block opens a run where the plans of the run before it are used up. So its declarations are
checked run by run, and each run is checked as one piece.

* `checkPlanned`, `exists_of_run_checkPlanned`, `exists_of_run_dropped`: declarations that are checked as
  planned.
* `checkRun`: a run, which is opened first.
* `exists_of_run_bindHeaders`: opening a run of types or functions.
* `length_of_openRun`: a run has a plan for each of its declarations.
* **`yieldsOr_checkDecs`**, **`exists_of_run_checkDecs`**: the declarations of a let block are checked run
  by run.
-/

namespace TigerCheck

open Check

/-- Check declarations as planned, one after another. -/
def checkPlanned (ctx : Context) : List Plan → List Dec → Check (List Dec × Bool)
  | plan :: plans, d :: ds => do
    let (d, ok) ← checkDec ctx plan d
    let (ds, oks) ← checkPlanned ctx plans ds
    return (d :: ds, ok && oks)
  | _, _ => return ([], true)

/-- Open a run, and check its declarations as planned. -/
def checkRun (ctx : Context) (run : List Dec) : Check (List Dec × Bool) := do
  let plans ← openRun ctx run
  checkPlanned ctx plans run

/-- The steps of checking a declaration as planned, and those behind it. -/
theorem exists_of_run_checkPlanned {ctx : Context} {plan : Plan} {plans : List Plan} {d : Dec} {ds : List Dec}
    {c c' : Checker} {r : List Dec × Bool}
    (h : (checkPlanned ctx (plan :: plans) (d :: ds)).run c = .ok (r, c')) :
    ∃ r₁ c₁ r₂, (checkDec ctx plan d).run c = .ok (r₁, c₁) ∧
      (checkPlanned ctx plans ds).run c₁ = .ok (r₂, c') ∧ r = (r₁.1 :: r₂.1, r₁.2 && r₂.2) := by
  rw [checkPlanned] at h
  obtain ⟨r₁, c₁, h₁, h⟩ := exists_of_run_bind h
  obtain ⟨r₂, c₂, h₂, h⟩ := exists_of_run_bind h
  cases h
  exact ⟨r₁, c₁, r₂, h₁, h₂, rfl⟩

theorem run_checkRun {ctx : Context} {run : List Dec} {c c₁ c' : Checker} {plans : List Plan}
    {r : List Dec × Bool} (hopen : (openRun ctx run).run c = .ok (plans, c₁))
    (hrun : (checkPlanned ctx plans run).run c₁ = .ok (r, c')) :
    (checkRun ctx run).run c = .ok (r, c') := by
  rw [checkRun, StateT.run_bind, hopen]
  exact hrun

/-- A dropped declaration stays as it is. -/
theorem checkDec_dropped (ctx : Context) (d : Dec) : checkDec ctx .dropped d = pure (d, false) := by
  cases d <;> simp [checkDec]

/-- A dropped declaration makes the run wrong, and nothing else happens. -/
theorem exists_of_run_dropped {ctx : Context} {plans : List Plan} {d : Dec} {ds : List Dec}
    {c c' : Checker} {r : List Dec × Bool}
    (h : (checkPlanned ctx (.dropped :: plans) (d :: ds)).run c = .ok (r, c')) :
    ∃ rs, (checkPlanned ctx plans ds).run c = .ok (rs, c') ∧ r = (d :: rs.1, false) := by
  rw [checkPlanned, checkDec_dropped, pure_bind] at h
  obtain ⟨rs, c₁, h₁, h⟩ := exists_of_run_bind h
  cases h
  exact ⟨rs, h₁, rfl⟩

theorem checkDecs_cons (ctx : Context) (plan : Plan) (plans : List Plan) (d : Dec)
    (ds : List Dec) :
    checkDecs ctx (plan :: plans) (d :: ds) = (do
      let (d, ok) ← checkDec ctx plan d
      let (ds, oks) ← checkDecs ctx plans ds
      return (d :: ds, ok && oks)) := by
  rw [checkDecs]
  simp

/-- Where the plans end, the next run is opened. -/
theorem checkDecs_planned (ctx : Context) :
    ∀ (plans : List Plan) (run ds : List Dec), plans.length = run.length →
      checkDecs ctx plans (run ++ ds) = (do
        let (run, ok) ← checkPlanned ctx plans run
        let (ds, oks) ← checkDecs ctx [] ds
        return (run ++ ds, ok && oks))
  | [], [], ds, _ => by simp [checkPlanned]
  | plan :: plans, d :: run, ds, hlen => by
    rw [List.cons_append, checkDecs_cons,
      checkDecs_planned ctx plans run ds (Nat.succ.inj hlen), checkPlanned]
    simp [Bool.and_assoc]

/-- The declaration of a type or of a function is bound, and planned. -/
inductive BindsHead (ctx : Context) (c : Checker) : Dec → Plan → Checker → Prop where
  | type {dec : TypeDec} {id : NamedTypeId} {c' : Checker} : (declareType dec).run c = .ok (id, c') →
      BindsHead ctx c (.type dec) (.typeBody id) c'
  | function {head : FunctionHead} {body : Exp} {loc : Location} {id : Option FunctionId} {h : Header}
      {c' : Checker} : (declareFunction ctx head).run c = .ok (h, c') →
      BindsHead ctx c (.function head body loc id) (.functionBody h) c'
  | var {name : Ident} {typeName : Option Ident} {init : Exp} {loc : Location} {slot : Option VarId} :
      BindsHead ctx c (.var name typeName init loc slot) .dropped c

/-- **The steps of opening a run**: a declaration whose name was met is reported and dropped, any other one is
bound. -/
theorem exists_of_run_bindHeaders {ctx : Context} {d : Dec} {ds : List Dec} {seen : List String}
    {c c' : Checker} {plans : List Plan} (h : (bindHeaders ctx seen (d :: ds)).run c = .ok (plans, c')) :
    (d.name.name ∈ seen ∧ ∃ plans', plans = .dropped :: plans' ∧ (bindHeaders ctx seen ds).run
      (c.reported (.duplicateDefinition d.name.name) d.name.loc) = .ok (plans', c')) ∨
    (d.name.name ∉ seen ∧ ∃ plan c₁ plans', plans = plan :: plans' ∧ BindsHead ctx c d plan c₁ ∧
      (bindHeaders ctx (d.name.name :: seen) ds).run c₁ = .ok (plans', c')) := by
  rw [bindHeaders] at h
  by_cases hseen : d.name.name ∈ seen
  · rw [if_pos hseen] at h
    obtain ⟨_, c₁, h₁, h⟩ := exists_of_run_bind h
    obtain ⟨plans', c₂, h₂, h⟩ := exists_of_run_bind h
    cases h
    obtain rfl := eq_of_run_report h₁
    exact .inl ⟨hseen, plans', rfl, h₂⟩
  · rw [if_neg hseen] at h
    have hend {plan : Plan} {c₁ : Checker} (hbinds : BindsHead ctx c d plan c₁)
        (hrest : (do return plan :: (← bindHeaders ctx (d.name.name :: seen) ds) : Check (List Plan)).run c₁ =
          .ok (plans, c')) : ∃ plan c₁ plans', plans = plan :: plans' ∧ BindsHead ctx c d plan c₁ ∧
            (bindHeaders ctx (d.name.name :: seen) ds).run c₁ = .ok (plans', c') := by
      obtain ⟨plans', c₂, h₂, hrest⟩ := exists_of_run_bind hrest
      cases hrest
      exact ⟨plan, c₁, plans', rfl, hbinds, h₂⟩
    refine .inr ⟨hseen, ?_⟩
    cases d with
    | type dec =>
      obtain ⟨plan, c₁, hplan, h⟩ := exists_of_run_bind h
      obtain ⟨id, h₁, rfl⟩ := exists_of_run_map hplan
      exact hend (.type h₁) h
    | function head body loc id =>
      obtain ⟨plan, c₁, hplan, h⟩ := exists_of_run_bind h
      obtain ⟨header, h₁, rfl⟩ := exists_of_run_map hplan
      exact hend (.function h₁) h
    | var name typeName init loc slot =>
      obtain ⟨plan, c₁, hplan, h⟩ := exists_of_run_bind h
      cases hplan
      exact hend .var h

/-- A run that was opened has a plan for each of its declarations. -/
theorem length_of_bindHeaders {ctx : Context} {ds : List Dec} : ∀ {seen : List String}
    {c c' : Checker} {plans : List Plan}, (bindHeaders ctx seen ds).run c = .ok (plans, c') →
      plans.length = ds.length := by
  induction ds with
  | nil =>
    intro seen c c' plans h
    cases h
    rfl
  | cons d ds ih =>
    intro seen c c' plans h
    rcases exists_of_run_bindHeaders h with ⟨-, plans', rfl, h₂⟩ | ⟨-, plan, c₁, plans', rfl, -, h₂⟩
    · exact congrArg Nat.succ (ih h₂)
    · exact congrArg Nat.succ (ih h₂)

theorem openRun_cons (ctx : Context) (d : Dec) (ds : List Dec) :
    openRun ctx (d :: ds) = (do
      log (.run d.kind (ds.length + 1))
      if d.kind = .var then
        let first := (← get).frames.varCount
        return (d :: ds).map fun _ => .variable first
      else bindHeaders ctx [] (d :: ds)) := rfl

/-- A run of types or functions is opened by binding their names. -/
theorem run_bindHeaders_of_openRun {ctx : Context} {d : Dec} {ds : List Dec} {c c' : Checker}
    {plans : List Plan} (hk : d.kind ≠ .var) (h : (openRun ctx (d :: ds)).run c = .ok (plans, c')) :
    (bindHeaders ctx [] (d :: ds)).run (c.note (.run d.kind (ds.length + 1))) = .ok (plans, c') := by
  rw [openRun_cons, if_neg hk] at h
  obtain ⟨_, c₁, h₁, h⟩ := exists_of_run_bind h
  cases h₁
  exact h

/-- A run of variables is opened by noting how many variables there are. -/
theorem eq_of_run_openRun {ctx : Context} {d : Dec} {ds : List Dec} {c c' : Checker} {plans : List Plan}
    (hk : d.kind = .var) (h : (openRun ctx (d :: ds)).run c = .ok (plans, c')) :
    plans = (d :: ds).map (fun _ => .variable c.frames.vars.size) ∧
      c' = c.note (.run d.kind (ds.length + 1)) := by
  rw [openRun_cons, if_pos hk] at h
  obtain ⟨_, c₁, h₁, h⟩ := exists_of_run_bind h
  cases h₁
  cases h
  exact ⟨rfl, rfl⟩

theorem length_of_openRun {ctx : Context} {run : List Dec} {c c' : Checker} {plans : List Plan}
    (h : (openRun ctx run).run c = .ok (plans, c')) : plans.length = run.length := by
  cases run with
  | nil =>
    cases h
    rfl
  | cons d ds =>
    rw [openRun_cons] at h
    obtain ⟨_, c₁, -, h⟩ := exists_of_run_bind h
    split at h
    · obtain ⟨c₂, _, -, h⟩ := exists_of_run_bind h
      cases h
      exact List.length_map _
    · exact length_of_bindHeaders h

/-- Where no plan is left, the leading run is opened. -/
theorem checkDecs_opens (ctx : Context) (d : Dec) (ds : List Dec) :
    checkDecs ctx [] (d :: ds) = (do
      let plans ← openRun ctx (Dec.leadingRun (d :: ds))
      let (d, ok) ← checkDec ctx (plans.headD .dropped) d
      let (ds, oks) ← checkDecs ctx plans.tail ds
      return (d :: ds, ok && oks)) := by
  rw [checkDecs]
  simp

/-- **The declarations of a let block are checked run by run.** -/
theorem yieldsOr_checkDecs {P : Prop} {ctx : Context} {c : Checker} {d : Dec} {ds : List Dec}
    {Q : List Dec × Bool → Checker → Prop}
    (h : YieldsOr P (openRun ctx (Dec.leadingRun (d :: ds))) c fun plans c₁ =>
      plans.length = (Dec.leadingRun (d :: ds)).length ∧
        YieldsOr P (checkPlanned ctx plans (Dec.leadingRun (d :: ds))) c₁ fun r c₂ =>
          YieldsOr P (checkDecs ctx [] (ds.dropWhile (Dec.sameKind d))) c₂ fun r' c₃ =>
            Q (r.1 ++ r'.1, r.2 && r'.2) c₃) :
    YieldsOr P (checkDecs ctx [] (d :: ds)) c Q := by
  have hsplit : d :: ds = Dec.leadingRun (d :: ds) ++ ds.dropWhile (Dec.sameKind d) := by
    simp [Dec.leadingRun]
  rw [checkDecs_opens]
  refine h.bind fun plans c₁ hopened => ?_
  obtain ⟨hlen, hrun⟩ := hopened
  cases plans with
  | nil => simp [Dec.leadingRun] at hlen
  | cons plan plans =>
    rw [List.headD_cons, List.tail_cons, ← checkDecs_cons, hsplit, checkDecs_planned _ _ _ _ hlen]
    exact hrun.bind fun r c₂ hrest => hrest.bind fun r' c₃ hq => (yields_pure.mpr hq).or

/-- Declarations that were checked were checked run by run. -/
theorem exists_of_run_checkDecs {ctx : Context} {c c' : Checker} {d : Dec} {ds : List Dec}
    {r : List Dec × Bool} (h : (checkDecs ctx [] (d :: ds)).run c = .ok (r, c')) :
    ∃ plans c₁ r₁ c₂ r₂, (openRun ctx (Dec.leadingRun (d :: ds))).run c = .ok (plans, c₁) ∧
      (checkPlanned ctx plans (Dec.leadingRun (d :: ds))).run c₁ = .ok (r₁, c₂) ∧
      (checkDecs ctx [] (ds.dropWhile (Dec.sameKind d))).run c₂ = .ok (r₂, c') ∧
      r = (r₁.1 ++ r₂.1, r₁.2 && r₂.2) := by
  have hsplit : d :: ds = Dec.leadingRun (d :: ds) ++ ds.dropWhile (Dec.sameKind d) := by
    simp [Dec.leadingRun]
  rw [checkDecs_opens] at h
  obtain ⟨plans, c₁, h₁, h⟩ := exists_of_run_bind h
  have hlen := length_of_openRun h₁
  cases plans with
  | nil => simp [Dec.leadingRun] at hlen
  | cons plan plans =>
    rw [List.headD_cons, List.tail_cons, ← checkDecs_cons, hsplit,
      checkDecs_planned _ _ _ _ hlen] at h
    obtain ⟨r₁, c₂, h₂, h⟩ := exists_of_run_bind h
    obtain ⟨r₂, c₃, h₃, h⟩ := exists_of_run_bind h
    cases h
    exact ⟨_, c₁, r₁, c₂, r₂, h₁, h₂, h₃, rfl⟩

end TigerCheck
