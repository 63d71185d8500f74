import TigerCheck.Proofs.Relabel.Rule

/-!
# Opening a run of declarations under a relabelling

A run of types or functions is opened by binding their names, which gives relabelled plans. For a run of
variables it is only noted how many variables there are; that number may be another one on the other side,
but the variables from it on are the same.

* `Plan.Like`: a plan, and a plan for the relabelled declaration.
* `Stage.carries_declareType`, `Stage.carries_declareFunction`: binding a type and a function.
* **`Stage.relates_openRun`**: the plans of a run.
* `Stage.carries_boundSince`: whether a name was bound in the current run.
-/

namespace TigerCheck

open Check

/-! ## Plans -/

/-- A plan for a declaration, and one for the relabelled declaration. -/
inductive Plan.Like (ρ : Relabelling) : Plan → Plan → Prop where
  | dropped : Plan.Like ρ .dropped .dropped
  | typeBody (id : NamedTypeId) : Plan.Like ρ (.typeBody id) (.typeBody (id.relabel ρ))
  | functionBody (header : Header) : Plan.Like ρ (.functionBody header) (.functionBody (header.relabel ρ))
  /-- Of a variable and its relabelled variable both belong to the run, or neither. -/
  | since {first first' : ℕ} : (∀ i, first ≤ i ↔ first' ≤ ρ.handle .var i) →
      Plan.Like ρ (.variable first) (.variable first')

theorem Plan.exists_like {ρ : Relabelling} (hρ : ρ.Faithful) : ∀ plan : Plan, ∃ plan', plan.Like ρ plan'
  | .dropped => ⟨_, .dropped⟩
  | .typeBody id => ⟨_, .typeBody id⟩
  | .functionBody header => ⟨_, .functionBody header⟩
  | .variable 0 => ⟨.variable 0, .since fun i => by simp⟩
  | .variable (n + 1) => ⟨.variable (ρ.handle .var n + 1), .since fun i => by
      rw [Nat.succ_le_iff, Nat.succ_le_iff, (hρ.handle .var).lt_iff_lt]⟩

theorem Plan.exists_likes {ρ : Relabelling} (hρ : ρ.Faithful) :
    ∀ plans : List Plan, ∃ plans', List.Forall₂ (Plan.Like ρ) plans plans'
  | [] => ⟨[], .nil⟩
  | plan :: plans => by
    obtain ⟨plan', h⟩ := Plan.exists_like hρ plan
    obtain ⟨plans', hs⟩ := Plan.exists_likes hρ plans
    exact ⟨plan' :: plans', .cons h hs⟩

theorem Plan.like_headD {ρ : Relabelling} {plans plans' : List Plan} (h : List.Forall₂ (Plan.Like ρ) plans plans') :
    Plan.Like ρ (plans.headD .dropped) (plans'.headD .dropped) := by
  cases h with
  | nil => exact .dropped
  | cons h _ => exact h

theorem Plan.likes_tail {ρ : Relabelling} {plans plans' : List Plan} (h : List.Forall₂ (Plan.Like ρ) plans plans') :
    List.Forall₂ (Plan.Like ρ) plans.tail plans'.tail := by
  cases h with
  | nil => exact .nil
  | cons _ h => exact h

namespace Checker

theorem count_declareType {c : Checker} (t : NamedType) (typeNames : Scopes NamedTypeId) (j : Handle) :
    count { c with namedTypes := c.namedTypes.push t, typeNames } j =
      c.count j + if j = .typeName then 1 else 0 := by
  cases j <;> simp [count]

end Checker

namespace Stage

variable {ρ : Relabelling} {S : Stage ρ}

/-! ## Types and functions -/

theorem carries_declareType (dec : TypeDec) :
    S.Carries (·.relabel ρ) (declareType dec) (declareType (dec.relabel ρ)) := by
  intro c _ _ hrun
  obtain ⟨rfl, rfl⟩ := yields_modifyGet.mp (yields_of_run hrun)
  have hadd := Checker.count_declareType (c := c) (.pending dec none)
    (c.typeNames.bind dec.name.name ⟨c.namedTypes.size⟩)
  refine ⟨count_le_of_add hadd, fun d _ _ hrun' hM hlim => ?_⟩
  obtain ⟨rfl, rfl⟩ := yields_modifyGet.mp (yields_of_run hrun')
  have hnew := hM.handle_count (lt_limit_of_add hadd hlim)
  have hid : NamedTypeId.mk d.namedTypes.size = NamedTypeId.relabel ρ ⟨c.namedTypes.size⟩ :=
    congrArg NamedTypeId.mk hnew.symm
  refine ⟨hid, { hM with
    namedTypes := hM.namedTypes.push (S.faithful.handle _) hnew rfl
    typeNames_eq := ?_
    next := next_add hM hadd (Checker.count_declareType _ _) }⟩
  rw [Scopes.relabel_bind, ← hM.typeNames_eq]
  exact congrArg (d.typeNames.bind (ρ.typeName dec.name.name)) hid

theorem carries_declareParams (frame : FrameId) : ∀ params : List TypedName,
    S.Carries (Prod.map (List.map (·.relabel ρ)) (Option.map (List.map (·.relabel ρ))))
      (declareParams frame params) (declareParams (frame.relabel ρ)
        (params.map (·.rename ρ.value ρ.typeName)))
  | [] => carries_pure ([], some [])
  | p :: ps => (carries_typeOf p.typeName).bind fun ty =>
    (carries_alloc frame p.name.name (ρ.value p.name.name) ty .param).bind fun id =>
      (carries_declareParams frame ps).bind fun rest => by
        obtain ⟨ids, tys⟩ := rest
        cases ty with
        | none => exact carries_pure (id :: ids, none)
        | some ty =>
          cases tys with
          | none => exact carries_pure (id :: ids, none)
          | some tys => exact carries_pure (id :: ids, some (ty :: tys))

theorem carries_declaredResult : ∀ result : Option Ident, S.Carries (Option.map (·.relabel ρ))
    (declaredResult result) (declaredResult (result.map (·.rename ρ.typeName)))
  | some result => carries_typeOf result
  | none => carries_pure (some Ty.void)

theorem carries_declareFunction (ctx : Context) (head : FunctionHead) : S.Carries (·.relabel ρ)
    (declareFunction ctx head) (declareFunction (ctx.relabel ρ) (head.relabel ρ)) := by
  refine relates_ite Iff.rfl ?_ relates_throw
  refine (carries_newFrame _ _ (ctx.level + 1) ctx.frame).bind fun frame => ?_
  refine (carries_alloc frame _ _ (some (.frame ctx.frame)) .staticLink).bind fun staticLink => ?_
  refine (carries_declareParams frame head.params).bind fun params => ?_
  refine (carries_declaredResult head.result).bind fun result => ?_
  obtain ⟨ids, tys⟩ := params
  have hrest : ∀ signature : Option Signature, S.Carries (·.relabel ρ)
      (do
        let id ← addFunction ⟨head.name.name, signature, .declared (ctx.level + 1) frame staticLink ids⟩
        log (.functionDeclared head.name.name (ctx.level + 1))
        return Header.mk id (ctx.level + 1) frame ids (signature.map (·.result)))
      (do
        let id ← addFunction ⟨ρ.function head.name.name, signature.map (·.relabel ρ),
          .declared (ctx.level + 1) (frame.relabel ρ) (staticLink.relabel ρ)
            (ids.map (·.relabel ρ))⟩
        log (.functionDeclared (ρ.function head.name.name) (ctx.level + 1))
        return Header.mk id (ctx.level + 1) (frame.relabel ρ) (ids.map (·.relabel ρ))
          ((signature.map (·.relabel ρ)).map (·.result))) := by
    intro signature
    refine (carries_addFunction ⟨rfl, rfl⟩ rfl).bind fun id => (carries_log _ _).bind fun _ => ?_
    refine relates_pure ?_
    cases signature <;> rfl
  cases result with
  | none => exact hrest none
  | some result =>
    cases tys with
    | none => exact hrest none
    | some tys => exact hrest (some ⟨.frame ctx.frame :: tys, result⟩)

/-! ## Runs -/

/-- The names of a run of types or functions are bound, which gives like plans. -/
theorem relates_bindHeaders (ctx : Context) (k : Dec.Kind) (hk : k ≠ .var) : ∀ (ds : List Dec) (seen : List String),
    (∀ d ∈ ds, d.kind = k) → S.Relates (List.Forall₂ (Plan.Like ρ)) (bindHeaders ctx seen ds)
      (bindHeaders (ctx.relabel ρ) (seen.map (ρ.ofKind k)) (relabelDecs ρ ds))
  | [], _, _ => relates_pure .nil
  | d :: ds, seen, hds => by
    have hkind : d.kind = k := hds d List.mem_cons_self
    have hrest := fun seen => relates_bindHeaders ctx k hk ds seen fun e he => hds e (List.mem_cons_of_mem _ he)
    have hname : (d.relabel ρ).name = d.name.rename (ρ.ofKind k) := by
      rw [Dec.name_relabel, hkind]
    have hcons : ∀ {plan plan' : Plan}, plan.Like ρ plan' → ∀ seen : List String,
        S.Relates (List.Forall₂ (Plan.Like ρ))
          (do return plan :: (← bindHeaders ctx seen ds))
          (do return plan' :: (← bindHeaders (ctx.relabel ρ) (seen.map (ρ.ofKind k))
            (relabelDecs ρ ds))) := fun hplan seen =>
      (hrest seen).andThen (Plan.exists_likes S.faithful) fun _ _ hplans => relates_pure (.cons hplan hplans)
    have hmem : (d.name.rename (ρ.ofKind k)).name ∈ seen.map (ρ.ofKind k) ↔ d.name.name ∈ seen :=
      List.mem_map_of_injective (S.faithful.names.ofKind k)
    simp only [relabelDecs, bindHeaders, hname]
    refine relates_ite hmem ?_ ?_
    · exact Relates.bind (carries_report ⟨k, rfl⟩) fun _ => hcons .dropped seen
    · have hseen : (d.name.rename (ρ.ofKind k)).name :: seen.map (ρ.ofKind k) =
          (d.name.name :: seen).map (ρ.ofKind k) := rfl
      rw [hseen]
      cases d with
      | type dec =>
        exact ((carries_declareType dec).map .typeBody).andThen (Plan.exists_like S.faithful) fun _ _ hplan =>
          hcons hplan _
      | function head body loc id =>
        exact ((carries_declareFunction ctx head).map .functionBody).andThen (Plan.exists_like S.faithful)
          fun _ _ hplan => hcons hplan _
      | var name typeName init loc slot => exact absurd hkind.symm hk

/-- **A run is opened with like plans.** -/
theorem relates_openRun (ctx : Context) (k : Dec.Kind) (run : List Dec) (hrun : ∀ d ∈ run, d.kind = k) :
    S.Relates (List.Forall₂ (Plan.Like ρ)) (openRun ctx run)
      (openRun (ctx.relabel ρ) (relabelDecs ρ run)) := by
  cases run with
  | nil => exact relates_pure .nil
  | cons d ds =>
    have hkind : d.kind = k := hrun d List.mem_cons_self
    refine (carries_log _ _).bind fun _ => relates_cases (by rw [Dec.kind_relabel]) (fun _ => ?_) fun hvar => ?_
    · intro c plans c' h
      obtain ⟨_, _, hget, h⟩ := exists_of_run_bind h
      cases hget
      cases h
      refine ⟨le_rfl, fun d' plans' _ h' hM _ => ?_⟩
      obtain ⟨_, _, hget, h'⟩ := exists_of_run_bind h'
      cases hget
      cases h'
      have hlike : Plan.Like ρ (.variable c.frames.varCount) (.variable d'.frames.varCount) :=
        .since hM.vars.size_le_iff
      refine ⟨?_, hM⟩
      rw [relabelDecs_eq_map, List.map_map, List.forall₂_map_left_iff, List.forall₂_map_right_iff, List.forall₂_same]
      exact fun _ _ => hlike
    · exact relates_bindHeaders ctx k (hkind ▸ hvar) (d :: ds) [] hrun

/-- A name was bound in the current run if and only if the new name was. -/
theorem carries_boundSince {first first' : ℕ} (h : ∀ i, first ≤ i ↔ first' ≤ ρ.handle .var i) (name : String) :
    S.Carries id (boundSince first name) (boundSince first' (ρ.value name)) := by
  refine relates_lookup (·.relabel ρ) (fun c => c.values.lookupLocal name)
    (fun d => d.values.lookupLocal (ρ.value name)) (fun c => by cases c.values.lookupLocal name <;> rfl)
    (fun d => by cases d.values.lookupLocal (ρ.value name) <;> rfl) (fun c d hM => ?_) (carries_pure false) fun id => ?_
  · rw [hM.values_eq]
    exact Scopes.lookupLocal_relabel S.faithful.names.value c.values name
  · exact relates_pure (decide_eq_decide.mpr (h id.index).symm)

end Stage

end TigerCheck
