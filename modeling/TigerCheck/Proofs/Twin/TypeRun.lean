import TigerCheck.Proofs.Twin.Exp
import TigerCheck.Proofs.Twin.TypeName

/-!
# Runs of types in two runs

The names of a run of types are bound on both sides, and its declarations are resolved one after another.
Behind the run every type name stands for paired types again.

* **`Midway.opened`**: states that are alike are in the middle of an empty run.
* `both_bindTypes`, `both_typeBodies`: the two halves of a run.
* **`Midway.typesAlike`**: behind a run.
* **`both_typeRun`**: a run of types.
-/

namespace TigerCheck

open Check

variable {free : Prop} {ρ₀ ρ ρ' : Pairing} {ctx ctx' : Context} {c d x y c' d' : Checker}

/-! ## Before the run -/

theorem Checker.AtRest.exists_settled {c : Checker} (hc : c.AtRest) {name : String} {id : NamedTypeId}
    (h : c.typeNames.lookup name = some id) :
    ∃ s, c.status id = some s ∧ (∀ dec o, s ≠ .pending dec o) ∧ c.typeNamed name = s.answer := by
  obtain ⟨s, hs⟩ := hc.known name id h
  refine ⟨s, hs, ?_, ?_⟩
  · rintro dec o rfl
    exact hc.settled id dec o hs
  · simp only [Checker.typeNamed, h, hs]
    cases s <;> rfl

/-- Settled declarations that stand for paired types, or for none, are resolved equally far. -/
theorem NamedType.paired_of_answer {s t : NamedType} (hs : ∀ dec o, s ≠ .pending dec o)
    (ht : ∀ dec o, t ≠ .pending dec o) (h : Option.Rel ρ s.answer t.answer) : s.Paired ρ t := by
  cases s with
  | pending dec o => exact absurd rfl (hs dec o)
  | resolved s =>
    cases t with
    | pending dec o => exact absurd rfl (ht dec o)
    | resolved t =>
      cases h with
      | some h => exact .resolved h
    | poisoned => cases h
  | poisoned =>
    cases t with
    | pending dec o => exact absurd rfl (ht dec o)
    | resolved t => cases h
    | poisoned => exact .poisoned

namespace Midway

/-- **States that are alike are in the middle of an empty run.** -/
theorem opened (h : c.Alike ρ d) : Midway c ρ d c ρ d where
  mirrors := h.mirrors
  le _ _ hst := hst
  size := ⟨0, rfl, rfl⟩
  kept _ _ hs := hs
  kept' _ _ ht := ht
  declared k := by
    have hnone : ∀ x : Checker, x.status ⟨x.namedTypes.size + k⟩ = none := fun x =>
      Array.getElem?_eq_none (Nat.le_add_right _ _)
    rw [hnone, hnone]
    exact .none
  names name := by
    obtain ⟨hsome, hty⟩ := h.types name
    cases hl : c.typeNames.lookup name with
    | none =>
      rw [hl] at hsome
      rw [Option.isSome_eq_false_iff.mp hsome.symm |> Option.isNone_iff_eq_none.mp]
      exact .none
    | some i =>
      rw [hl] at hsome
      obtain ⟨j, hl'⟩ := Option.isSome_iff_exists.mp hsome.symm
      obtain ⟨s, hs, hset, hans⟩ := h.sound.rest.exists_settled hl
      obtain ⟨t, ht, hset', hans'⟩ := h.sound'.rest.exists_settled hl'
      rw [hans, hans'] at hty
      rw [hl']
      exact .some (.settled hs ht (NamedType.paired_of_answer hset hset' hty) hset)

/-- A type name is bound on both sides. -/
theorem declare (h : Midway c ρ₀ d x ρ y) {r : ℕ} (hx : x.namedTypes.size = c.namedTypes.size + r)
    (hy : y.namedTypes.size = d.namedTypes.size + r) (dec : TypeDec) :
    Midway c ρ₀ d (x.declare dec) ρ (y.declare dec) where
  mirrors := h.mirrors
  le := h.le
  size := ⟨r + 1, by rw [Checker.declare, Array.size_push, hx, Nat.add_assoc],
    by rw [Checker.declare, Array.size_push, hy, Nat.add_assoc]⟩
  kept i s hs := Checker.status_declare_of_some (h.kept i s hs)
  kept' j t ht := Checker.status_declare_of_some (h.kept' j t ht)
  declared k := by
    rw [Checker.status_declare, Checker.status_declare, hx, hy]
    by_cases hk : k = r
    · rw [if_pos (by rw [hk]), if_pos (by rw [hk])]
      exact .some (.pending dec .none)
    · rw [if_neg (by simpa using hk), if_neg (by simpa using hk)]
      exact h.declared k
  names name := by
    rw [Checker.lookup_declare, Checker.lookup_declare, hx, hy]
    split
    · exact .some (.declared r)
    · exact h.names name

/-- **Behind a run every name stands for paired types.** -/
theorem typesAlike (h : Midway c ρ₀ d x ρ y) : x.TypesAlike ρ y := by
  intro name
  have hname := h.names name
  rw [Checker.typeNamed, Checker.typeNamed]
  generalize x.typeNames.lookup name = o at hname
  generalize y.typeNames.lookup name = o' at hname
  cases hname with
  | none => exact ⟨rfl, .none⟩
  | @some i j hij =>
    have hstatus := h.status hij
    refine ⟨rfl, ?_⟩
    dsimp only
    generalize x.status i = s at hstatus
    generalize y.status j = t at hstatus
    cases hstatus with
    | none => exact .none
    | some hp =>
      cases hp with
      | pending => exact .none
      | resolved hst => exact .some hst
      | poisoned => exact .none

end Midway

/-! ## The two halves of a run -/

/-- Plans for the type names of a run at one place in it. -/
inductive Plan.SamePlace (c d : Checker) : Plan → Plan → Prop where
  | dropped : Plan.SamePlace c d .dropped .dropped
  | typeBody (k : ℕ) :
      Plan.SamePlace c d (.typeBody ⟨c.namedTypes.size + k⟩) (.typeBody ⟨d.namedTypes.size + k⟩)

/-- A type name is bound on both sides, at one place in the run. -/
theorem both_declareType (h : Midway c ρ₀ d x ρ y) (t : TypeDec) :
    Both (Plan.typeBody <$> declareType t) (Plan.typeBody <$> declareType t) x y
      (Resolves free c ρ₀ d x ρ y fun _ => Plan.SamePlace c d) := by
  rintro p x' q y' hp hq
  obtain ⟨r, hx, hy⟩ := h.size
  have hm := h.declare hx hy t
  cases hp
  cases hq
  refine ⟨ρ, .same h.mirrors (.none rfl rfl rfl) (.none rfl rfl rfl), hm, ?_⟩
  rw [hx, hy]
  exact .typeBody r

/-- **The names of a run are bound on both sides.** -/
theorem both_bindTypes (ds : List TypeDec) : ∀ {seen : List String} {x y : Checker} {ρ : Pairing},
    Midway c ρ₀ d x ρ y →
    Both (bindHeaders ctx seen (ds.map .type)) (bindHeaders ctx' seen (ds.map .type)) x y
      (Resolves free c ρ₀ d x ρ y fun _ => List.Forall₂ (Plan.SamePlace c d)) := by
  induction ds with
  | nil => exact fun h => both_pure (.still h .nil)
  | cons t ds ih =>
    intro seen x y ρ h
    rw [List.map_cons, bindHeaders, bindHeaders]
    dsimp only
    refine both_ite Iff.rfl (fun _ _ => ?_) fun _ _ => ?_
    · refine (both_reported h).andThen fun ρ₁ _ _ x₁ y₁ h₁ _ _ => ?_
      exact (ih h₁).andThen fun ρ₂ plans plans' x₂ y₂ h₂ _ hp => both_pure (.still h₂ (.cons .dropped hp))
    · refine (both_declareType h t).andThen fun ρ₁ p q x₁ y₁ h₁ _ hpq => ?_
      exact (ih h₁).andThen fun ρ₂ plans plans' x₂ y₂ h₂ _ hp => both_pure (.still h₂ (.cons hpq hp))

/-- **The declarations of a run are resolved on both sides.** -/
theorem both_typeBodies {plans plans' : List Plan} (hplans : List.Forall₂ (Plan.SamePlace c d) plans plans') :
    ∀ {ds : List TypeDec} {x y : Checker} {ρ : Pairing}, Midway c ρ₀ d x ρ y →
      Both (checkPlanned ctx plans (ds.map .type)) (checkPlanned ctx' plans' (ds.map .type)) x y
        (Resolves free c ρ₀ d x ρ y fun _ r r' => r.2 = r'.2) := by
  induction hplans with
  | nil => exact fun h => both_pure (.still h rfl)
  | @cons p q plans plans' hp _ ih =>
    intro ds x y ρ h
    cases ds with
    | nil => exact both_pure (.still h rfl)
    | cons t ds =>
      rw [List.map_cons, checkPlanned, checkPlanned]
      have hhead : Both (checkDec ctx p (.type t)) (checkDec ctx' q (.type t)) x y
          (Resolves free c ρ₀ d x ρ y fun _ r r' => r.2 = r'.2) := by
        cases hp with
        | dropped =>
          rw [checkDec_dropped, checkDec_dropped]
          exact both_pure (.still h rfl)
        | typeBody k =>
          rw [checkDec, checkDec]
          exact (both_typeAt (.declared k) h).andThen fun ρ₁ o o' x₁ y₁ h₁ _ ho =>
            both_pure (.still h₁ (isSome_eq_of_rel ho))
      refine hhead.andThen ?_
      rintro ρ₁ ⟨_, ok⟩ ⟨_, ok'⟩ x₁ y₁ h₁ - hok
      refine (ih h₁).andThen ?_
      rintro ρ₂ ⟨_, oks⟩ ⟨_, oks'⟩ x₂ y₂ h₂ - hoks
      exact both_pure (.still h₂ (congrArg₂ (· && ·) hok hoks))

/-! ## The run -/

theorem tysDecs_map_type (ts : List TypeDec) (o : OpenRun) : tysDecs (liveDecs o (ts.map .type)) = [] := by
  induction ts generalizing o with
  | nil => rfl
  | cons t ts ih =>
    rw [List.map_cons, liveDecs]
    split
    · exact ih _
    · rw [tysDecs, ih]
      rfl

/-- **A run of types is checked alike on both sides.** -/
theorem both_typeRun (h : Twin ρ ctx ctx' c d) (t : TypeDec) (ts : List TypeDec) :
    Both (checkRun ctx ((t :: ts).map .type)) (checkRun ctx' ((t :: ts).map .type)) c d fun r r' c' d' =>
      ∃ ρ', Stretch free ρ ctx ctx' c d (tysDecs (liveDecs ⟨some .type, []⟩ r.1))
        (tysDecs (liveDecs ⟨some .type, []⟩ r'.1)) ρ' c' d' ∧ r.2 = r'.2 := by
  intro r c' r' d' hrun hrun'
  obtain ⟨plans, c₁, hopen, hrun⟩ := exists_of_run_bind hrun
  obtain ⟨plans', d₁, hopen', hrun'⟩ := exists_of_run_bind hrun'
  -- what either run leaves behind
  obtain ⟨hr, hdecl, kept, rs, own, hbind, -, hb, -⟩ :=
    ((yields_typeRun h.alike.sound h.sits t ts).of_run hopen).2.of_run hrun
  obtain ⟨hr', hdecl', kept', rs', own', hbind', -, hb', -⟩ :=
    ((yields_typeRun h.alike.sound' h.sits' t ts).of_run hopen').2.of_run hrun'
  obtain ⟨-, hvalues, hfunctions, -⟩ := hbind.others_eq
  obtain ⟨-, hvalues', hfunctions', -⟩ := hbind'.others_eq
  -- the steps of both
  have hsteps : Both (openRun ctx ((t :: ts).map .type)) (openRun ctx' ((t :: ts).map .type)) c d
      (Resolves free c ρ d c ρ d fun _ => List.Forall₂ (Plan.SamePlace c d)) := by
    rw [List.map_cons, openRun_cons, openRun_cons, if_neg (by simp [Dec.kind]), ← List.map_cons]
    refine Both.andThen (R := fun _ _ _ => True) (both_log ⟨ρ, .same h.alike.mirrors (.none rfl rfl rfl)
      (.none rfl rfl rfl), (Midway.opened h.alike).congr rfl rfl rfl rfl rfl rfl, trivial⟩)
      fun ρ₁ _ _ x y hm _ _ => both_bindTypes (t :: ts) hm
  obtain ⟨ρ₁, hg₁, hm₁, hplans⟩ := hsteps _ _ _ _ hopen hopen'
  obtain ⟨ρ', hg₂, hm, hok⟩ := both_typeBodies hplans hm₁ _ _ _ _ hrun hrun'
  refine ⟨ρ', ⟨⟨hg₁.trans hg₂, ⟨?_, hdecl.sits, hdecl'.sits, h.inLoop_eq⟩⟩, fun _ => ?_⟩, hok⟩
  · have hg := hg₁.trans hg₂
    exact ⟨hdecl.sound, hdecl'.sound, hm.mirrors, hm.typesAlike,
      h.alike.values.extends h.sits h.sits' hdecl.grown hdecl'.grown (hb.advances.values_eq.trans hvalues)
        (hb'.advances.values_eq.trans hvalues') hg.le,
      h.alike.functions.extends h.alike.sound h.alike.sound' hdecl.grown hdecl'.grown
        (hb.advances.functions_eq.trans hfunctions) (hb'.advances.functions_eq.trans hfunctions') hg.le⟩
  · rw [hr, hr', tysDecs_map_type]
    exact .nil

end TigerCheck
