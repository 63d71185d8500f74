import TigerCheck.Proofs.Twin.Functions
import TigerCheck.Proofs.Twin.TypeRun
import TigerCheck.Proofs.Walk.Kept

/-!
# Declarations and let blocks in two runs

The declarations of a block are checked run by run on both sides, and the runs are of the same kinds. With
that every form of node is covered.

* `both_run`: one run, of whatever kind.
* **`both_checkDecs`**: the declarations of a block.
* **`ExpTwinned.letIn`**, **`expTwinned`**: let blocks, and every expression.
-/

namespace TigerCheck

open Check

variable {free : Prop} {ρ : Pairing} {ctx ctx' : Context} {c d c' d' : Checker}

/-! ## One run after another -/

/-- **A run is checked alike on both sides**, of whatever kind it is. -/
theorem both_run {x y : Dec} {xs ys ds : List Dec} (hk : ∀ z ∈ x :: xs, z.kind = x.kind)
    (h : ∀ z ∈ x :: xs, z.Parts (ExpTwinned free)) (hds : reorderedDecs free (x :: xs) ds)
    (hes : Dec.RunReordered free ds (y :: ys)) (ht : Twin ρ ctx ctx' c d) :
    Both (checkRun ctx (x :: xs)) (checkRun ctx' (y :: ys)) c d fun r r' c' d' => ∃ ρ',
      Stretch free ρ ctx ctx' c d (tysDecs (liveDecs ⟨some x.kind, []⟩ r.1))
        (tysDecs (liveDecs ⟨some x.kind, []⟩ r'.1)) ρ' c' d' ∧ r.2 = r'.2 := by
  have hkinds : ∀ z ∈ ds, z.kind = x.kind := by
    intro z hz
    obtain ⟨w, hw, hwz⟩ := exists_mem_of_forall₂ (reorderedDecs_iff.mp hds).flip hz
    exact hwz.kind_eq.trans (hk w hw)
  have hkinds' := hes.kind_eq hkinds
  cases hkind : x.kind with
  | function => exact both_functionRun (hkind ▸ hk) (hkind ▸ hkinds') h hds hes ht
  | type =>
    obtain ⟨t, ts, hts⟩ := exists_map_type_of_kind (hkind ▸ hk)
    rw [hts] at hds ⊢
    obtain rfl := eq_of_reorderedDecs_type hds
    rw [hes.eq_of_kind (k := .type) (d := .type t) rfl (by decide)]
    exact both_typeRun ht t ts
  | var =>
    obtain ⟨z, zs, rfl, hz, hzs⟩ := hds
    have hzk : z.kind = .var := (hkinds z List.mem_cons_self).trans hkind
    rw [hes.eq_of_kind hzk (by decide)]
    intro r c' r' d' hrun hrun'
    obtain ⟨plans, c₁, hopen, hrun⟩ := exists_of_run_bind hrun
    obtain ⟨plans', d₁, hopen', hrun'⟩ := exists_of_run_bind hrun'
    obtain ⟨rfl, rfl⟩ := eq_of_run_openRun hkind hopen
    obtain ⟨rfl, rfl⟩ := eq_of_run_openRun hzk hopen'
    have hnoted : Stretch free ρ ctx ctx' c d [] [] ρ (c.note (.run x.kind (xs.length + 1)))
      (d.note (.run z.kind (zs.length + 1))) := .noted ht _ _
    obtain ⟨ρ', hst, hok⟩ := both_variables (hkind ▸ hk) h ⟨z, zs, rfl, hz, hzs⟩ hnoted.twin
      (.opened hnoted.twin.sits) (.opened hnoted.twin.sits') _ _ _ _ hrun hrun'
    exact ⟨ρ', hnoted.seq hst, hok⟩

section

variable {k : Dec.Kind} {ds : List Dec} {o : OpenRun}

/-- Declarations that open a run are live as if they were the first ones. -/
theorem liveDecs_of_ends (h : o.Ends ds) : liveDecs o ds = liveDecs {} ds := by
  cases ds with
  | nil => rfl
  | cons d ds => rw [liveDecs_opens (h d rfl), liveDecs_opens (o := {}) (Option.some_ne_none _).symm]

/-- The live declarations of a run and those behind it. -/
theorem tysDecs_run {rs es es' : List Dec} (hkept : OpenRun.Keeps ⟨some k, []⟩ ds rs)
    (hk : ∀ d ∈ ds, d.kind = k) (hds : ds ≠ []) (hends : OpenRun.Ends ⟨some k, []⟩ es)
    (hes : blankDecs es' = blankDecs es) : tysDecs (liveDecs {} (rs ++ es')) =
      tysDecs (liveDecs ⟨some k, []⟩ rs) ++ tysDecs (liveDecs {} es') := by
  have hkinds := kind_of_mem_blankDecs hkept.blank hk
  cases rs with
  | nil =>
    cases ds with
    | nil => exact absurd rfl hds
    | cons d ds => cases hkept.blank
  | cons r rs =>
    have hr := hkinds r List.mem_cons_self
    have hends' : OpenRun.Ends (OpenRun.after {} (r :: rs)) es' := fun e he => by
      rw [OpenRun.kind_after hkinds]
      exact hends.of_blank hes e he
    have hopens : liveDecs {} (r :: rs) = liveDecs ⟨some k, []⟩ (r :: rs) := by
      rw [← hr]
      exact liveDecs_opens (Option.some_ne_none _).symm
    rw [liveDecs_append, tysDecs_append, hopens, liveDecs_of_ends hends']

end

/-- **The declarations of a block are checked alike on both sides**, run by run. -/
theorem both_checkDecs : ∀ ds : List Dec, (∀ x ∈ ds, x.Parts (ExpTwinned free)) →
    ∀ {ds₁ es : List Dec} {ρ : Pairing} {c d : Checker}, reorderedDecs free ds ds₁ →
      List.Forall₂ (Dec.RunReordered free) (Dec.runs ds₁) (Dec.runs es) → Twin ρ ctx ctx' c d →
      Both (checkDecs ctx [] ds) (checkDecs ctx' [] es) c d fun r r' c' d' => ∃ ρ',
        Stretch free ρ ctx ctx' c d (tysDecs (liveDecs {} r.1)) (tysDecs (liveDecs {} r'.1)) ρ' c' d' ∧
        r.2 = r'.2
  | [], _, ds₁, es, ρ, c, d, hds, hruns, ht => by
    cases hds
    cases es with
    | cons e es =>
      rw [Dec.runs_eq_cons] at hruns
      cases hruns
    | nil =>
      rw [checkDecs, checkDecs]
      exact both_pure ⟨ρ, .refl ht, rfl⟩
  | x :: xs, h, ds₁, es, ρ, c, d, hds, hruns, ht => by
    intro r c' r' d' hrun hrun'
    have hsplit : x :: xs = Dec.leadingRun (x :: xs) ++ xs.dropWhile (Dec.sameKind x) := by
      simp [Dec.leadingRun]
    obtain ⟨x₁, xs₁, rfl, hx, hxs⟩ := hds
    obtain ⟨y, ys, rfl, hlead, hrest⟩ := exists_of_runs hruns
    obtain ⟨hds, hdsRest⟩ := reorderedDecs_split (by exact ⟨x₁, xs₁, rfl, hx, hxs⟩)
    have hk : ∀ e ∈ Dec.leadingRun (x :: xs), e.kind = x.kind := fun e he => kind_of_mem_leadingRun he
    have hk₁ : ∀ e ∈ Dec.leadingRun (x₁ :: xs₁), e.kind = x.kind := fun e he =>
      (kind_of_mem_leadingRun he).trans hx.kind_eq
    have hk' : ∀ e ∈ Dec.leadingRun (y :: ys), e.kind = x.kind := hlead.kind_eq hk₁
    have hy : y.kind = x.kind := hk' y List.mem_cons_self
    obtain ⟨plans, c₁, r₁, c₂, r₂, hopen, hplanned, hdecs, rfl⟩ := exists_of_run_checkDecs hrun
    obtain ⟨plans', d₁, r₁', d₂, r₂', hopen', hplanned', hdecs', rfl⟩ := exists_of_run_checkDecs hrun'
    obtain ⟨ρ₁, hst₁, hok₁⟩ := both_run hk (fun e he => h e (hsplit ▸ List.mem_append_left _ he)) hds hlead ht
      _ _ _ _ (run_checkRun hopen hplanned) (run_checkRun hopen' hplanned')
    obtain ⟨ρ', hst₂, hok₂⟩ := both_checkDecs (xs.dropWhile (Dec.sameKind x)) (fun e he =>
      h e (List.mem_cons_of_mem _ (List.dropWhile_subset _ he))) hdsRest hrest hst₁.twin _ _ _ _ hdecs hdecs'
    refine ⟨ρ', ?_, congrArg₂ (· && ·) hok₁ hok₂⟩
    -- what was checked on each side, run by run
    have hkept := kept_run hk (fun e _ => keptCases.all.2.2 e) ht.alike.sound ht.sits hopen hplanned
    have hkept' := kept_run (hy ▸ hk') (fun e _ => keptCases.all.2.2 e) ht.alike.sound' ht.sits' hopen'
      hplanned'
    rw [hy] at hkept'
    have hends := OpenRun.ends_dropWhile (o := ⟨some x.kind, []⟩) rfl xs
    have hends' := OpenRun.ends_dropWhile (o := ⟨some x.kind, []⟩) (congrArg some hy.symm) ys
    have hblank := (kept_checkDecs _ (fun e _ => keptCases.all.2.2 e) hends hst₁.twin.alike.sound
      hst₁.twin.sits hdecs).blank
    have hblank' := (kept_checkDecs _ (fun e _ => keptCases.all.2.2 e) hends' hst₁.twin.alike.sound'
      hst₁.twin.sits' hdecs').blank
    dsimp only
    rw [tysDecs_run hkept hk (List.cons_ne_nil _ _) hends hblank,
      tysDecs_run hkept' hk' (List.cons_ne_nil _ _) hends' hblank']
    exact hst₁.seq hst₂
termination_by ds => ds.length
decreasing_by
  exact Nat.lt_succ_of_le (List.length_dropWhile_le _ _)

/-! ## Let blocks -/

/-- The scopes of a block are opened on both sides. -/
theorem Twin.entered (h : Twin ρ ctx ctx' c d) : After free ρ ctx ctx' c d ρ c.entered d.entered where
  grows := .same h.alike.mirrors (.none rfl rfl rfl) (.none rfl rfl rfl)
  twin :=
    { alike :=
        ⟨h.alike.sound.entered, h.alike.sound'.entered, h.alike.mirrors, h.alike.types, h.alike.values,
          h.alike.functions⟩
      sits := h.sits.entered
      sits' := h.sits'.entered
      inLoop_eq := h.inLoop_eq }

theorem ExpTwinned.letIn {m : Mark} {decs : List Dec} {body : Exp}
    (hd : ∀ x ∈ decs, x.Parts (ExpTwinned free)) (hb : ExpTwinned free body) :
    ExpTwinned free (.letIn m decs body) := by
  intro f ρ ctx ctx' c d hf h e' c' f' d' hrun hrun'
  obtain ⟨decs₁, decs', body', rfl, hdecs, hruns, hbody⟩ := hf
  have hw := (walked_exp h.alike.sound h.sits hrun).1
  have hw' := (walked_exp h.alike.sound' h.sits' hrun').1
  obtain ⟨r, c₁, b, c₂, h₁, h₂, -, -, rfl, rfl⟩ := exists_of_run_letIn h.alike.sound h.sits hrun
  obtain ⟨r', d₁, b', d₂, k₁, k₂, -, -, rfl, rfl⟩ := exists_of_run_letIn h.alike.sound' h.sits' hrun'
  have hentered : Stretch free ρ ctx ctx' c d [] [] ρ c.entered d.entered := (Stretch.refl h).after h.entered
  obtain ⟨ρ₁, hst₁, hok⟩ := both_checkDecs decs hd hdecs hruns hentered.twin _ _ _ _ h₁ k₁
  obtain ⟨ρ₂, hst₂, hm⟩ := hb hbody hst₁.twin _ _ _ _ h₂ k₂
  have hst := Stretch.close h (hentered.seq (hst₁.seq hst₂)) hw hw' (.of_tables rfl rfl rfl)
    (.of_tables rfl rfl rfl)
  refine hst.node m .quiet ?_
  rw [hok]
  split
  · exact hm.ty
  · exact .none

/-! ## Every expression -/

theorem twinnedCases (free : Prop) :
    Tree.Cases (ExpTwinned free) (VarTwinned free) (Dec.Parts (ExpTwinned free)) where
  var _ _ h := .var h
  nil _ := .nil
  int _ _ := .int
  string _ _ := .string
  call _ _ _ _ h := .call h
  binary _ _ _ _ hl hr := .binary hl hr
  record _ _ _ h := .record h
  seq _ _ h := .seq h
  assign _ _ _ ht hv := .assign ht hv
  condNone _ _ _ ht hp := .condNone ht hp
  condSome _ _ _ _ ht hp he := .condSome ht hp he
  whileLoop _ _ _ ht hb := .whileLoop ht hb
  doWhile _ _ _ hb ht := .doWhile hb ht
  forLoop _ _ _ _ _ _ hl hh hb := .forLoop hl hh hb
  breakLoop _ := .breakLoop
  letIn _ _ _ hd hb := .letIn hd hb
  array _ _ _ _ hz hi := .array hz hi
  simple _ _ _ := .simple
  field _ _ _ _ hb := .field hb
  element _ _ _ hb hi := .element hb hi
  type _ := trivial
  function _ _ _ _ hb := hb
  varDec _ _ _ _ _ hi := hi

/-- **Two checks of every expression go alike**, where it means the same, also with functions in another
order. -/
theorem expTwinned (free : Prop) (e : Exp) : ExpTwinned free e := (twinnedCases free).all.1 e

end TigerCheck
