import Mathlib.Data.List.Perm.Basic
import TigerCheck.Proofs.Twin.Headers

/-!
# The bodies of functions in two runs

The body of a function is checked with its parameters in scope, which have paired types on both sides. So it
goes alike on both sides. Bodies do not depend on each other: a body adds the same whichever of the others
are checked before it. So the bodies of a run add the same in every order.

* `Checker.ValuesAlike.bindAll`: parameters in scope. **`both_functionBody`**: the body of one function.
* **`both_functionBodies`**: the bodies of a run, in the same order.
* `BodyRun`, **`bodies_permuted`**: the bodies of a run, in another order.
* **`both_functionRun`**: a run of functions.
-/

namespace TigerCheck

open Check

variable {free : Prop} {ρ ρ' : Pairing} {ctx ctx' : Context} {c c₀ c₁ c' d d₀ d₁ d' : Checker}
  {head : FunctionHead} {seen : List String} {ds es : List Dec} {plans plans' : List Plan}

/-! ## One body -/

namespace Checker

/-- A name is bound on both sides to slots with paired types. -/
theorem ValuesAlike.bind {values values' : Scopes VarId} {v v' : VarId} {s s' : Slot}
    (h : ValuesAlike { c with values } ρ { d with values := values' })
    (hs : c.frames.vars[v.index]? = some s) (hs' : d.frames.vars[v'.index]? = some s')
    (hty : Option.Rel ρ s.ty s'.ty) (name : String) :
    ValuesAlike { c with values := values.bind name v } ρ { d with values := values'.bind name v' } := by
  intro x
  have hx := h x
  simp only [valueTy, Scopes.lookup_bind] at hx ⊢
  split
  · simpa [hs, hs'] using hty
  · exact hx

/-- Parameters are in scope on both sides, with paired types. -/
theorem ValuesAlike.bindAll {frame frame' : FrameId} {ps : List TypedName} {vs vs' : List VarId}
    (hps : ParamSlots c frame ps vs) (hps' : ParamSlots d frame' ps vs') (ht : c.TypesAlike ρ d)
    {values values' : Scopes VarId} (h : ValuesAlike { c with values } ρ { d with values := values' }) :
    ValuesAlike { c with values := values.bindAll ps vs } ρ
      { d with values := values'.bindAll ps vs' } := by
  induction hps generalizing vs' values values' with
  | nil =>
    cases hps'
    exact h
  | @cons p v ps vs hp _ ih =>
    cases hps' with
    | @cons _ v' _ vs' hp' hps' =>
      obtain ⟨s, hs, hty, -⟩ := hp
      obtain ⟨s', hs', hty', -⟩ := hp'
      exact ih hps' (h.bind hs hs' (by rw [hty, hty']; exact (ht _).2) p.name.name)

end Checker

/-- **The places in the body of a function**, with the parameters in scope. -/
theorem Twin.inBody {g g' : Header} (h : Twin ρ ctx ctx' c d) (hfits : g.Fits ctx head c)
    (hfits' : g'.Fits ctx' head d) : After free ρ ⟨g.level, g.frame, 0⟩ ⟨g'.level, g'.frame, 0⟩ c d ρ
      (c.inBody head g) (d.inBody head g') where
  grows := .same h.alike.mirrors (.none rfl rfl rfl) (.none rfl rfl rfl)
  twin :=
    { alike :=
        { sound := h.alike.sound.withValues _
          sound' := h.alike.sound'.withValues _
          mirrors := h.alike.mirrors
          types := h.alike.types
          values := .bindAll hfits.params hfits'.params h.alike.types h.alike.values
          functions := h.alike.functions }
      sits := hfits.sits_inBody h.sits
      sits' := hfits'.sits_inBody h.sits'
      inLoop_eq := rfl }

/-- Neither the layout of a frame nor the end of a scope is seen in the tables. -/
theorem Header.Fits.unchanged_close {g : Header} {frames : FrameTable} (hfits : g.Fits ctx head c)
    (hc : c.Sound) (hw : (c.inBody head g).Walked c₁) (hfin : c₁.frames.finalize g.frame = .ok frames) :
    c₁.Unchanged { c₁ with values := c.values, frames } := by
  have hleft := hw.leaveBody
  obtain ⟨fr, hfr, -⟩ := (hfits.extends hc.rest hleft.grown hleft.scopes.typeNames_eq).frame
  obtain ⟨hvars, hfunctions, hframes, -⟩ := FrameTable.finalize_eq hfr hfin
  exact ⟨rfl, ⟨(List.append_nil _).symm, rfl, rfl, congrArg _ hvars, congrArg _ hfunctions, hframes⟩⟩

/-- **The body of a function is checked on both sides.** -/
theorem both_functionBody {g g' : Header} {body f : Exp} {loc : Location} {id : Option FunctionId}
    (hbody : ExpTwinned free body) (hf : body.Reordered free f) (h : Twin ρ ctx ctx' c d)
    (hfits : g.Fits ctx head c) (hfits' : g'.Fits ctx' head d) :
    Both (checkDec ctx (.functionBody g) (.function head body loc id))
      (checkDec ctx' (.functionBody g') (.function head f loc id)) c d fun r r' c' d' => ∃ e e' ok ρ',
        r = (.function head e loc (some g.id), ok) ∧ r' = (.function head e' loc (some g'.id), ok) ∧
        Stretch free ρ ctx ctx' c d e.live.tys e'.live.tys ρ' c' d' := by
  intro r c' r' d' hrun hrun'
  obtain ⟨e, c₁, frames, ok, h₁, hfin, hrule, rfl⟩ :=
    exists_of_run_bodyOf h.alike.sound h.sits hfits hrun
  obtain ⟨e', d₁, frames', ok', k₁, kfin, krule, rfl⟩ :=
    exists_of_run_bodyOf h.alike.sound' h.sits' hfits' hrun'
  have hin : After free ρ ⟨g.level, g.frame, 0⟩ ⟨g'.level, g'.frame, 0⟩ c d ρ (c.inBody head g)
      (d.inBody head g') := h.inBody hfits hfits'
  have hw₁ := (walked_exp hin.twin.alike.sound hin.twin.sits h₁).1
  have hw₁' := (walked_exp hin.twin.alike.sound' hin.twin.sits' k₁).1
  obtain ⟨hw, -⟩ := hfits.close h.alike.sound hw₁ hfin
  obtain ⟨hw', -⟩ := hfits'.close h.alike.sound' hw₁' kfin
  have hsame := hfits.unchanged_close h.alike.sound hw₁ hfin
  have hsame' := hfits'.unchanged_close h.alike.sound' hw₁' kfin
  obtain ⟨ρ', hst, hm⟩ := hbody hf hin.twin _ _ _ _ h₁ k₁
  have hst₁ := Stretch.close h (((Stretch.refl h).after hin).seq hst) hw hw' hsame hsame'
  have hresult : Option.Rel ρ' g.result g'.result := by
    rw [hfits.result, hfits'.result]
    have hsig := h.alike.types.signatureOf h.alike.mirrors.void head
    generalize c.signatureOf head = o at hsig
    generalize d.signatureOf head = o' at hsig
    cases hsig with
    | none => exact .none
    | some hs => exact .some (hst₁.grows.le _ _ hs.result)
  obtain ⟨he, rfl⟩ := Rule.both_body hst₁.twin.alike hresult hm _ _ _ _ hrule krule
  exact ⟨e, e', ok, ρ', rfl, rfl, hst₁.echo he⟩

/-! ## The bodies of a run, in the same order -/

/-- **The bodies of a run are checked on both sides**, one after another. -/
theorem both_functionBodies (h : ∀ x ∈ ds, x.Parts (ExpTwinned free)) :
    ∀ {es : List Dec} {seen : List String} {plans plans' : List Plan} {ρ : Pairing} {c d : Checker},
      reorderedDecs free ds es → Twin ρ ctx ctx' c d → Planned ctx c seen plans ds →
      Planned ctx' d seen plans' es →
      Both (checkPlanned ctx plans ds) (checkPlanned ctx' plans' es) c d fun r r' c' d' => ∃ ρ',
        Stretch free ρ ctx ctx' c d (tysDecs (liveDecs ⟨some .function, seen⟩ r.1))
          (tysDecs (liveDecs ⟨some .function, seen⟩ r'.1)) ρ' c' d' ∧ r.2 = r'.2 := by
  induction ds with
  | nil =>
    intro es seen plans plans' ρ c d hes ht hp hp'
    cases hes
    cases hp
    cases hp'
    exact both_pure ⟨ρ, .refl ht, rfl⟩
  | cons x ds ih =>
    intro es seen plans plans' ρ c d hes ht hp hp'
    obtain ⟨y, es, rfl, hxy, hes⟩ := hes
    obtain ⟨hpart, hparts⟩ := List.forall_mem_cons.mp h
    cases hp with
    | dropped hk hseen hp =>
      cases hp' with
      | body hseen' =>
        have hname := hxy.name_eq
        exact absurd (by rw [← hname] at hseen; exact hseen) hseen'
      | dropped hk' hseen' hp' =>
        intro r c' r' d' hrun hrun'
        obtain ⟨rs, h₂, rfl⟩ := exists_of_run_dropped hrun
        obtain ⟨rs', k₂, rfl⟩ := exists_of_run_dropped hrun'
        obtain ⟨ρ', hst, -⟩ := ih hparts hes ht hp hp' _ _ _ _ h₂ k₂
        refine ⟨ρ', ?_, rfl⟩
        dsimp only
        rw [liveDecs_of_mem hk hseen, liveDecs_of_mem hk' hseen']
        exact hst
    | body hseen hfits hp =>
      obtain ⟨f, rfl, hf⟩ := hxy
      cases hp' with
      | dropped _ hseen' _ => exact absurd hseen' hseen
      | body _ hfits' hp' =>
        intro r c' r' d' hrun hrun'
        obtain ⟨r₁, c₁, rs, h₁, h₂, rfl⟩ := exists_of_run_checkPlanned hrun
        obtain ⟨r₁', d₁, rs', k₁, k₂, rfl⟩ := exists_of_run_checkPlanned hrun'
        have hw := walked_functionBody ht.alike.sound ht.sits hfits h₁
        have hw' := walked_functionBody ht.alike.sound' ht.sits' hfits' k₁
        obtain ⟨e, e', ok, ρ₁, rfl, rfl, hst₁⟩ := both_functionBody hpart hf ht hfits hfits' _ _ _ _ h₁ k₁
        obtain ⟨ρ', hst₂, hok⟩ := ih hparts hes hst₁.twin (hp.walked ht.alike.sound hw)
          (hp'.walked ht.alike.sound' hw') _ _ _ _ h₂ k₂
        refine ⟨ρ', ?_, congrArg (ok && ·) hok⟩
        dsimp only
        rw [liveDecs_of_not_mem (k := .function) (by rfl) (by exact hseen),
          liveDecs_of_not_mem (k := .function) (by rfl) (by exact hseen)]
        exact hst₁.seq hst₂

/-! ## The bodies of a run, in another order -/

/-- The check of the body of a function: the states where it begins and where it ends, and whether the
function is right. -/
structure BodyRun where
  start : Checker
  stop : Checker
  ok : Bool

/-- The body of a function was checked, after the functions of its run were bound. -/
inductive BodyRun.Checks (ctx : Context) (c₀ : Checker) : Dec → BodyRun → Prop where
  | mk {head : FunctionHead} {body : Exp} {loc : Location} {id : Option FunctionId} {g : Header}
      {c c' : Checker} {r : Dec × Bool} : g.Fits ctx head c₀ → c₀.Walked c →
      (checkDec ctx (.functionBody g) (.function head body loc id)).run c = .ok (r, c') →
      BodyRun.Checks ctx c₀ (.function head body loc id) ⟨c, c', r.2⟩

/-- Bodies were checked one after another. -/
inductive BodyRun.Chain : Checker → List BodyRun → Checker → Prop where
  | nil {c : Checker} : BodyRun.Chain c [] c
  | cons {c c₁ c' : Checker} {ok : Bool} {bs : List BodyRun} :
      BodyRun.Chain c₁ bs c' → BodyRun.Chain c (⟨c, c₁, ok⟩ :: bs) c'

theorem BodyRun.Chain.gains {bs : List BodyRun} {gs : List Gain} (h : BodyRun.Chain c bs c')
    (hg : List.Forall₂ (fun b g => b.start.Gains g b.stop) bs gs) : c.Gains (.seqAll gs) c' := by
  induction h generalizing gs with
  | nil =>
    cases hg
    exact .refl _
  | cons _ ih =>
    cases hg with
    | cons hb hg => exact hb.seq (ih hg)

/-- The bodies of a run in which no name occurs twice were all checked. -/
theorem Planned.exists_chain (h : Planned ctx c₀ seen plans ds) (hc₀ : c₀.Sound)
    (hn : (ds.map (·.name.name)).Nodup) : (∀ x ∈ ds, x.name.name ∉ seen) →
    ∀ {c : Checker} {r : List Dec × Bool}, c₀.Walked c → ctx.Sits c →
      (checkPlanned ctx plans ds).run c = .ok (r, c') →
      ∃ bs, List.Forall₂ (BodyRun.Checks ctx c₀) ds bs ∧ BodyRun.Chain c bs c' ∧ c₀.Walked c' ∧
        r.2 = bs.all (·.ok) := by
  induction h with
  | nil =>
    intro _ c r hw _ hrun
    cases hrun
    exact ⟨[], .nil, .nil, hw, rfl⟩
  | dropped _ hseen _ _ => exact fun hall => absurd hseen (hall _ List.mem_cons_self)
  | body hseen hfits _ ih =>
    intro hall c r hw hs hrun
    obtain ⟨hx, hn⟩ := List.nodup_cons.mp hn
    obtain ⟨r₁, c₁, r₂, h₁, h₂, rfl⟩ := exists_of_run_checkPlanned hrun
    have hw₁ := walked_functionBody hw.sound hs (hfits.extends hc₀.rest hw.grown hw.scopes.typeNames_eq) h₁
    obtain ⟨bs, hbs, hchain, hwalked, hok⟩ := ih hn (by
      intro y hy hmem
      rcases List.mem_cons.mp hmem with heq | hmem
      · exact hx (List.mem_map.mpr ⟨y, hy, heq⟩)
      · exact hall y (List.mem_cons_of_mem _ hy) hmem) (hw.trans hw₁) (hs.walked hw₁) h₂
    exact ⟨⟨c, c₁, r₁.2⟩ :: bs, .cons (.mk hfits hw h₁) hbs, .cons hchain, hwalked,
      congrArg (r₁.2 && ·) hok⟩

/-- **A body adds the same on both sides**, whichever bodies are checked before it. -/
theorem BodyRun.Checks.alike {x y : Dec} {a b : BodyRun} (ht : Twin ρ ctx ctx' c₀ d₀)
    (ha : BodyRun.Checks ctx c₀ x a) (hb : BodyRun.Checks ctx' d₀ y b) (hxy : x.Reordered free y)
    (h : x.Parts (ExpTwinned free)) : a.ok = b.ok ∧
      ∃ g k, a.start.Gains g a.stop ∧ b.start.Gains k b.stop ∧ g.Alike free k := by
  cases ha with
  | mk hfits hw hrun =>
    obtain ⟨f, rfl, hf⟩ := hxy
    cases hb with
    | mk hfits' hw' hrun' =>
      have hfits₁ := hfits.extends ht.alike.sound.rest hw.grown hw.scopes.typeNames_eq
      have hfits₁' := hfits'.extends ht.alike.sound'.rest hw'.grown hw'.scopes.typeNames_eq
      obtain ⟨e, e', ok, ρ', rfl, rfl, hst⟩ :=
        both_functionBody h hf (ht.apart hw hw') hfits₁ hfits₁' _ _ _ _ hrun hrun'
      exact ⟨rfl, hst.grows.gains⟩

/-- Bodies that add the same one by one add the same in all. -/
theorem BodyRun.exists_gains {bs bs' : List BodyRun} (h : List.Forall₂ (fun a b : BodyRun => a.ok = b.ok ∧
    ∃ g k, a.start.Gains g a.stop ∧ b.start.Gains k b.stop ∧ g.Alike free k) bs bs') :
    bs.all (·.ok) = bs'.all (·.ok) ∧ ∃ gs ks, List.Forall₂ (fun b g => b.start.Gains g b.stop) bs gs ∧
      List.Forall₂ (fun b g => b.start.Gains g b.stop) bs' ks ∧ List.Forall₂ (Gain.Alike free) gs ks := by
  induction h with
  | nil => exact ⟨rfl, [], [], .nil, .nil, .nil⟩
  | cons hab _ ih =>
    obtain ⟨hok, g, k, hg, hk, hgk⟩ := hab
    obtain ⟨hoks, gs, ks, hgs, hks, hall⟩ := ih
    exact ⟨by rw [List.all_cons, List.all_cons, hok, hoks], g :: gs, k :: ks, .cons hg hgs, .cons hk hks,
      .cons hgk hall⟩

/-- **The bodies of a run add the same in every order.** -/
theorem bodies_permuted {ds' : List Dec} {r r' : List Dec × Bool} (hf : free)
    (h : ∀ x ∈ ds, x.Parts (ExpTwinned free)) (hds : reorderedDecs free ds ds')
    (hn : (ds'.map (·.name.name)).Nodup) (hperm : ds'.Perm es) (ht : Twin ρ ctx ctx' c d)
    (hp : Planned ctx c [] plans ds) (hp' : Planned ctx' d [] plans' es)
    (hrun : (checkPlanned ctx plans ds).run c = .ok (r, c'))
    (hrun' : (checkPlanned ctx' plans' es).run d = .ok (r', d')) :
    After free ρ ctx ctx' c d ρ c' d' ∧ r.2 = r'.2 := by
  rw [reorderedDecs_iff] at hds
  have hnames : ds.map (·.name.name) = ds'.map (·.name.name) := by
    rw [← List.forall₂_eq_eq_eq, List.forall₂_map_left_iff, List.forall₂_map_right_iff]
    exact hds.imp fun _ _ hxy => by rw [hxy.name_eq]
  obtain ⟨as, has, hchain, hw, hok⟩ := hp.exists_chain ht.alike.sound (by rw [hnames]; exact hn)
    (fun _ _ => List.not_mem_nil) (.refl ht.alike.sound) ht.sits hrun
  obtain ⟨bs, hbs, hchain', hw', hok'⟩ := hp'.exists_chain ht.alike.sound'
    ((hperm.map _).nodup_iff.mp hn) (fun _ _ => List.not_mem_nil) (.refl ht.alike.sound') ht.sits' hrun'
  -- the checks of the second run in the order of the first
  obtain ⟨bs', hbs', hperm'⟩ := List.perm_comp_forall₂ hperm hbs
  have hpairs : List.Forall₂ (fun a b : BodyRun => a.ok = b.ok ∧
      ∃ g k, a.start.Gains g a.stop ∧ b.start.Gains k b.stop ∧ g.Alike free k) as bs' := by
    clear hnames hn hperm hp hp' hrun hrun' hchain hchain' hok hok' hbs hperm'
    induction hds generalizing as bs' with
    | nil =>
      cases has
      cases hbs'
      exact .nil
    | cons hxy _ ih =>
      obtain ⟨hpart, hparts⟩ := List.forall_mem_cons.mp h
      cases has with
      | cons ha has =>
        cases hbs' with
        | cons hb hbs' => exact .cons (ha.alike ht hb hxy hpart) (ih hparts _ has _ hbs')
  obtain ⟨hoks, gs, ks, hgs, hks, halike⟩ := BodyRun.exists_gains hpairs
  obtain ⟨ks', hks', hpermGains⟩ := List.perm_comp_forall₂ hperm'.symm hks
  have hgains : (Gain.seqAll gs).Alike free (.seqAll ks') :=
    (Gain.alike_seqAll halike).trans (Gain.alike_seqAll_of_perm hf hpermGains.symm)
  refine ⟨⟨⟨⟨_, _, hchain.gains hgs, hchain'.gains hks', hgains⟩, (ht.apart hw hw').alike.mirrors,
    fun _ _ hst => hst, fun _ _ => .old⟩, ht.apart hw hw'⟩, ?_⟩
  rw [hok, hok', hoks, hperm'.all_eq]

/-! ## A run of functions -/

/-- **A run of functions is checked alike on both sides**, also in another order. -/
theorem both_functionRun {x y : Dec} {ds₁ : List Dec} (hk : ∀ z ∈ x :: ds, z.kind = .function)
    (hk' : ∀ z ∈ y :: es, z.kind = .function) (h : ∀ z ∈ x :: ds, z.Parts (ExpTwinned free))
    (hds : reorderedDecs free (x :: ds) ds₁) (hes : Dec.RunReordered free ds₁ (y :: es))
    (ht : Twin ρ ctx ctx' c d) :
    Both (checkRun ctx (x :: ds)) (checkRun ctx' (y :: es)) c d fun r r' c' d' => ∃ ρ',
      Stretch free ρ ctx ctx' c d (tysDecs (liveDecs ⟨some .function, []⟩ r.1))
        (tysDecs (liveDecs ⟨some .function, []⟩ r'.1)) ρ' c' d' ∧ r.2 = r'.2 := by
  intro r c' r' d' hrun hrun'
  obtain ⟨plans, c₁, hopen, hrun⟩ := exists_of_run_bind hrun
  obtain ⟨plans', d₁, hopen', hrun'⟩ := exists_of_run_bind hrun'
  have hbind := run_bindHeaders_of_openRun (by rw [hk x List.mem_cons_self]; decide) hopen
  have hbind' := run_bindHeaders_of_openRun (by rw [hk' y List.mem_cons_self]; decide) hopen'
  have hw := Checker.walked_note ht.alike.sound (.run x.kind (ds.length + 1))
  have hw' := Checker.walked_note ht.alike.sound' (.run y.kind (es.length + 1))
  have hnoted := (Stretch.noted ht _ _ : Stretch free ρ ctx ctx' c d [] [] ρ (c.note (.run x.kind (ds.length + 1)))
    (d.note (.run y.kind (es.length + 1))))
  have hheads : SameHeads free (functionHeads (x :: ds)) (functionHeads (y :: es)) :=
    functionHeads_eq_of_reordered hds ▸ hes.sameHeads
  have hbound := hnoted.after (hnoted.twin.bindFunctions hk hk' hheads hbind hbind')
  have hp := (bindsFunctions_of_openRun hk ht.alike.sound ht.sits hopen).planned hk hw.sound (ht.sits.walked hw)
  have hp' := (bindsFunctions_of_openRun hk' ht.alike.sound' ht.sits' hopen').planned hk' hw'.sound
    (ht.sits'.walked hw')
  generalize hys : y :: es = ys at hes hrun' hp'
  cases hes with
  | same =>
    obtain ⟨ρ', hst, hok⟩ := both_functionBodies h hds hbound.twin hp hp' _ _ _ _ hrun hrun'
    exact ⟨ρ', hbound.seq hst, hok⟩
  | permuted hf _ hn hperm =>
    obtain ⟨hafter, hok⟩ := bodies_permuted hf h hds hn hperm hbound.twin hp hp' hrun hrun'
    exact ⟨ρ, ⟨(hbound.after hafter).toAfter, fun hnot => absurd hf hnot⟩, hok⟩

end TigerCheck
