import TigerCheck.Proofs.Typing.Inversion
import TigerCheck.Proofs.Typing.Judged

/-!
# Checking a run of functions decides whether it is right

The functions of a run are bound with their signatures before any of their bodies is checked. So if
nothing is reported while they are bound, the environment has all of them, and each body is checked in
this environment with the parameters of its function.

* `Checker.signs_iff`: what a head declares.
* `BindsFunctions.judged`: binding the functions of a run.
* `Checker.env_bindAll`: binding the parameters of a function.
* **`judged_functionBody`**, **`judged_functionBodies`**: the bodies of a run.
-/

namespace TigerCheck

open Check

variable {ctx : Context} {c c₀ c₁ c' : Checker} {ν : Renaming} {n n' : ℕ} {head : FunctionHead}
  {s : Signature} {name : String}

namespace Checker

/-- **What a head declares** in the environment of a state is the signature that is found. -/
theorem signs_iff : (c.env ν).Signs head s ↔ ∃ s', c.signatureOf head = some s' ∧ s = s'.rename ν := by
  have hsplit : (c.env ν).Signs head s ↔
      List.Forall₂ (fun (p : TypedName) u => ∃ t, c.typeNamed p.typeName.name = some t ∧
        t.rename ν = u) head.params s.params ∧
      ∃ r, c.resultOf head = some r ∧ r.rename ν = s.result := by
    refine and_congr (by simp only [env_types, Option.map_eq_some_iff]) ?_
    unfold resultOf
    cases head.result with
    | none => simp [Ty.rename, eq_comm]
    | some m => simp only [env_types, Option.map_eq_some_iff]
  simp only [hsplit, signatureOf_eq_some_iff, mapM_eq_some_iff]
  constructor
  · rintro ⟨hps, r, hr, hres⟩
    obtain ⟨ts, hts, hmap⟩ := exists_eq_map_of_forall₂ hps
    refine ⟨⟨ts, r⟩, ⟨hts, hr⟩, ?_⟩
    cases s
    cases hmap
    cases hres
    rfl
  · rintro ⟨s', ⟨hps, hr⟩, rfl⟩
    exact ⟨List.forall₂_map_right_iff.mpr (hps.imp fun p t ht => ⟨t, ht, rfl⟩), s'.result, hr, rfl⟩

end Checker

/-! ## Binding the functions of a run -/

namespace DeclaresFunction

variable {h : Header}

theorem lookup_eq (hd : DeclaresFunction ctx head c h c₁) (name : String) : c₁.functions.lookup name =
    if name = head.name.name then some h.id else c.functions.lookup name := by
  rw [hd.functions_eq, Scopes.lookup_bind]

/-- The name of a declared function stands for the declared signature, and other names for what they stood
for. -/
theorem signed_eq (hd : DeclaresFunction ctx head c h c₁) (hc : c.Sound) (name : String) :
    c₁.signed name = if name = head.name.name then c.signatureOf head else c.signed name := by
  have hlookup := hd.lookup_eq name
  split
  · next heq =>
    rw [if_pos heq] at hlookup
    obtain ⟨p, link, hp, ho, hsig⟩ := hd.fits.prototype
    rw [hc.rest.signatureOf_eq hd.declared.grown hd.typeNames_eq] at hsig
    have hhidden : p.hiddenParams = 1 := by rw [Prototype.hiddenParams, ho]
    rw [Checker.signed, hlookup]
    cases hs : c.signatureOf head with
    | none => simp [hp, hsig, hs]
    | some s => simp [hp, hsig, hs, hhidden]
  · next hne =>
    rw [if_neg hne] at hlookup
    rw [Checker.signed, Checker.signed, hlookup]
    cases hl : c.functions.lookup name with
    | none => rfl
    | some id =>
      obtain ⟨p, hp⟩ := hc.functions name id hl
      simp only [bind, Option.bind_some, hp, hd.declared.grown.frames.function id p hp]

/-- **Behind the declaration of a function the environment has it.** -/
theorem env_eq (hd : DeclaresFunction ctx head c h c₁) (hc : c.Sound) (hs : ctx.Sits c)
    (hsig : c.signatureOf head = some s) :
    c₁.env ν = (c.env ν).bindFunction head.name.name (s.rename ν) := by
  have hvalues : (c₁.env ν).values = (c.env ν).values := by
    funext x
    rw [Checker.env_values, Checker.env_values,
      Checker.valueTy_eq hs hd.declared.grown hd.values_eq]
  have hfunctions : (c₁.env ν).functions =
      ((c.env ν).bindFunction head.name.name (s.rename ν)).functions := by
    funext x
    change (c₁.signed x).map _ = Function.update (c.env ν).functions head.name.name _ x
    rw [hd.signed_eq hc, hsig, Function.update_apply]
    split
    · rfl
    · rfl
  have htypes : (c₁.env ν).types = (c.env ν).types := by
    funext x
    rw [Checker.env_types, Checker.env_types,
      hc.rest.typeNamed_eq hd.declared.grown hd.typeNames_eq]
  exact Env.ext hvalues hfunctions htypes

theorem fine (hd : DeclaresFunction ctx head c h c₁) (hc : c.Sound) (hs : ctx.Sits c)
    (hf : c.Fine ν n) (hsig : c.signatureOf head = some s) : c₁.Fine ν n where
  clean := hd.same.clean hf.clean
  elements := by
    rw [hd.same.types_eq]
    exact hf.elements
  fits := by
    rw [hd.same.types_eq]
    exact hf.fits
  values x v hv := by
    rw [hd.values_eq] at hv
    rw [Checker.valueTy_eq hs hd.declared.grown hd.values_eq]
    exact hf.values x v hv
  functions x f hl := by
    rw [hd.signed_eq hc, hsig]
    split
    · exact ⟨s, rfl⟩
    · next hne =>
      rw [hd.lookup_eq, if_neg hne] at hl
      exact hf.functions x f hl

end DeclaresFunction

/-- **Binding the functions of a run decides whether they are declared right.** -/
theorem BindsFunctions.judged {seen : List String} {ds : List Dec} {plans : List Plan}
    (h : BindsFunctions ctx seen ds c plans c') : c.Sound → ctx.Sits c → c.Fine ν n →
    Judged c ν c' n (fun _ Γ' => FunctionsDeclared seen (c.env ν) ds Γ')
      fun ν' Γ' => Γ' = c'.env ν' ∧ .dropped ∉ plans ∧ ∀ head body loc id,
        Dec.function head body loc id ∈ ds → ∃ s, c'.signatureOf head = some s := by
  induction h with
  | nil =>
    intro _ _ hf
    refine .same hf ⟨rfl, by simp, by simp⟩ fun b _ Γ' => functionsDeclared_nil_iff
  | @dropped seen d ds c c' plans hseen hrest _ =>
    intro hc hs _
    have hw := Checker.walked_reported hc (.duplicateDefinition d.name.name) d.name.loc
    have hle := (hrest.declared hw.sound (hs.walked hw)).grown.diagnostics_le
    refine .wrong (Nat.lt_of_lt_of_le (c.lt_reported _ _) hle) fun b _ Γ' hΓ => ?_
    exact hΓ.head_not_mem.2 hseen
  | @bound seen head body loc id ds c c₁ c' h plans hseen hd hrest ih =>
    intro hc hs hf
    have hg := (hrest.declared hd.declared.sound hd.declared.sits).grown
    refine Judged.of_iff ?_ fun b Γ' => functionsDeclared_cons_iff
    cases hsig : c.signatureOf head with
    | none =>
      have hlt : c.diagnostics.size < c₁.diagnostics.size := by
        have hq := (hd.quiet hf.clean).not
        have hle := hd.declared.grown.diagnostics_le
        rw [hsig] at hq
        simp only [ne_eq, not_true_eq_false, not_false_eq_true, iff_true] at hq
        omega
      refine .wrong (Nat.lt_of_lt_of_le hlt hg.diagnostics_le) fun b _ Γ' hΓ => ?_
      obtain ⟨-, s, hs', -⟩ := hΓ
      obtain ⟨s', hs', -⟩ := Checker.signs_iff.mp hs'
      rw [hsig] at hs'
      cases hs'
    | some s =>
      have hq := (hd.quiet hf.clean).mpr (by rw [hsig]; simp)
      have hrun := ih hd.declared.sound hd.declared.sits (hd.fine hc hs hf hsig)
      rw [hd.env_eq hc hs hsig] at hrun
      have hnames : c'.signatureOf head = some s := by
        rw [← hsig, ← hc.rest.signatureOf_eq hd.declared.grown hd.typeNames_eq,
          hd.declared.sound.rest.signatureOf_eq hg hrest.scopes_eq.2]
      have hall : Judged c ν c' n (fun _ Γ' => FunctionsDeclared (head.name.name :: seen)
          ((c.env ν).bindFunction head.name.name (s.rename ν)) ds Γ')
          fun ν' Γ' => Γ' = c'.env ν' ∧ .dropped ∉ plans ∧ ∀ head body loc id,
            Dec.function head body loc id ∈ ds → ∃ s, c'.signatureOf head = some s :=
        hrun.within hq.symm hd.same.types_eq.symm rfl rfl fun _ h => h
      refine (hall.map (f := fun Γ' => Γ') fun ν' Γ' _ _ hΓ => ?_).of_iff fun b Γ' => ?_
      · refine ⟨hΓ.1, by simp [hΓ.2.1], fun head' body' loc' id' hmem => ?_⟩
        rcases List.mem_cons.mp hmem with heq | hmem
        · cases heq
          exact ⟨s, hnames⟩
        · exact hΓ.2.2 head' body' loc' id' hmem
      · constructor
        · rintro ⟨-, s', hs', hrest'⟩
          obtain ⟨s'', hs'', rfl⟩ := Checker.signs_iff.mp hs'
          rw [hsig] at hs''
          cases hs''
          exact ⟨Γ', hrest', rfl⟩
        · rintro ⟨_, hrest', rfl⟩
          exact ⟨hseen, s.rename ν, Checker.signs_iff.mpr ⟨s, hsig, rfl⟩, hrest'⟩

/-! ## The bodies of a run -/

/-- **Behind the binding of the parameters the environment has them**, with their declared types. -/
theorem Checker.env_bindAll {ps : List TypedName} {vs : List VarId}
    (hps : ParamSlots c ctx.frame ps vs) (hc : c.Sound) : ∀ {values : Scopes VarId} {ts : List Ty},
    List.Forall₂ (fun (p : TypedName) t => c.typeNamed p.typeName.name = some t) ps ts →
    ctx.Sits { c with values } → Fine { c with values } ν n →
      env { c with values := values.bindAll ps vs } ν =
          (env { c with values } ν).bindParams ps (ts.map (·.rename ν)) ∧
        Fine { c with values := values.bindAll ps vs } ν n := by
  induction hps with
  | nil =>
    intro values ts hts _ hf
    cases hts
    exact ⟨rfl, hf⟩
  | @cons p v ps vs hp _ ih =>
    intro values ts hts hs hf
    cases hts with
    | @cons _ t _ ts ht hts =>
      obtain ⟨s, hs', hty, hframe⟩ := hp
      have hbind : BindsValue { c with values } p.name.name t c.frames
          (values.bind p.name.name v) := by
        refine ⟨.refl _, ⟨v, s, by rw [Scopes.lookup_bind, if_pos rfl], hs', hty.trans ht⟩, ?_⟩
        intro x hx
        rw [Scopes.lookup_bind, if_neg hx]
      have hsits : ctx.Sits { c with values := values.bind p.name.name v } :=
        Context.Sits.bindValue (c := { c with values }) hs hs' (by rw [hframe]; exact .self) _
      obtain ⟨henv, hfine⟩ := ih hts hsits (hbind.fine (hc.withValues values) hs hf)
      refine ⟨?_, hfine⟩
      rw [Scopes.bindAll, henv, List.map_cons, Env.bindParams]
      exact congrArg (fun Γ : Env => Γ.bindParams ps _) (hbind.env_eq (hc.withValues values) hs ν)

section

variable {h : Header} {body : Exp} {loc : Location} {id : Option FunctionId}

/-- A body is checked in the environment with the parameters bound. -/
theorem Header.Fits.env_inBody (hfits : h.Fits ctx head c) (hc : c.Sound) (hs : ctx.Sits c)
    (hf : c.Fine ν n) (hsig : c.signatureOf head = some s) :
    (c.inBody head h).env ν = (c.env ν).bindParams head.params (s.rename ν).params ∧
      (c.inBody head h).Fine ν n := by
  have hent := hfits.sits hs
  have hsits : Context.Sits ⟨h.level, h.frame, 0⟩ { c with values := c.values.enter } :=
    ⟨hent.frame, hent.values⟩
  have hfine : Checker.Fine { c with values := c.values.enter } ν n :=
    ⟨hf.clean, hf.elements, hf.fits, hf.values, hf.functions⟩
  exact Checker.env_bindAll (by exact hfits.params) hc
    (mapM_eq_some_iff.mp (Checker.signatureOf_eq_some_iff.mp hsig).1) hsits hfine

/-- **The check of a body decides its typing** with the parameters bound, and whether the function gives
what it declares. -/
theorem judged_functionBody {r : Dec × Bool} (hbody : ExpJudged body) (hc : c.Sound)
    (hs : ctx.Sits c) (hf : c.Fine ν n) (hfits : h.Fits ctx head c)
    (hsig : c.signatureOf head = some s)
    (hrun : (checkDec ctx (.functionBody h) (.function head body loc id)).run c = .ok (r, c')) :
    Judged c ν c' (n + body.typeDecs)
      (fun b (_ : Unit) => ∃ s, (c.env ν).Signs head s ∧ ∃ t,
        body.Typed b ((c.env ν).bindParams head.params s.params) n false t ∧ ResultOk b s.result t)
      fun _ _ => r.2 = true := by
  obtain ⟨body', c₁, frames, ok, h₁, hfin, h₂, rfl⟩ := exists_of_run_bodyOf hc hs hfits hrun
  have hd : (c.inBody head h).Sound := hc.withValues _
  have hsd := hfits.sits_inBody hs
  obtain ⟨hw₁, hhas⟩ := walked_exp hd hsd h₁
  obtain ⟨hw₂, hg₂⟩ := hfits.close hc hw₁ hfin
  have hresult : h.result = some s.result := by rw [hfits.result, hsig, Option.map_some]
  have hhasResult := hc.rest.has_resultOf (Checker.signatureOf_eq_some_iff.mp hsig).2
  have hclosed := hw₂.sound.rest.closed
  have hresults : ∀ t, h.result = some t → c₁.types.Has t := by
    rw [hresult]
    rintro t ⟨⟩
    exact hw₂.has hhasResult
  have hrule := (Rule.yields_body hclosed hresults hhas).of_run h₂
  have hw₃ := hrule.toSays.walked hw₂.sound
  obtain ⟨henv, hfine⟩ := hfits.env_inBody hc hs hf hsig
  have hbodyJudged : Judged (c.inBody head h) ν c' (n + body.typeDecs)
      (fun b (_ : Unit) => ∃ t, body.Typed b ((c.inBody head h).env ν) n false t ∧
        ResultOk b (s.result.rename ν) t) fun _ _ => ok = true := by
    refine hbody.bind hd hsd hfine h₁ (hg₂.trans hw₃.grown) fun ν₁ t ht hag₁ _ hf₁ => ?_
    change body'.mark.ty = some t at ht
    have hf₂ := hf.rescope hc hs hw₂ hf₁ rfl rfl
    have hok := hrule.judged (ν := ν₁) (J := fun b => ResultOk b (s.result.rename ν) (t.rename ν₁))
      (by simp [ht, hresult]) hf₂ fun b hb => ?_
    · exact hok.within rfl rfl rfl rfl fun _ h => h
    · have hsame : s.result.rename ν₁ = s.result.rename ν := hag₁.rename_eq hhasResult
      rw [← hsame]
      simp only [ResultOk, Rule.BodyOk, ht, hresult, Option.some.injEq, exists_and_left,
        exists_eq_left', Ty.rename_eq_void_iff]
      rw [hb.same_iff hf₂.fits hclosed (hw₂.has hhasResult) (hhas t ht)]
  refine Judged.of_iff (hbodyJudged.within rfl rfl rfl rfl fun _ h => h) fun b _ => ?_
  rw [henv]
  constructor
  · rintro ⟨s', hs', t, ht, hok⟩
    obtain ⟨s'', hs'', rfl⟩ := Checker.signs_iff.mp hs'
    rw [hsig] at hs''
    cases hs''
    exact ⟨t, ht, hok⟩
  · rintro ⟨t, ht, hok⟩
    exact ⟨s.rename ν, Checker.signs_iff.mpr ⟨s, hsig, rfl⟩, t, ht, hok⟩

/-- **The checks of the bodies of a run decide their typing.** -/
theorem judged_functionBodies {plans : List Plan} {ds : List Dec} (hc₀ : c₀.Sound)
    (hfits : List.Forall₂ (Plan.Fits ctx c₀) plans ds) (hplans : .dropped ∉ plans)
    (hsigs : ∀ head body loc id, Dec.function head body loc id ∈ ds →
      ∃ s, c₀.signatureOf head = some s)
    (h : ∀ d ∈ ds, d.Parts ExpJudged) : ∀ {c c' : Checker} {ν : Renaming} {n : ℕ}
    {r : List Dec × Bool}, c₀.Walked c → ctx.Sits c → c.Fine ν n →
      (checkPlanned ctx plans ds).run c = .ok (r, c') →
      Judged c ν c' (n + typeDecsDecs ds) (fun b (_ : Unit) => BodiesTyped b (c.env ν) n ds)
        fun _ _ => r.2 = true := by
  induction hfits with
  | nil =>
    intro c c' ν n r _ _ hf hrun
    cases hrun
    exact .same (x := ()) hf rfl fun b _ y => iff_of_true .nil rfl
  | @cons plan d plans ds hd _ ih =>
    intro c c' ν n r hw hs hf hrun
    obtain ⟨hpart, hparts⟩ := List.forall_mem_cons.mp h
    cases hd with
    | dropped => exact absurd List.mem_cons_self hplans
    | @functionBody g head body loc id hfit =>
      obtain ⟨s, hsig⟩ := hsigs head body loc id List.mem_cons_self
      obtain ⟨r₁, c₁, r₂, h₁, h₂, rfl⟩ := exists_of_run_checkPlanned hrun
      have hgfits := hfit.extends hc₀.rest hw.grown hw.scopes.typeNames_eq
      have hw₁ := walked_functionBody hw.sound hs hgfits h₁
      have hs₁ := hs.walked hw₁
      have hw₂ := walked_functionBodies hc₀ ‹_› (hw.trans hw₁) hs₁ h₂
      have hbody := judged_functionBody hpart hw.sound hs hf hgfits
        (by rw [hc₀.rest.signatureOf_eq hw.grown hw.scopes.typeNames_eq, hsig]) h₁
      refine Judged.of_iff ?_ fun b _ => bodiesTyped_cons_iff
      refine hbody.and hw₁.grown hw₁.sound.rest.closed hw₂.grown fun ν₁ hok hag₁ hf₁ => ?_
      have hrest := ih (fun hmem => hplans (List.mem_cons_of_mem _ hmem))
        (fun head body loc id hmem => hsigs head body loc id (List.mem_cons_of_mem _ hmem)) hparts
        (hw.trans hw₁) hs₁ hf₁ h₂
      rw [hw₁.env_eq hw.sound hs hag₁, Nat.add_assoc] at hrest
      refine (hrest.map (f := fun _ => ()) fun ν' _ _ _ hoks => ?_).of_iff fun b _ => by simp
      simp [hok, hoks]

end

/-! ## A run of functions -/

/-- **The check of a run of functions decides whether it is right.** -/
theorem judged_functionRun {d : Dec} {ds : List Dec} (hk : ∀ e ∈ d :: ds, e.kind = .function)
    (h : ∀ e ∈ d :: ds, e.Parts ExpJudged) (hc : c.Sound) (hs : ctx.Sits c) (hf : c.Fine ν n)
    {plans : List Plan} {r : List Dec × Bool}
    (hopen : (openRun ctx (d :: ds)).run c = .ok (plans, c₁))
    (hrun : (checkPlanned ctx plans (d :: ds)).run c₁ = .ok (r, c')) :
    Judged c ν c' (n + typeDecsDecs (d :: ds))
      (fun b Γ' => FunctionsDeclared [] (c.env ν) (d :: ds) Γ' ∧ BodiesTyped b Γ' n (d :: ds))
      fun ν' Γ' => Γ' = c'.env ν' ∧ r.2 = true := by
  have hw := Checker.walked_note hc (.run d.kind (ds.length + 1))
  have hs' := hs.walked hw
  have hbinds := bindsFunctions_of_openRun hk hc hs hopen
  have hd := hbinds.declared hw.sound hs'
  have hfits := hbinds.fits hw.sound hs'
  have hf' : (c.note (.run d.kind (ds.length + 1))).Fine ν n :=
    ⟨hf.clean, hf.elements, hf.fits, hf.values, hf.functions⟩
  have hw₂ := walked_functionBodies hd.sound hfits (.refl hd.sound) hd.sits hrun
  have hwhole : Judged c ν c' (n + typeDecsDecs (d :: ds))
      (fun b Γ' => ∃ Γ₁, FunctionsDeclared [] (c.env ν) (d :: ds) Γ₁ ∧
        BodiesTyped b Γ₁ n (d :: ds) ∧ Γ' = Γ₁)
      fun ν' Γ' => Γ' = c'.env ν' ∧ r.2 = true := by
    refine Judged.within (c := c.note (.run d.kind (ds.length + 1))) ?_ rfl rfl rfl rfl fun _ h => h
    refine (hbinds.judged hw.sound hs' hf').bind hd.grown hd.sound.rest.closed hw₂.grown
      fun ν₁ Γ₁ hΓ _ hf₁ => ?_
    obtain ⟨rfl, hplans, hsigs⟩ := hΓ
    have hbodies := judged_functionBodies hd.sound hfits hplans hsigs h (.refl hd.sound) hd.sits hf₁
      hrun
    refine (hbodies.map (f := fun _ => c₁.env ν₁) fun ν' _ hag₂ _ hok => ?_).of_iff fun b Γ' => ?_
    · exact ⟨(hw₂.env_eq hd.sound hd.sits hag₂).symm, hok⟩
    · simp
  refine hwhole.of_iff fun b Γ' => ?_
  constructor
  · rintro ⟨hdecl, hbodies⟩
    exact ⟨Γ', hdecl, hbodies, rfl⟩
  · rintro ⟨Γ₁, hdecl, hbodies, rfl⟩
    exact ⟨hdecl, hbodies⟩

end TigerCheck
