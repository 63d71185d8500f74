import Mathlib.Data.List.TakeWhile
import TigerCheck.Proofs.Walk.Exp
import TigerCheck.Proofs.Walk.Header

/-!
# Declarations and let blocks

The declarations of a block are checked run by run, and each kind of runs in its own way. Behind a block
the scopes are as before it. With that every form of node is covered, so the check of every program ends
as it should.

* `DecEnds`: how the check of declarations ends.
* `BindsTypes.declared`, `yieldsOr_functionBodies`, `yieldsOr_variables`: the three kinds of runs.
* **`yieldsOr_declarations`**: the declarations of a block.
* **`expWalks`**: every expression. **`yieldsOr_checkProgram`**: the whole program.
-/

namespace TigerCheck

open Check

/-- What is to be shown of a declaration is shown of the expression in it. -/
def Dec.Parts (P : Exp → Prop) : Dec → Prop
  | .type _ => True
  | .function _ body _ _ => P body
  | .var _ _ init _ _ => P init

/-- The check of declarations ended. -/
structure DecEnds (ctx : Context) (fresh : Prop) (uses : FrameTable → List Use) (c c' : Checker) :
    Prop where
  declared : c.Declared ctx c'
  reaches : fresh → ∀ t, t.Linked → c'.frames.Grows t → ∀ u ∈ uses t, t.Reaches u

section

variable {ctx : Context} {c c' c₀ : Checker} {fresh fresh' : Prop}
  {uses uses' : FrameTable → List Use}

theorem DecEnds.seq {c₁ : Checker} (h : DecEnds ctx fresh uses c c₁)
    (h' : DecEnds ctx fresh' uses' c₁ c') :
    DecEnds ctx (fresh ∧ fresh') (fun t => uses t ++ uses' t) c c' where
  declared := h.declared.trans h'.declared
  reaches hf t ht hg := List.forall_mem_append.mpr
    ⟨h.reaches hf.1 t ht (h'.declared.grown.frames.trans hg), h'.reaches hf.2 t ht hg⟩

theorem DecEnds.none (hd : c.Declared ctx c') : DecEnds ctx fresh (fun _ => []) c c' :=
  ⟨hd, fun _ _ _ _ => List.forall_mem_nil _⟩

/-- A declaration that is left as it was has no uses if it had none before. -/
theorem DecEnds.unchanged {d : Dec} (hd : c.Declared ctx c') :
    DecEnds ctx d.Unbound (fun t => d.uses t ctx.frame ctx.level) c c' :=
  ⟨hd, fun hf t _ _ => by rw [Dec.uses_eq_nil hf]; exact List.forall_mem_nil _⟩

/-! ## Runs of types -/

/-- **A run of types leaves a state between runs behind**, with its names in scope. -/
theorem BindsTypes.declared {ds kept : List TypeDec} {plans : List Plan} {own : Owners}
    {rs : List (Option Ty)} (h : BindsTypes [] ds c plans kept c₀) (hc : c.Sound) (hs : ctx.Sits c)
    (hf : Finds [] (kept.map (·.name)) c₀ rs c') (hb : Building c₀ own c') : c.Declared ctx c' := by
  obtain ⟨htypes, hvalues, hfunctions, hframes, hmain, hnames⟩ := h.others_eq
  have hvalues' : c'.values = c.values := hb.advances.values_eq.trans hvalues
  have hfunctions' : c'.functions = c.functions := hb.advances.functions_eq.trans hfunctions
  have hframes' : c'.frames = c.frames := hb.advances.frames_eq.trans hframes
  have hg : c.Extends c' := by
    refine ⟨fun id s hst => ?_, fun t s hsh => hb.kept t s (htypes ▸ hsh), ?_,
      Nat.le_trans h.diagnostics_le hb.advances.diagnostics_le,
      hb.advances.mainFrame_eq.trans hmain⟩
    · have hst₀ := h.status_of_some hst
      cases s with
      | pending dec o => exact absurd hst (hc.rest.settled id dec o)
      | resolved t => exact hb.advances.resolved hst₀
      | poisoned => exact hb.advances.poisoned hst₀
    · rw [hframes']
      exact .refl _
  refine ⟨hg, by rw [hvalues'], ?_, by rw [hfunctions'], ⟨h.atRest hc.rest hf hb, ?_, ?_, ?_, ?_⟩,
    hs.extends hg hvalues'⟩
  · rw [hb.advances.typeNames_eq, hnames]
  · rw [hframes']
    exact hc.linked
  · rw [hframes']
    exact fun v s t hv ht => hg.has (hc.slots v s t hv ht)
  · rw [hframes']
    intro f p sig hp hsig
    obtain ⟨hlen, hparams, hresult⟩ := hc.signatures f p sig hp hsig
    exact ⟨hlen, fun t ht => hg.has (hparams t ht), hg.has hresult⟩
  · rw [hframes', hfunctions']
    exact hc.functions

theorem Checker.AtRest.note (h : c.AtRest) (e : Event) : (c.note e).AtRest := h.congr rfl rfl rfl

/-- Between runs, a run of types is opened, and its declarations are resolved. -/
theorem yields_typeRun_atRest (hc : c.AtRest) (d : TypeDec) (ds : List TypeDec) :
    Yields (openRun ctx ((d :: ds).map .type)) c fun plans c₁ =>
      plans.length = ((d :: ds).map Dec.type).length ∧
      Yields (checkPlanned ctx plans ((d :: ds).map .type)) c₁ fun r c₂ =>
        r.1 = (d :: ds).map .type ∧ ∃ kept rs own,
          BindsTypes [] (d :: ds) (c.note (.run .type (d :: ds).length)) plans kept c₁ ∧
          Finds [] (kept.map (·.name)) c₁ rs c₂ ∧ Building c₁ own c₂ ∧
          (r.2 = true ↔ .dropped ∉ plans ∧ none ∉ rs) := by
  rw [List.map_cons, openRun_cons, yields_bind, yields_log, if_neg (by simp [Dec.kind]),
    ← List.map_cons, List.length_map]
  refine (yields_bindTypes ctx (d :: ds) [] _).mono fun plans c₁ h => ?_
  obtain ⟨kept, hbind⟩ := h
  refine ⟨by rw [hbind.length_eq, List.length_map], ?_⟩
  have h0 := hbind.opened (hc.note _).opened
  refine (yields_typeBodies ctx hbind h0 h0.building).mono fun r c₂ h => ?_
  obtain ⟨hr, rs, hf, hok⟩ := h
  obtain ⟨own, -, hb, -⟩ := hf.building h0 h0.building (open_nil c₁) (links_nil c₁ _)
  exact ⟨hr, kept, rs, own, hbind, hf, hb, hok⟩

/-- A run of types is opened, and its declarations are resolved. -/
theorem yields_typeRun (hc : c.Sound) (hs : ctx.Sits c) (d : TypeDec) (ds : List TypeDec) :
    Yields (openRun ctx ((d :: ds).map .type)) c fun plans c₁ =>
      plans.length = ((d :: ds).map Dec.type).length ∧
      Yields (checkPlanned ctx plans ((d :: ds).map .type)) c₁ fun r c₂ =>
        r.1 = (d :: ds).map .type ∧ c.Declared ctx c₂ ∧ ∃ kept rs own,
          BindsTypes [] (d :: ds) (c.note (.run .type (d :: ds).length)) plans kept c₁ ∧
          Finds [] (kept.map (·.name)) c₁ rs c₂ ∧ Building c₁ own c₂ ∧
          (r.2 = true ↔ .dropped ∉ plans ∧ none ∉ rs) := by
  have hw := Checker.walked_note hc (.run .type (d :: ds).length)
  refine (yields_typeRun_atRest hc.rest d ds).mono fun plans c₁ h => ⟨h.1, h.2.mono fun r c₂ h' => ?_⟩
  obtain ⟨hr, kept, rs, own, hbind, hf, hb, hok⟩ := h'
  exact ⟨hr, (hw.declared hs).trans (hbind.declared hw.sound (hs.walked hw) hf hb), kept, rs, own,
    hbind, hf, hb, hok⟩

theorem usesOfDecs_map_type (t : FrameTable) (frame : FrameId) (level : Nat) (ds : List TypeDec) :
    usesOfDecs t frame level (ds.map .type) = [] := by
  induction ds with
  | nil => rfl
  | cons d ds ih => rw [List.map_cons, usesOfDecs, ih]; rfl

/-! ## Runs of functions -/

/-- The scope with the parameters of a function bound to their slots. -/
def Scopes.bindAll (s : Scopes VarId) : List TypedName → List VarId → Scopes VarId
  | p :: ps, v :: vs => (s.bind p.name.name v).bindAll ps vs
  | _, _ => s

theorem yields_bindParams : ∀ {ps : List TypedName} {vs : List VarId} {c : Checker}
    {Q : Unit → Checker → Prop},
    Yields (bindParams ps vs) c Q ↔ Q () { c with values := c.values.bindAll ps vs }
  | [], _, _, _ => yields_pure
  | _ :: _, [], _, _ => yields_pure
  | p :: ps, v :: vs, c, Q => by
    rw [bindParams, yields_bind, yields_bindValue, yields_bindParams]
    rfl

theorem Scopes.bindAll_outer : ∀ (s : Scopes VarId) (ps : List TypedName) (vs : List VarId),
    (s.bindAll ps vs).outer = s.outer
  | _, [], _ => rfl
  | _, _ :: _, [] => rfl
  | s, p :: ps, v :: vs => bindAll_outer (s.bind p.name.name v) ps vs

/-- The body of a function sits in the function's frame. -/
theorem Header.Fits.sits {h : Header} {head : FunctionHead} (hfits : h.Fits ctx head c)
    (hs : ctx.Sits c) : Context.Sits ⟨h.level, h.frame, 0⟩ c where
  frame := by
    obtain ⟨fr, hfr, hl, -⟩ := hfits.frame
    exact ⟨fr, hfr, hl⟩
  values name v hv := by
    obtain ⟨s, hs', henc⟩ := hs.values name v hv
    obtain ⟨fr, hfr, -, hp⟩ := hfits.frame
    exact ⟨s, hs', .parent hfr hp henc⟩

/-- Slots of a frame can be bound in the frame. -/
theorem Context.Sits.bindAll {ps : List TypedName} {vs : List VarId}
    (h : ParamSlots c ctx.frame ps vs) (values : Scopes VarId)
    (hv : ctx.Sits { c with values }) : ctx.Sits { c with values := values.bindAll ps vs } := by
  induction h generalizing values with
  | nil => exact hv
  | @cons p v ps vs hp _ ih =>
    obtain ⟨s, hs', -, hf⟩ := hp
    exact ih _ (Context.Sits.bindValue (c := { c with values }) hv hs' (by rw [hf]; exact .self) _)

/-- The state in which the body of a function is checked. -/
def Checker.inBody (c : Checker) (head : FunctionHead) (h : Header) : Checker :=
  { c with values := c.values.enter.bindAll head.params h.params }

theorem Checker.extends_inBody (c : Checker) (head : FunctionHead) (h : Header) :
    c.Extends (c.inBody head h) := ⟨fun _ _ h => h, fun _ _ h => h, .refl _, Nat.le_refl _, rfl⟩

theorem Header.Fits.sits_inBody {h : Header} {head : FunctionHead} (hfits : h.Fits ctx head c)
    (hs : ctx.Sits c) : Context.Sits ⟨h.level, h.frame, 0⟩ (c.inBody head h) := by
  have hbody := hfits.sits hs
  exact .bindAll hfits.params _ ⟨hbody.frame, hbody.values⟩

/-- Behind the body of a function its scope is left. -/
theorem Checker.Walked.leaveBody {h : Header} {head : FunctionHead} (hw : (c.inBody head h).Walked c') :
    c.Walked { c' with values := c.values } :=
  .rescope hw.scopes.typeNames_eq hw.scopes.functions_eq ((c.extends_inBody head h).trans hw.grown) hw.sound

/-- Behind the body of a function its scope is left, and its frame gets a layout. -/
theorem Header.Fits.close {h : Header} {head : FunctionHead} {frames : FrameTable}
    (hfits : h.Fits ctx head c) (hc : c.Sound) (hw : (c.inBody head h).Walked c')
    (hfin : c'.frames.finalize h.frame = .ok frames) :
    c.Walked { c' with values := c.values, frames } ∧ c'.Extends { c' with values := c.values, frames } := by
  have hleft := hw.leaveBody
  obtain ⟨fr, hfr, -⟩ := (hfits.extends hc.rest hleft.grown hleft.scopes.typeNames_eq).frame
  obtain ⟨frames', hfin', hvars, hfunctions, hgrows, hlinked⟩ := hw.sound.linked.finalize hfr
  obtain rfl := Except.ok.inj (hfin.symm.trans hfin')
  refine ⟨hleft.trans (hleft.sound.withFrames hgrows hlinked hfunctions ?_),
    ⟨fun _ _ h => h, fun _ _ h => h, hgrows, Nat.le_refl _, rfl⟩⟩
  rw [hvars]
  exact hleft.sound.slots

/-- The body of a function is checked, and the layout of its frame is fixed. -/
theorem yieldsOr_functionBody {h : Header} {head : FunctionHead} {body : Exp} {loc : Location}
    {id : Option FunctionId} (hbody : ExpWalks body) (hc : c.Sound) (hs : ctx.Sits c)
    (hfits : h.Fits ctx head c) :
    YieldsOr (ctx.Deep (body.nesting + 1)) (checkDec ctx (.functionBody h)
      (.function head body loc id)) c fun r c' => c.Walked c' ∧
        (body.Unbound → ∀ t, t.Linked → c'.frames.Grows t →
          ∀ u ∈ r.1.uses t ctx.frame ctx.level, t.Reaches u) := by
  rw [checkDec]
  refine Yields.bindOr (yields_enterValues.mpr (Yields.bindOr (yields_bindParams.mpr ?_)))
  have hs₁ := hfits.sits_inBody hs
  have hdeep : Context.Deep ⟨h.level, h.frame, 0⟩ body.nesting → ctx.Deep (body.nesting + 1) := by
    unfold Context.Deep
    rw [hfits.level]
    dsimp only
    omega
  refine ((hbody _ (c.inBody head h) (hc.withValues _) hs₁).mono hdeep fun _ _ h => h).bind
    fun body' c₂ h₂ => ?_
  have houter : c₂.values.outer = c.values.enter.outer := by
    rw [h₂.walked.scopes.values_eq]
    exact Scopes.bindAll_outer _ _ _
  refine Yields.bindOr (yields_exitValues_of_outer houter ?_)
  have hw₃ := h₂.walked.leaveBody
  have hfits₃ := hfits.extends hc.rest hw₃.grown hw₃.scopes.typeNames_eq
  obtain ⟨owner, howner, -⟩ := hfits₃.frame
  refine Yields.bindOr ((hw₃.sound.finalize howner).mono fun _ c₄ h₄ => ?_)
  obtain ⟨hw₄, -⟩ := h₄
  have hty : ∀ t, body'.ty = some t → c₄.types.Has t := hw₄.forall_has h₂.has
  have hresult : ∀ t, h.result = some t → c₄.types.Has t := by
    intro t ht
    rw [hfits.result] at ht
    obtain ⟨sig, hsig, rfl⟩ := Option.map_eq_some_iff.mp ht
    exact (hw₃.trans hw₄).has (hc.rest.has_resultOf (Checker.signatureOf_eq_some_iff.mp hsig).2)
  refine Yields.bindOr ((Rule.yields_body hw₄.sound.rest.closed hresult hty).mono
    fun ok c₅ h₅ => yieldsOr_pure ?_)
  have hw₅ := h₅.toSays.walked hw₄.sound
  refine ⟨(hw₃.trans hw₄).trans hw₅, fun hf t ht hgrow => ?_⟩
  obtain ⟨p, link, hp, horigin, -⟩ := (hfits₃.extends hw₃.sound.rest (hw₄.trans hw₅).grown
    (hw₄.trans hw₅).scopes.typeNames_eq).prototype
  have hframe : t.bodyFrame (some h.id) ctx.frame = h.frame := by
    obtain ⟨name, signature, origin⟩ := p
    cases horigin
    rw [FrameTable.bodyFrame, Option.bind_some, hgrow.function _ _ hp]
  rw [Dec.uses, hframe, ← hfits.level]
  exact h₂.reaches hf t ht ((hw₄.trans hw₅).grown.frames.trans hgrow)

/-- **The bodies of a run of functions are checked one after another.** -/
theorem yieldsOr_functionBodies {plans : List Plan} {ds : List Dec} (hc₀ : c₀.Sound)
    (hfits : List.Forall₂ (Plan.Fits ctx c₀) plans ds) (h : ∀ d ∈ ds, d.Parts ExpWalks) :
    ∀ c : Checker, c₀.Walked c → ctx.Sits c →
      YieldsOr (ctx.Deep (decNestings ds)) (checkPlanned ctx plans ds) c fun r c' =>
        c.Walked c' ∧ (UnboundDecs ds → ∀ t, t.Linked → c'.frames.Grows t →
          ∀ u ∈ usesOfDecs t ctx.frame ctx.level r.1, t.Reaches u) := by
  induction hfits with
  | nil =>
    intro c hw _
    exact yieldsOr_pure ⟨.refl hw.sound, fun _ _ _ _ => List.forall_mem_nil _⟩
  | @cons plan d plans ds hd _ ih =>
    intro c hw hs
    obtain ⟨hpart, hparts⟩ := List.forall_mem_cons.mp h
    rw [checkPlanned]
    have hhead : YieldsOr (ctx.Deep d.nesting) (checkDec ctx plan d) c fun r c' =>
        c.Walked c' ∧ (d.Unbound → ∀ t, t.Linked → c'.frames.Grows t →
          ∀ u ∈ r.1.uses t ctx.frame ctx.level, t.Reaches u) := by
      cases hd with
      | dropped =>
        rw [checkDec_dropped]
        exact yieldsOr_pure ⟨.refl hw.sound, fun hf t _ _ => by
          rw [Dec.uses_eq_nil hf]; exact List.forall_mem_nil _⟩
      | functionBody hfit =>
        exact yieldsOr_functionBody hpart hw.sound hs
          (hfit.extends hc₀.rest hw.grown hw.scopes.typeNames_eq)
    refine (hhead.deeper (Nat.le_max_left _ _)).bind fun r c₁ h₁ => ?_
    obtain ⟨hw₁, hreach₁⟩ := h₁
    refine ((ih hparts c₁ (hw.trans hw₁) (hs.walked hw₁)).deeper (Nat.le_max_right _ _)).bind
      fun r' c₂ h₂ => yieldsOr_pure ?_
    obtain ⟨hw₂, hreach₂⟩ := h₂
    refine ⟨hw₁.trans hw₂, fun hf t ht hg => ?_⟩
    exact List.forall_mem_append.mpr ⟨hreach₁ hf.1 t ht (hw₂.grown.frames.trans hg),
      hreach₂ hf.2 t ht hg⟩

/-! ## Runs of variables -/

/-- The type that a variable is declared with, or that of its initializer. -/
theorem Rule.yields_declared (hc : c.AtRest) (typeName : Option Ident) {init : Mark}
    (hi : ∀ t, init.ty = some t → c.types.Has t) (literal : Bool) :
    Yields (Rule.declared typeName init literal) c fun r c' => c.Says c' ∧
      ∀ t, r.1 = some t → c.types.Has t := by
  cases typeName with
  | none =>
    refine (Rule.yields_inferred init).mono fun r c' h => ⟨h.1.toSays, fun t ht => ?_⟩
    exact hi t (h.1.some_iff.mp ht).1
  | some typeName =>
    refine (Rule.yields_annotated hc typeName hi literal).mono fun r c' h =>
      ⟨h.2.toSays, fun t ht => ?_⟩
    exact hc.has_typeNamed (h.1 ▸ ht)

/-- A variable can be appended to the frame of the place and bound there. -/
theorem Checker.Sound.bindSlot (hc : c.Sound) (hs : ctx.Sits c) (name : String) {ty : Option Ty}
    (hty : ∀ t, ty = some t → c.types.Has t) (kind : SlotKind) {Q : VarId → Checker → Prop}
    (hQ : ∀ v frames s, c.frames.Allocs ctx.frame ty v frames → frames.vars[v.index]? = some s →
      s.ty = ty → c.Declared ctx { c with frames, values := c.values.bind name v } →
      Q v { c with frames, values := c.values.bind name v }) :
    Yields (do
      let slot ← Check.alloc ctx.frame name ty kind
      bindValue name slot
      return slot) c Q := by
  obtain ⟨owner, howner, -⟩ := hs.frame
  rw [yields_bind]
  refine (hc.alloc howner name hty kind).mono fun v c₁ h₁ => ?_
  obtain ⟨frames, rfl, halloc, hw⟩ := h₁
  obtain ⟨s, hs', hsty, hsf⟩ := halloc.slot_self
  rw [yields_bind, yields_bindValue, yields_pure]
  have hsits := (hs.walked hw).bindValue hs' (by rw [hsf]; exact .self) name
  refine hQ v frames s halloc hs' hsty ⟨?_, rfl, rfl, rfl, hw.sound.withValues _, hsits⟩
  exact ⟨hw.grown.status, hw.grown.shape, hw.grown.frames, hw.grown.diagnostics_le,
    hw.grown.mainFrame_eq⟩

theorem yields_boundSince {first : Nat} {name : String} {Q : Bool → Checker → Prop} :
    Yields (boundSince first name) c Q ↔
      Q ((c.values.lookupLocal name).any fun v => first ≤ v.index) c := by
  unfold boundSince
  rw [yields_bind, yields_get]
  cases c.values.lookupLocal name with
  | none => exact yields_pure
  | some v => exact yields_pure

/-- The initializer of a variable is checked, and the variable is bound; unless its name is bound in the
run already. -/
theorem yieldsOr_variable {first : Nat} {name : Ident} {typeName : Option Ident} {init : Exp}
    {loc : Location} {slot : Option VarId} (hinit : ExpWalks init) (hc : c.Sound)
    (hs : ctx.Sits c) :
    YieldsOr (ctx.Deep init.nesting) (checkDec ctx (.variable first)
      (.var name typeName init loc slot)) c fun r =>
        DecEnds ctx init.Unbound (fun t => r.1.uses t ctx.frame ctx.level) c := by
  rw [checkDec]
  refine Yields.bindOr (yields_boundSince.mpr ?_)
  by_cases hb : ((c.values.lookupLocal name.name).any fun v => first ≤ v.index) = true
  · rw [if_pos hb]
    refine Yields.bindOr (yields_report.mpr (yieldsOr_pure ?_))
    exact DecEnds.unchanged (d := .var name typeName init loc slot)
      ((Checker.walked_reported hc _ _).declared hs)
  · rw [if_neg hb]
    refine (hinit ctx c hc hs).bind fun init' c₁ h₁ => ?_
    refine Yields.bindOr ((Rule.yields_declared h₁.walked.sound.rest typeName h₁.has
      init'.isLiteral).mono fun r c₂ h₂ => ?_)
    obtain ⟨hreports, hty⟩ := h₂
    have hw₂ := hreports.walked h₁.walked.sound
    have hbind := hw₂.sound.bindSlot (hs.walked (h₁.walked.trans hw₂)) name.name
      (hw₂.forall_has hty) .letBound (Q := fun v c' => YieldsOr (ctx.Deep init.nesting)
        (pure (Dec.var name typeName init' loc (some v), r.2)) c' fun r =>
          DecEnds ctx init.Unbound (fun t => r.1.uses t ctx.frame ctx.level) c)
      fun v frames s halloc _ _ hdecl => yieldsOr_pure ?_
    · simp only [yields_bind, yields_pure] at hbind
      exact Yields.bindOr (hbind.mono fun _ _ h => Yields.bindOr h)
    · refine ⟨((h₁.walked.trans hw₂).declared hs).trans hdecl, fun hf t ht hg => ?_⟩
      exact h₁.reaches hf t ht ((hw₂.grown.frames.trans halloc.grows).trans hg)

/-- **The variables of a run are checked and bound one after another.** -/
theorem yieldsOr_variables (first : Nat) {ds : List Dec} (hk : ∀ d ∈ ds, d.kind = .var)
    (h : ∀ d ∈ ds, d.Parts ExpWalks) : ∀ c : Checker, c.Sound → ctx.Sits c →
      YieldsOr (ctx.Deep (decNestings ds)) (checkPlanned ctx (ds.map fun _ => .variable first) ds) c
        fun r => DecEnds ctx (UnboundDecs ds) (fun t => usesOfDecs t ctx.frame ctx.level r.1) c := by
  induction ds with
  | nil => exact fun c hc hs => yieldsOr_pure (.none (.refl hc hs))
  | cons d ds ih =>
    intro c hc hs
    obtain ⟨hd, hkinds⟩ := List.forall_mem_cons.mp hk
    obtain ⟨hpart, hparts⟩ := List.forall_mem_cons.mp h
    cases d with
    | type => cases hd
    | function => cases hd
    | var name typeName init loc slot =>
      rw [List.map_cons, checkPlanned]
      refine ((yieldsOr_variable hpart hc hs).deeper (Nat.le_max_left _ _)).bind
        fun r c₁ h₁ => ?_
      refine ((ih hkinds hparts c₁ h₁.declared.sound h₁.declared.sits).deeper
        (Nat.le_max_right _ _)).bind fun r' c₂ h₂ => yieldsOr_pure (h₁.seq h₂)

/-! ## Blocks -/

theorem kind_of_mem_leadingRun {d e : Dec} {ds : List Dec} (h : e ∈ Dec.leadingRun (d :: ds)) :
    e.kind = d.kind := by
  rcases List.mem_cons.mp h with rfl | h
  · rfl
  · exact (Dec.sameKind_iff.mp (List.mem_takeWhile_imp h)).symm

theorem eq_map_type_of_kind {ds : List Dec} (h : ∀ d ∈ ds, d.kind = .type) :
    ∃ ts : List TypeDec, ds = ts.map .type := by
  induction ds with
  | nil => exact ⟨[], rfl⟩
  | cons d ds ih =>
    obtain ⟨hd, hds⟩ := List.forall_mem_cons.mp h
    obtain ⟨ts, rfl⟩ := ih hds
    cases d with
    | type t => exact ⟨t :: ts, rfl⟩
    | function => cases hd
    | var => cases hd

theorem exists_map_type_of_kind {d : Dec} {ds : List Dec} (h : ∀ e ∈ d :: ds, e.kind = .type) :
    ∃ (t : TypeDec) (ts : List TypeDec), d :: ds = (t :: ts).map .type := by
  obtain ⟨ts, hts⟩ := eq_map_type_of_kind h
  cases ts with
  | nil => cases hts
  | cons t ts => exact ⟨t, ts, hts⟩

/-- **A run is opened, and its declarations are checked as planned.** -/
theorem yieldsOr_run {d : Dec} {run : List Dec} (hk : ∀ e ∈ d :: run, e.kind = d.kind)
    (h : ∀ e ∈ d :: run, e.Parts ExpWalks) (hc : c.Sound) (hs : ctx.Sits c) :
    YieldsOr (ctx.Deep (decNestings (d :: run))) (openRun ctx (d :: run)) c fun plans c₁ =>
      plans.length = (d :: run).length ∧
      YieldsOr (ctx.Deep (decNestings (d :: run))) (checkPlanned ctx plans (d :: run)) c₁ fun r =>
        DecEnds ctx (UnboundDecs (d :: run)) (fun t => usesOfDecs t ctx.frame ctx.level r.1) c := by
  have hw := Checker.walked_note hc (.run d.kind (run.length + 1))
  cases hkind : d.kind with
  | type =>
    rw [hkind] at hk
    obtain ⟨t, ts, hts⟩ := exists_map_type_of_kind hk
    rw [hts]
    refine ((yields_typeRun hc hs t ts).mono fun plans c₁ h₁ => ⟨h₁.1, ?_⟩).or
    refine (h₁.2.mono fun r c₂ h₂ => ?_).or
    obtain ⟨hr, hdecl, -⟩ := h₂
    exact ⟨hdecl, fun _ t _ _ => by rw [hr, usesOfDecs_map_type]; exact List.forall_mem_nil _⟩
  | function =>
    rw [openRun_cons, if_neg (by rw [hkind]; decide)]
    refine Yields.bindOr (yields_log.mpr ?_)
    have hdeep : maxLevel ≤ ctx.level → ctx.Deep (decNestings (d :: run)) := by
      intro hl
      cases d with
      | type => cases hkind
      | var => cases hkind
      | function head body loc id =>
        have : 1 ≤ decNestings (Dec.function head body loc id :: run) := by
          rw [decNestings, Dec.nesting]
          omega
        unfold Context.Deep
        omega
    refine (yieldsOr_bindFunctions (hkind ▸ hk) [] _ hw.sound (hs.walked hw)).mono hdeep
      fun plans c₁ hbind => ⟨hbind.length_eq, ?_⟩
    have hd₁ := hbind.declared hw.sound (hs.walked hw)
    refine (yieldsOr_functionBodies hd₁.sound (hbind.fits hw.sound (hs.walked hw)) h c₁
      (.refl hd₁.sound) hd₁.sits).mono id fun r c₂ h₂ => ?_
    exact ⟨((hw.declared hs).trans hd₁).trans (h₂.1.declared hd₁.sits), h₂.2⟩
  | var =>
    rw [openRun_cons, if_pos hkind]
    refine Yields.bindOr (yields_log.mpr (Yields.bindOr (yields_get.mpr (yieldsOr_pure
      ⟨List.length_map _, ?_⟩))))
    refine (yieldsOr_variables _ (hkind ▸ hk) h _ hw.sound (hs.walked hw)).mono id fun r c₂ h₂ => ?_
    exact ⟨(hw.declared hs).trans h₂.declared, h₂.reaches⟩

theorem unboundDecs_append : ∀ {ds es : List Dec},
    UnboundDecs (ds ++ es) ↔ UnboundDecs ds ∧ UnboundDecs es
  | [], es => by simp [UnboundDecs]
  | d :: ds, es => by
    rw [List.cons_append, UnboundDecs, UnboundDecs, unboundDecs_append, and_assoc]

/-- **The declarations of a block are checked run by run.** -/
theorem yieldsOr_declarations : ∀ ds : List Dec, (∀ d ∈ ds, d.Parts ExpWalks) →
    ∀ c : Checker, c.Sound → ctx.Sits c →
      YieldsOr (ctx.Deep (decNestings ds)) (checkDecs ctx [] ds) c fun r =>
        DecEnds ctx (UnboundDecs ds) (fun t => usesOfDecs t ctx.frame ctx.level r.1) c
  | [], _, c, hc, hs => by
    rw [checkDecs]
    exact yieldsOr_pure (.none (.refl hc hs))
  | d :: ds, h, c, hc, hs => by
    have hsplit : d :: ds = Dec.leadingRun (d :: ds) ++ ds.dropWhile (Dec.sameKind d) := by
      simp [Dec.leadingRun]
    have hnesting : decNestings (d :: ds) = max (decNestings (Dec.leadingRun (d :: ds)))
        (decNestings (ds.dropWhile (Dec.sameKind d))) := by
      rw [← decNestings_append, ← hsplit]
    have hrun : ∀ e ∈ Dec.leadingRun (d :: ds), e.Parts ExpWalks := fun e he =>
      h e (hsplit ▸ List.mem_append_left _ he)
    refine yieldsOr_checkDecs ((yieldsOr_run (fun e he => kind_of_mem_leadingRun he) hrun hc
      hs).mono (.mono (hnesting ▸ Nat.le_max_left _ _)) fun plans c₁ h₁ => ⟨h₁.1, ?_⟩)
    refine h₁.2.mono (.mono (hnesting ▸ Nat.le_max_left _ _)) fun r c₂ h₂ => ?_
    have hrest := yieldsOr_declarations (ds.dropWhile (Dec.sameKind d)) (fun e he =>
      h e (List.mem_cons_of_mem _ (List.dropWhile_subset _ he))) c₂ h₂.declared.sound
      h₂.declared.sits
    refine hrest.mono (.mono (hnesting ▸ Nat.le_max_right _ _)) fun r' c₃ h₃ => ?_
    have hseq := h₂.seq h₃
    refine ⟨hseq.declared, fun hf t ht hg => ?_⟩
    rw [usesOfDecs_append]
    rw [hsplit, unboundDecs_append] at hf
    exact hseq.reaches hf t ht hg
termination_by ds => ds.length
decreasing_by
  exact Nat.lt_succ_of_le (List.length_dropWhile_le _ ds)

/-- **Behind a block the scopes are as before it.** -/
theorem ExpWalks.letIn {m : Mark} {decs : List Dec} {body : Exp} (hd : ∀ d ∈ decs, d.Parts ExpWalks)
    (hb : ExpWalks body) : ExpWalks (.letIn m decs body) := by
  intro ctx c hc hs
  rw [checkExp]
  refine Yields.bindOr (yields_enterScopes.mpr ?_)
  refine ((yieldsOr_declarations decs hd c.entered hc.entered hs.entered).deeper
    (Nat.le_max_left _ _)).bind fun r c₁ h₁ => ?_
  refine ((hb ctx c₁ h₁.declared.sound h₁.declared.sits).deeper (Nat.le_max_right _ _)).bind
    fun body' c₂ h₂ => ?_
  have hdecl := h₁.declared.trans (h₂.walked.declared h₁.declared.sits)
  refine Yields.bindOr ((hdecl.yields_exitScopes hc).mono fun _ c₃ h₃ => yieldsOr_pure ?_)
  obtain ⟨hw, htypes, hframes, -⟩ := h₃
  refine ⟨hw, fun t ht => ?_, fun hf t ht hg => ?_⟩
  · change (if r.2 = true then body'.ty else none) = some t at ht
    split at ht
    · exact htypes ▸ h₂.has t ht
    · cases ht
  · rw [← hframes] at hg
    exact List.forall_mem_append.mpr ⟨h₁.reaches hf.1 t ht (h₂.walked.grown.frames.trans hg),
      h₂.reaches hf.2 t ht hg⟩

/-! ## Whole programs -/

theorem walks : Tree.Cases ExpWalks VarWalks (Dec.Parts ExpWalks) where
  var _ _ h := .var h
  nil _ := .nil
  int _ _ := .int
  string _ _ := .string
  call _ _ _ _ h := .call h
  binary _ _ _ _ hl hr := .binary hl hr
  record _ _ _ h := .record h
  seq _ _ h := .seq h
  assign _ _ _ ht hv := .assign ht hv
  condNone _ _ _ ht hp := .condNone ht hp
  condSome _ _ _ _ ht hp he := .condSome ht hp he
  whileLoop _ _ _ ht hb := .whileLoop ht hb
  doWhile _ _ _ hb ht := .doWhile hb ht
  forLoop _ _ _ _ _ _ hl hh hb := .forLoop hl hh hb
  breakLoop _ := .breakLoop
  letIn _ _ _ hd hb := .letIn hd hb
  array _ _ _ _ hz hi := .array hz hi
  simple _ _ _ := .simple
  field _ _ _ _ hb := .field hb
  element _ _ _ hb hi := .element hb hi
  type _ := trivial
  function _ _ _ _ hb := hb
  varDec _ _ _ _ _ hi := hi

/-- **The check of every expression ends as it should.** -/
theorem expWalks (e : Exp) : ExpWalks e := walks.all.1 e

end

end TigerCheck
