import TigerCheck.Proofs.Walk.Ends

/-!
# Expressions and variables

One lemma for each form of node: if the checks of its parts end as they should, so does its own. Let
blocks are treated with their declarations.

* `ExpWalks.call`, `ExpWalks.binary`, …: expressions.
* `Scopes.bindAll`, `Checker.Walked.rescope`: the scope of a loop counter or of parameters.
* **`ExpWalks.forLoop`**: the counter is in scope in the body only.
* `VarWalks.simple`, `VarWalks.field`, `VarWalks.element`: variables.
-/

namespace TigerCheck

open Check

section

variable {m : Mark} {ctx : Context} {c c' : Checker}

/-! ## Leaves and lists -/

theorem ExpWalks.var {v : Var} (h : VarWalks v) : ExpWalks (.var m v) := by
  intro ctx c hc hs
  rw [checkExp]
  refine (h ctx c hc hs).bind fun v' c₁ h₁ => yieldsOr_pure ?_
  exact ⟨h₁.walked, h₁.has, h₁.reaches⟩

theorem ExpWalks.nil : ExpWalks (.nil m) := fun ctx c hc _ => by
  rw [checkExp]
  exact yieldsOr_pure (.leaf (.refl hc) fun t ht => by cases ht; trivial)

theorem ExpWalks.int {n : Int64} : ExpWalks (.int m n) := fun ctx c hc _ => by
  rw [checkExp]
  exact yieldsOr_pure (.leaf (.refl hc) fun t ht => by cases ht; trivial)

theorem ExpWalks.string {s : String} : ExpWalks (.string m s) := fun ctx c hc _ => by
  rw [checkExp]
  exact yieldsOr_pure (.leaf (.refl hc) fun t ht => by cases ht; trivial)

theorem ExpWalks.breakLoop : ExpWalks (.breakLoop m) := by
  intro ctx c hc _
  rw [checkExp]
  by_cases hl : ctx.inLoop = true
  · rw [if_pos hl]
    exact Yields.bindOr (yields_pure.mpr (yieldsOr_pure (.leaf (.refl hc) fun t ht => by
      cases ht; trivial)))
  · rw [if_neg hl]
    exact Yields.bindOr (yields_fail.mpr (yieldsOr_pure
      (.leaf (Checker.walked_reported hc _ _) fun t ht => by cases ht)))

/-- The types that a call's arguments are checked against are types of the arena. -/
theorem has_signed (hc : c.Sound) {name : String} {s : Signature} (h : Rule.Signed c name s) :
    (∀ t ∈ s.params, c.types.Has t) ∧ c.types.Has s.result := by
  obtain ⟨id, p, sig, -, hp, hsig, rfl⟩ := h
  obtain ⟨-, hparams, hresult⟩ := hc.signatures id p sig hp hsig
  exact ⟨fun t ht => hparams t (List.mem_of_mem_drop ht), hresult⟩

theorem ExpWalks.call {callee : Ident} {args : List Exp} {function : Option FunctionId}
    (h : ∀ e ∈ args, ExpWalks e) : ExpWalks (.call m callee args function) := by
  intro ctx c hc hs
  rw [checkExp]
  refine Yields.bindOr ((Rule.yields_target? callee.name fun id hid => ?_).mono
    fun target c₁ h₁ => ?_)
  · obtain ⟨p, hp⟩ := hc.functions _ _ hid
    exact ⟨p, hp, fun sig hsig => (hc.signatures id p sig hp hsig).1⟩
  obtain ⟨rfl, -, hsigned⟩ := h₁
  have hparams : ∀ p ∈ Rule.Target.expects target args.length, c₁.types.Has p := by
    intro p hp
    unfold Rule.Target.expects at hp
    split at hp
    · next id s =>
      split at hp
      · exact (has_signed hc ((hsigned s).mp ⟨id, rfl⟩)).1 p hp
      · cases hp
    · cases hp
  refine (yieldsOr_checkEach h _ c₁ hc hs hparams).bind fun r c₂ h₂ => ?_
  refine Yields.bindOr ((Rule.yields_call callee target r.1.length r.2).mono fun ty c₃ h₃ => ?_)
  have hw₃ := h₃.toSays.walked h₂.walked.sound
  refine yieldsOr_pure (h₂.answer hw₃ fun t ht => ?_)
  obtain ⟨id, s, htarget, -, -, rfl⟩ := h₃.some_iff.mp ht
  exact (h₂.walked.trans hw₃).has (has_signed hc ((hsigned s).mp ⟨id, htarget⟩)).2

theorem ExpWalks.seq {items : List Exp} (h : ∀ e ∈ items, ExpWalks e) :
    ExpWalks (.seq m items) := by
  intro ctx c hc hs
  rw [checkExp]
  refine (yieldsOr_checkEach h [] c hc hs (List.forall_mem_nil _)).bind fun r c₁ h₁ =>
    yieldsOr_pure (h₁.answer (.refl h₁.walked.sound) fun t ht => ?_)
  change (if r.2 = true then lastTy r.1 else none) = some t at ht
  split at ht
  · unfold lastTy at ht
    split at ht
    · next e he => exact h₁.has t ⟨e, List.mem_of_getLast? he, ht⟩
    · cases ht
      trivial
  · cases ht

theorem ExpWalks.record {typeName : Ident} {inits : List (Ident × Exp)}
    (h : ∀ i ∈ inits, ExpWalks i.2) : ExpWalks (.record m typeName inits) := by
  intro ctx c hc hs
  rw [checkExp]
  refine Yields.bindOr ((yields_typeOf hc.rest typeName).mono fun ty c₁ h₁ => ?_)
  have hw₁ := h₁.toSays.walked hc
  have hty : ∀ t, ty = some t → c₁.types.Has t := fun t ht =>
    hw₁.has (hc.rest.has_typeNamed (h₁.some_iff.mp ht))
  refine Yields.bindOr ((Rule.yields_recordFields typeName inits.length hty).mono
    fun fields c₂ h₂ => ?_)
  have hw₂ := hw₁.trans (h₂.toSays.walked hw₁.sound)
  have hfields : ∀ fs, fields = some fs → ∀ f ∈ fs, c₂.types.Has f.ty := by
    intro fs hfs f hf
    obtain ⟨t, e, -, he, -, rfl⟩ := h₂.some_iff.mp hfs
    have hshape := Arena.record?_eq_some_iff.mp he
    refine (h₂.toSays.walked hw₁.sound).has (hw₁.sound.rest.closed t _ hshape f.ty ?_)
    exact List.mem_map_of_mem hf
  refine (yieldsOr_checkInits m.loc typeName.name h fields c₂ hw₂.sound (hs.walked hw₂)
    hfields).bind fun r c₃ h₃ => yieldsOr_pure ⟨hw₂.trans h₃.walked, fun t ht => ?_, h₃.reaches⟩
  change (if r.2 = true then ty else none) = some t at ht
  split at ht
  · exact ((h₂.toSays.walked hw₁.sound).trans h₃.walked).has (hty t ht)
  · cases ht

/-! ## Operators, assignments and conditions -/

theorem ExpWalks.binary {op : BinOp} {left right : Exp} (hl : ExpWalks left) (hr : ExpWalks right) :
    ExpWalks (.binary m op left right) := by
  intro ctx c hc hs
  rw [checkExp]
  refine ((hl ctx c hc hs).deeper (Nat.le_max_left _ _)).bind fun l c₁ h₁ => ?_
  refine ((hr ctx c₁ h₁.walked.sound (hs.walked h₁.walked)).deeper (Nat.le_max_right _ _)).bind
    fun r c₂ h₂ => ?_
  refine Yields.bindOr ((Rule.yields_binary h₂.walked.sound.rest.closed op
    (h₂.walked.forall_has h₁.has) h₂.has).mono fun ty c₃ h₃ => yieldsOr_pure ?_)
  refine (h₁.seq h₂).answer (h₃.toSays.walked h₂.walked.sound) fun t ht => ?_
  obtain ⟨rfl, -⟩ := h₃.some_iff.mp ht
  trivial

theorem ExpWalks.assign {target : Var} {value : Exp} (ht : VarWalks target) (hv : ExpWalks value) :
    ExpWalks (.assign m target value) := by
  intro ctx c hc hs
  rw [checkExp]
  refine ((ht ctx c hc hs).deeper (Nat.le_max_left _ _)).bind fun target' c₁ h₁ => ?_
  refine ((hv ctx c₁ h₁.walked.sound (hs.walked h₁.walked)).deeper (Nat.le_max_right _ _)).bind
    fun value' c₂ h₂ => ?_
  refine Yields.bindOr ((Rule.yields_assign h₂.walked.sound.rest.closed
    (h₂.walked.forall_has h₁.has) h₂.has).mono fun ty c₃ h₃ => yieldsOr_pure ?_)
  refine (h₁.seq h₂).answer (h₃.toSays.walked h₂.walked.sound) fun t htt => ?_
  obtain ⟨rfl, -⟩ := h₃.some_iff.mp htt
  trivial

theorem ExpWalks.condNone {test thenPart : Exp} (ht : ExpWalks test) (hp : ExpWalks thenPart) :
    ExpWalks (.cond m test thenPart none) := by
  intro ctx c hc hs
  rw [checkExp]
  refine ((ht ctx c hc hs).deeper (Nat.le_max_left _ _)).bind fun test' c₁ h₁ => ?_
  refine ((hp ctx c₁ h₁.walked.sound (hs.walked h₁.walked)).deeper (Nat.le_max_right _ _)).bind
    fun then' c₂ h₂ => ?_
  refine Yields.bindOr (Rule.yields_condNone.mono fun ty c₃ h₃ => yieldsOr_pure ?_)
  refine (h₁.seq h₂).answer (h₃.toSays.walked h₂.walked.sound) fun t htt => ?_
  obtain ⟨rfl, -⟩ := h₃.some_iff.mp htt
  trivial

theorem ExpWalks.condSome {test thenPart elsePart : Exp} (ht : ExpWalks test)
    (hp : ExpWalks thenPart) (he : ExpWalks elsePart) :
    ExpWalks (.cond m test thenPart (some elsePart)) := by
  intro ctx c hc hs
  rw [checkExp]
  refine ((ht ctx c hc hs).deeper (Nat.le_trans (Nat.le_max_left _ _) (Nat.le_max_left _ _))).bind
    fun test' c₁ h₁ => ?_
  refine ((hp ctx c₁ h₁.walked.sound (hs.walked h₁.walked)).deeper
    (Nat.le_trans (Nat.le_max_right _ _) (Nat.le_max_left _ _))).bind fun then' c₂ h₂ => ?_
  have hw₂ := h₁.walked.trans h₂.walked
  refine ((he ctx c₂ hw₂.sound (hs.walked hw₂)).deeper (Nat.le_max_right _ _)).bind
    fun else' c₃ h₃ => ?_
  have hthen := h₃.walked.forall_has h₂.has
  refine Yields.bindOr ((Rule.yields_condSome h₃.walked.sound.rest.closed hthen h₃.has).mono
    fun ty c₄ h₄ => yieldsOr_pure ?_)
  have hw₄ := h₄.toSays.walked h₃.walked.sound
  refine (h₁.seq (h₂.seq h₃)).answer hw₄ fun t htt => ?_
  obtain ⟨-, u, e, hu, he, -, rfl⟩ := h₄.some_iff.mp htt
  split
  · exact hw₄.has (h₃.has e he)
  · exact hw₄.has (hthen u hu)

theorem ExpWalks.array {typeName : Ident} {size init : Exp} (hz : ExpWalks size)
    (hi : ExpWalks init) : ExpWalks (.array m typeName size init) := by
  intro ctx c hc hs
  rw [checkExp]
  refine Yields.bindOr ((yields_typeOf hc.rest typeName).mono fun ty c₁ h₁ => ?_)
  have hw₁ := h₁.toSays.walked hc
  have hty : ∀ t, ty = some t → c₁.types.Has t := fun t ht =>
    hw₁.has (hc.rest.has_typeNamed (h₁.some_iff.mp ht))
  refine ((hz ctx c₁ hw₁.sound (hs.walked hw₁)).deeper (Nat.le_max_left _ _)).bind
    fun size' c₂ h₂ => ?_
  have hw₂ := hw₁.trans h₂.walked
  refine ((hi ctx c₂ hw₂.sound (hs.walked hw₂)).deeper (Nat.le_max_right _ _)).bind
    fun init' c₃ h₃ => ?_
  have hty₃ := (h₂.walked.trans h₃.walked).forall_has hty
  refine Yields.bindOr ((Rule.yields_array h₃.walked.sound.rest.closed typeName hty₃ h₃.has).mono
    fun ty' c₄ h₄ => yieldsOr_pure ?_)
  have hw₄ := h₄.toSays.walked h₃.walked.sound
  have hgives : ∀ t, ty' = some t → c₄.types.Has t := fun t ht =>
    hw₄.has (hty₃ t (h₄.some_iff.mp ht).1)
  have hend := (h₂.seq h₃).answer hw₄ hgives
  exact ⟨hw₁.trans hend.walked, hend.has, hend.reaches⟩

/-! ## Loops -/

theorem ExpWalks.whileLoop {test body : Exp} (ht : ExpWalks test) (hb : ExpWalks body) :
    ExpWalks (.whileLoop m test body) := by
  intro ctx c hc hs
  rw [checkExp]
  refine ((ht ctx c hc hs).deeper (Nat.le_max_left _ _)).bind fun test' c₁ h₁ => ?_
  refine YieldsOr.bind (YieldsOr.deeper (n := (Exp.whileLoop m test body).nesting)
    (hb ctx.enterLoop c₁ h₁.walked.sound ((hs.walked h₁.walked).loops _))
    (Nat.le_max_right _ _)) fun body' c₂ h₂ => ?_
  refine Yields.bindOr (Rule.yields_loop.mono fun ty c₃ h₃ => yieldsOr_pure ?_)
  refine (h₁.seq h₂).answer (h₃.toSays.walked h₂.walked.sound) fun t htt => ?_
  obtain ⟨rfl, -⟩ := h₃.some_iff.mp htt
  trivial

theorem ExpWalks.doWhile {body test : Exp} (hb : ExpWalks body) (ht : ExpWalks test) :
    ExpWalks (.doWhile m body test) := by
  intro ctx c hc hs
  rw [checkExp]
  refine YieldsOr.bind (YieldsOr.deeper (n := (Exp.doWhile m body test).nesting)
    (hb ctx.enterLoop c hc (hs.loops _)) (Nat.le_max_left _ _)) fun body' c₁ h₁ => ?_
  refine ((ht ctx c₁ h₁.walked.sound (hs.walked h₁.walked)).deeper (Nat.le_max_right _ _)).bind
    fun test' c₂ h₂ => ?_
  refine Yields.bindOr (Rule.yields_loop.mono fun ty c₃ h₃ => yieldsOr_pure ?_)
  refine (h₁.seq h₂).answer (h₃.toSays.walked h₂.walked.sound) fun t htt => ?_
  obtain ⟨rfl, -⟩ := h₃.some_iff.mp htt
  trivial

/-- Closing a scope of variables leaves the walk where it began. -/
theorem Checker.Walked.rescope (hn : c'.typeNames = c.typeNames)
    (hf : c'.functions = c.functions) (hg : c.Extends c') (hc' : c'.Sound) :
    c.Walked { c' with values := c.values } :=
  ⟨⟨hg.status, hg.shape, hg.frames, hg.diagnostics_le, hg.mainFrame_eq⟩, ⟨rfl, hn, hf⟩,
    hc'.withValues _⟩

theorem yields_exitValues_of_outer {values : Scopes VarId}
    (h : c.values.outer = values.enter.outer) {Q : Unit → Checker → Prop}
    (hQ : Q () { c with values }) : Yields exitValues c Q :=
  yields_exitValues.mpr ⟨values, Scopes.exit_of_outer h, hQ⟩

/-- The state in the body of a counting loop. -/
theorem Checker.Sound.counter (hc : c.Sound) (hs : ctx.Sits c) (name : String) :
    Yields (do
      enterValues
      let slot ← Check.alloc ctx.frame name (some .int) .loopCounter
      bindValue name slot
      return slot) c fun v c' => c'.Sound ∧ ctx.Sits c' ∧ c.Extends c' ∧ ∃ frames s,
        c' = { c with frames, values := c.values.enter.bind name v } ∧
        c'.frames.vars[v.index]? = some s ∧ s.ty = some .int := by
  obtain ⟨owner, howner, -⟩ := hs.frame
  rw [yields_bind, yields_enterValues, yields_bind]
  have hc₁ := hc.withValues c.values.enter
  refine (hc₁.alloc (c := { c with values := c.values.enter }) howner name
    (fun t ht => by cases ht; trivial) .loopCounter).mono fun v c₁ h₁ => ?_
  obtain ⟨frames, rfl, halloc, hw⟩ := h₁
  obtain ⟨s, hs', hsty, hsf⟩ := halloc.slot_self
  rw [yields_bind, yields_bindValue, yields_pure]
  have hs₁ : ctx.Sits { c with values := c.values.enter, frames } :=
    Context.Sits.walked (c := { c with values := c.values.enter }) ⟨hs.frame, hs.values⟩ hw
  refine ⟨hw.sound.withValues _, hs₁.bindValue hs' (by rw [hsf]; exact .self) name,
    ⟨hw.grown.status, hw.grown.shape, hw.grown.frames, hw.grown.diagnostics_le,
      hw.grown.mainFrame_eq⟩, frames, s, rfl, hs', hsty⟩

/-- **The counter of a loop is in scope in its body only.** -/
theorem ExpWalks.forLoop {counter : Ident} {low high body : Exp} {slot : Option VarId}
    (hl : ExpWalks low) (hh : ExpWalks high) (hb : ExpWalks body) :
    ExpWalks (.forLoop m counter low high body slot) := by
  intro ctx c hc hs
  rw [checkExp]
  refine ((hl ctx c hc hs).deeper (Nat.le_trans (Nat.le_max_left _ _) (Nat.le_max_left _ _))).bind
    fun low' c₁ h₁ => ?_
  refine ((hh ctx c₁ h₁.walked.sound (hs.walked h₁.walked)).deeper
    (Nat.le_trans (Nat.le_max_right _ _) (Nat.le_max_left _ _))).bind fun high' c₂ h₂ => ?_
  have hw₂ := h₁.walked.trans h₂.walked
  refine Yields.bindOr (Rule.yields_bounds.mono fun fit c₃ h₃ => ?_)
  have hw₃ := h₃.toSays.walked h₂.walked.sound
  have hs₃ := hs.walked (hw₂.trans hw₃)
  have hcounter := hw₃.sound.counter hs₃ counter.name
  simp only [yields_bind, yields_pure] at hcounter
  refine Yields.bindOr (hcounter.mono fun _ c₄ h₄ => Yields.bindOr (h₄.mono fun v c₅ h₅ =>
    Yields.bindOr (h₅.mono fun _ c₆ h₆ => ?_)))
  obtain ⟨hc₆, hs₆, hg₆, frames, s, heq, -, -⟩ := h₆
  refine YieldsOr.bind (YieldsOr.deeper (n := (Exp.forLoop m counter low high body slot).nesting)
    (hb ctx.enterLoop c₆ hc₆ (hs₆.loops _)) (Nat.le_max_right _ _)) fun body' c₇ h₇ => ?_
  have hvalues : c₇.values.outer = c₃.values.enter.outer := by
    rw [h₇.walked.scopes.values_eq, heq]
    rfl
  have hnames : c₇.typeNames = c₃.typeNames := by rw [h₇.walked.scopes.typeNames_eq, heq]
  have hfunctions : c₇.functions = c₃.functions := by rw [h₇.walked.scopes.functions_eq, heq]
  refine Yields.bindOr (yields_exitValues_of_outer hvalues (yieldsOr_pure ?_))
  have hw := Checker.Walked.rescope hnames hfunctions (hg₆.trans h₇.walked.grown) h₇.walked.sound
  have hbody : Ends body.Unbound (fun t => (if (fit && body'.ty.isSome) = true then some Ty.void
      else none) = some t) (fun t => body'.uses t ctx.frame ctx.level) c₂
      { c₇ with values := c₃.values } := by
    refine ⟨hw₃.trans hw, fun t ht => ?_, h₇.reaches⟩
    split at ht
    · cases ht
      trivial
    · cases ht
  exact h₁.seq (h₂.seq hbody)

/-! ## Variables -/

theorem VarWalks.simple {name : String} {binding : Option VarId} :
    VarWalks (.simple m name binding) := by
  intro ctx c hc hs
  rw [checkVar]
  refine Yields.bindOr ((Rule.yields_simple name fun v hv => ?_).mono fun r c₁ h₁ => ?_)
  · obtain ⟨s, hs', -⟩ := hs.values name v hv
    exact ⟨s, hs'⟩
  obtain ⟨slot, ty⟩ := r
  obtain ⟨rfl, ⟨v, s, hl, hv, rfl, rfl⟩ | ⟨hl, rfl, rfl⟩⟩ := h₁
  · refine yieldsOr_pure ⟨.refl hc, fun t ht => hc.slots v s t hv ht, fun _ t ht hg => ?_⟩
    rw [hl]
    exact List.forall_mem_singleton.mpr (hs.reaches hl ht hg)
  · refine yieldsOr_pure ⟨Checker.walked_reported hc _ _, fun t ht => (by cases ht),
      fun hf t ht hg => ?_⟩
    rw [Var.Unbound] at hf
    rw [hl, hf]
    exact List.forall_mem_nil _

theorem VarWalks.field {base : Var} {name : Ident} {position : Option Nat} (hb : VarWalks base) :
    VarWalks (.field m base name position) := by
  intro ctx c hc hs
  rw [checkVar]
  refine (hb ctx c hc hs).bind fun base' c₁ h₁ => ?_
  refine Yields.bindOr ((Rule.yields_field h₁.has name).mono fun r c₂ h₂ => yieldsOr_pure ?_)
  have hw₂ := h₂.toSays.walked h₁.walked.sound
  refine h₁.answer hw₂ fun t ht => ?_
  obtain ⟨u, e, f, hu, he, hf, rfl⟩ := h₂.some_iff.mp ht
  have hshape := Arena.record?_eq_some_iff.mp he
  exact hw₂.has (h₁.walked.sound.rest.closed u _ hshape f.ty
    (List.mem_map_of_mem (List.mem_of_find?_eq_some hf)))

theorem VarWalks.element {base : Var} {index : Exp} (hb : VarWalks base) (hi : ExpWalks index) :
    VarWalks (.element m base index) := by
  intro ctx c hc hs
  rw [checkVar]
  refine ((hb ctx c hc hs).deeper (Nat.le_max_left _ _)).bind fun base' c₁ h₁ => ?_
  refine ((hi ctx c₁ h₁.walked.sound (hs.walked h₁.walked)).deeper (Nat.le_max_right _ _)).bind
    fun index' c₂ h₂ => ?_
  refine Yields.bindOr ((Rule.yields_element (h₂.walked.forall_has h₁.has)).mono
    fun ty c₃ h₃ => yieldsOr_pure ?_)
  have hw₃ := h₃.toSays.walked h₂.walked.sound
  refine (h₁.seq h₂).answer hw₃ fun t ht => ?_
  obtain ⟨-, u, hu, he⟩ := h₃.some_iff.mp ht
  exact hw₃.has (Arena.has_element? h₂.walked.sound.rest.closed he)

end

end TigerCheck
