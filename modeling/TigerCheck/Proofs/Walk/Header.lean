import TigerCheck.Proofs.Walk.Sound

/-!
# Binding the functions of a run

A function of the program gets a frame below that of its surroundings, slots for its static link and
its parameters in that frame, and a signature if its types are found. Then its name is bound, so that
every body of the run can call it.

* `Checker.signatureOf`: the signature that a head declares.
* `Header.Fits`: what is known of a declared function.
* **`Check.yieldsOr_declareFunction`**: a function is declared unless functions are nested too deeply.
* `BindsFunctions`: binding the names of a run. **`Check.yieldsOr_bindFunctions`**.
* `Planned`: the functions of a run whose bodies are to be checked. **`BindsFunctions.planned`**.
-/

namespace TigerCheck

open Check

/-! ## The declared signature -/

namespace Checker

variable {c c' : Checker} {ctx : Context} {name : String}

/-- The result that a head declares, if it is found; a procedure gives no value. -/
def resultOf (c : Checker) (head : FunctionHead) : Option Ty :=
  match head.result with
  | some r => c.typeNamed r.name
  | none => some .void

/-- The signature that a head declares as callers see it, if all its types are found. -/
def signatureOf (c : Checker) (head : FunctionHead) : Option Signature := do
  let params ← head.params.mapM fun p => c.typeNamed p.typeName.name
  let result ← c.resultOf head
  return ⟨params, result⟩

/-- The types and the type names are the same. -/
structure SameTypes (c c' : Checker) : Prop where
  types_eq : c'.types = c.types
  namedTypes_eq : c'.namedTypes = c.namedTypes

theorem SameTypes.refl (c : Checker) : c.SameTypes c := ⟨rfl, rfl⟩

theorem SameTypes.trans {c'' : Checker} (h : c.SameTypes c') (h' : c'.SameTypes c'') :
    c.SameTypes c'' := ⟨h'.types_eq.trans h.types_eq, h'.namedTypes_eq.trans h.namedTypes_eq⟩

theorem SameTypes.clean (h : c.SameTypes c') (hc : c.Clean) : c'.Clean := fun id hs => by
  rw [status, h.namedTypes_eq] at hs
  exact hc id hs

theorem Says.sameTypes (h : c.Says c') : c.SameTypes c' := by
  induction h with
  | quiet => exact .refl c
  | report _ _ _ ih => exact ih.trans ⟨rfl, rfl⟩

/-- A name keeps its type while it stays in scope. -/
theorem AtRest.typeNamed_eq (hc : c.AtRest) (h : c.Extends c') (hn : c'.typeNames = c.typeNames)
    (name : String) : c'.typeNamed name = c.typeNamed name := by
  unfold typeNamed
  rw [hn]
  cases hl : c.typeNames.lookup name with
  | none => rfl
  | some id =>
    obtain ⟨s, hs⟩ := hc.known name id hl
    dsimp only
    rw [hs, h.status id s hs]

theorem AtRest.signatureOf_eq (hc : c.AtRest) (h : c.Extends c') (hn : c'.typeNames = c.typeNames)
    (head : FunctionHead) : c'.signatureOf head = c.signatureOf head := by
  unfold signatureOf resultOf
  simp only [hc.typeNamed_eq h hn]

theorem AtRest.has_resultOf (hc : c.AtRest) {head : FunctionHead} {t : Ty}
    (h : c.resultOf head = some t) : c.types.Has t := by
  unfold resultOf at h
  split at h
  · exact hc.has_typeNamed h
  · cases h
    trivial

theorem AtRest.has_mapM (hc : c.AtRest) {ps : List TypedName} {ts : List Ty}
    (h : ps.mapM (fun p => c.typeNamed p.typeName.name) = some ts) : ∀ t ∈ ts, c.types.Has t := by
  intro t ht
  obtain ⟨p, -, hp⟩ := exists_mem_of_forall₂ (mapM_eq_some_iff.mp h).flip ht
  exact hc.has_typeNamed hp

theorem signatureOf_eq_some_iff {head : FunctionHead} {s : Signature} :
    c.signatureOf head = some s ↔
      head.params.mapM (fun p => c.typeNamed p.typeName.name) = some s.params ∧
        c.resultOf head = some s.result := by
  unfold signatureOf
  cases head.params.mapM (fun p => c.typeNamed p.typeName.name) with
  | none => simp
  | some ps =>
    cases c.resultOf head with
    | none => simp
    | some r => cases s; simp

end Checker

/-! ## Declaring one function -/

/-- The parameters of a function are slots of its frame, with their declared types. -/
def ParamSlots (c : Checker) (frame : FrameId) (ps : List TypedName) (vs : List VarId) : Prop :=
  List.Forall₂ (fun p v => ∃ s, c.frames.vars[v.index]? = some s ∧
    s.ty = c.typeNamed p.typeName.name ∧ s.frame = frame) ps vs

/-- What is known of a declared function: its frame is one level below that of its surroundings, its
parameters are slots of that frame, and its prototype has the declared signature. -/
structure Header.Fits (ctx : Context) (head : FunctionHead) (h : Header) (c : Checker) : Prop where
  level : h.level = ctx.level + 1
  frame : ∃ fr, c.frames.frames[h.frame.index]? = some fr ∧ fr.level = h.level ∧
    fr.parent = some ctx.frame
  prototype : ∃ p link, c.frames.functions[h.id.index]? = some p ∧
    p.origin = .declared h.level h.frame link h.params ∧
    p.signature = (c.signatureOf head).map fun s => ⟨.frame ctx.frame :: s.params, s.result⟩
  params : ParamSlots c h.frame head.params h.params
  result : h.result = (c.signatureOf head).map (·.result)

theorem ParamSlots.extends {c c' : Checker} {frame : FrameId} {ps : List TypedName}
    {vs : List VarId} (h : ParamSlots c frame ps vs) (hc : c.AtRest) (hg : c.Extends c')
    (hn : c'.typeNames = c.typeNames) : ParamSlots c' frame ps vs := by
  refine h.imp fun p v hv => ?_
  obtain ⟨s, hs, hty, hf⟩ := hv
  exact ⟨s, hg.frames.slot v s hs, by rw [hty, hc.typeNamed_eq hg hn], hf⟩

theorem Header.Fits.extends {ctx : Context} {head : FunctionHead} {h : Header} {c c' : Checker}
    (hfits : h.Fits ctx head c) (hc : c.AtRest) (hg : c.Extends c')
    (hn : c'.typeNames = c.typeNames) : h.Fits ctx head c' where
  level := hfits.level
  frame := by
    obtain ⟨fr, hfr, hl, hp⟩ := hfits.frame
    obtain ⟨fr', hfr', hl', hp', -⟩ := hg.frames.frame _ _ hfr
    exact ⟨fr', hfr', hl'.trans hl, hp'.trans hp⟩
  prototype := by
    obtain ⟨p, link, hp, ho, hsig⟩ := hfits.prototype
    exact ⟨p, link, hg.frames.function _ _ hp, ho, by rw [hsig, hc.signatureOf_eq hg hn]⟩
  params := hfits.params.extends hc hg hn
  result := by rw [hfits.result, hc.signatureOf_eq hg hn]

/-- What declaring a function leaves behind. -/
structure DeclaresFunction (ctx : Context) (head : FunctionHead) (c : Checker) (h : Header)
    (c' : Checker) : Prop where
  declared : c.Declared ctx c'
  same : c.SameTypes c'
  values_eq : c'.values = c.values
  typeNames_eq : c'.typeNames = c.typeNames
  functions_eq : c'.functions = c.functions.bind head.name.name h.id
  fits : h.Fits ctx head c'
  quiet : c.Clean → (c'.diagnostics.size = c.diagnostics.size ↔ c.signatureOf head ≠ none)

namespace Check

variable {c : Checker} {ctx : Context}

/-- Every parameter gets a slot. Nothing is reported exactly if every type is found. -/
theorem yields_declareParams {frame : FrameId} (ps : List TypedName) :
    ∀ c : Checker, c.Sound → (∃ owner, c.frames.frames[frame.index]? = some owner) →
    Yields (declareParams frame ps) c fun r c' => c.Walked c' ∧ c.SameTypes c' ∧
      ParamSlots c' frame ps r.1 ∧ r.2 = ps.mapM (fun p => c.typeNamed p.typeName.name) ∧
      (c.Clean → (c'.diagnostics.size = c.diagnostics.size ↔ r.2 ≠ none)) := by
  induction ps with
  | nil => exact fun c hc _ => yields_pure.mpr ⟨.refl hc, .refl c, .nil, rfl, by simp⟩
  | cons p ps ih =>
    rintro c hc ⟨owner, hf⟩
    rw [declareParams, yields_bind]
    refine (yields_typeOf hc.rest p.typeName).mono fun ty c₁ hty => ?_
    have hw₁ := hty.toSays.walked hc
    have hst₁ := hty.toSays.sameTypes
    have hty_eq : ty = c.typeNamed p.typeName.name := hty.eq_option
    have hhas : ∀ t, ty = some t → c₁.types.Has t := fun t ht =>
      hw₁.has (hc.rest.has_typeNamed (hty_eq ▸ ht))
    obtain ⟨owner₁, howner₁, -⟩ := hw₁.grown.frames.frame _ _ hf
    rw [yields_bind]
    refine (hw₁.sound.alloc howner₁ p.name.name hhas .param).mono fun v c₂ h₂ => ?_
    obtain ⟨frames, rfl, halloc, hw₂⟩ := h₂
    obtain ⟨owner₂, howner₂, -⟩ := hw₂.grown.frames.frame _ _ howner₁
    rw [yields_bind]
    refine (ih _ hw₂.sound ⟨owner₂, howner₂⟩).mono fun r c' h => yields_pure.mpr ?_
    obtain ⟨hw, hst, hps, hr, hquiet⟩ := h
    have hw' := (hw₁.trans hw₂).trans hw
    have hnamed : ∀ n, Checker.typeNamed { c₁ with frames } n = c.typeNamed n :=
      hc.rest.typeNamed_eq (hw₁.trans hw₂).grown (hw₁.trans hw₂).scopes.typeNames_eq
    refine ⟨hw', hst₁.trans ⟨hst.types_eq, hst.namedTypes_eq⟩, .cons ?_ hps, ?_, fun hclean => ?_⟩
    · obtain ⟨s, hs, hsty, hsf⟩ := halloc.slot_self
      refine ⟨s, hw.grown.frames.slot v s hs, ?_, hsf⟩
      rw [hsty, hty_eq, hc.rest.typeNamed_eq hw'.grown hw'.scopes.typeNames_eq]
    · simp only [hnamed] at hr
      rw [hr, hty_eq, List.mapM_cons]
      cases c.typeNamed p.typeName.name <;>
        cases ps.mapM (fun p => c.typeNamed p.typeName.name) <;> rfl
    · have hq := hquiet ((hst₁.trans ⟨rfl, rfl⟩ : c.SameTypes { c₁ with frames }).clean hclean)
      have hle₁ := hty.toSays.le
      have hle := hw.grown.diagnostics_le
      change c₁.diagnostics.size ≤ c'.diagnostics.size at hle
      change c'.diagnostics.size = c₁.diagnostics.size ↔ _ at hq
      cases hcty : ty with
      | none =>
        rw [hcty] at hty
        have hlt := hty.lt_of_none (fun h => h hclean)
        simp only [ne_eq, not_true_eq_false, iff_false]
        omega
      | some t =>
        rw [hcty] at hty
        rw [hty.eq_of_some] at hq
        rw [hq]
        cases r.2 <;> simp

theorem yields_declaredResult (hc : c.AtRest) (head : FunctionHead) :
    Yields (declaredResult head.result) c
      (Judges c (fun t => c.resultOf head = some t) (¬ c.Clean)) := by
  unfold Checker.resultOf
  cases head.result with
  | none => exact yields_pure.mpr (.found (by simp [eq_comm]))
  | some r => exact yields_typeOf hc r

/-- A function with a sound signature can be added to the table and bound. -/
theorem declared_addFunction (hc : c.Sound) (hs : ctx.Sits c) {p : Prototype}
    (hsig : ∀ sig, p.signature = some sig → p.hiddenParams ≤ sig.params.length ∧
      (∀ t ∈ sig.params, c.types.Has t) ∧ c.types.Has sig.result) :
    Yields (addFunction p) c fun id c' => c.Declared ctx c' ∧ c.SameTypes c' ∧
      c'.values = c.values ∧ c'.typeNames = c.typeNames ∧
      c'.functions = c.functions.bind p.name id ∧ c'.diagnostics = c.diagnostics ∧
      c'.frames.functions[id.index]? = some p := by
  have hg := FrameTable.grows_addFunction c.frames p
  have hself : (c.frames.addFunction p).2.functions[(c.frames.addFunction p).1.index]? = some p :=
    Array.getElem?_push_size
  have hext : c.Extends { c with
      frames := (c.frames.addFunction p).2
      functions := c.functions.bind p.name (c.frames.addFunction p).1 } :=
    ⟨fun _ _ h => h, fun _ _ h => h, hg, Nat.le_refl _, rfl⟩
  refine yields_addFunction.mpr ⟨⟨hext, rfl, rfl, rfl, ?_, hs.extends hext rfl⟩, ⟨rfl, rfl⟩, rfl, rfl,
    rfl, rfl, hself⟩
  refine ⟨hc.rest.congr rfl rfl rfl, hc.linked.addFunction p,
    hc.slots, fun f q sig hq hqs => ?_, fun name f hf => ?_⟩
  · simp only [FrameTable.addFunction, Array.getElem?_push] at hq
    split at hq
    · cases hq
      exact hsig sig hqs
    · exact hc.signatures f q sig hq hqs
  · rw [Scopes.lookup_bind] at hf
    split at hf
    · cases hf
      exact ⟨p, hself⟩
    · obtain ⟨q, hq⟩ := hc.functions name f hf
      exact ⟨q, hg.function f q hq⟩

/-- The end of declaring a function, after its frame and its slots are there. -/
theorem yields_addHeader (hc : c.Sound) (hs : ctx.Sits c) {head : FunctionHead} {c' : Checker}
    {frame : FrameId} {params : List VarId} (link : VarId) (hw : c.Walked c')
    (hsame : c.SameTypes c')
    (hframe : ∃ fr, c'.frames.frames[frame.index]? = some fr ∧ fr.level = ctx.level + 1 ∧
      fr.parent = some ctx.frame)
    (hparams : ParamSlots c' frame head.params params)
    (hquiet : c.Clean → (c'.diagnostics.size = c.diagnostics.size ↔ c.signatureOf head ≠ none))
    (signature : Option Signature) (hsig : signature = (c.signatureOf head).map fun s =>
      ⟨.frame ctx.frame :: s.params, s.result⟩) :
    Yields (do
      let id ← addFunction ⟨head.name.name, signature, .declared (ctx.level + 1) frame link params⟩
      log (.functionDeclared head.name.name (ctx.level + 1))
      return ⟨id, ctx.level + 1, frame, params, signature.map (·.result)⟩) c'
      (DeclaresFunction ctx head c) := by
  subst hsig
  rw [yields_bind]
  refine (declared_addFunction hw.sound (hs.walked hw) fun sig h => ?_).mono fun id d h => ?_
  · obtain ⟨s, hs', rfl⟩ := Option.map_eq_some_iff.mp h
    obtain ⟨hps, hr⟩ := Checker.signatureOf_eq_some_iff.mp hs'
    refine ⟨Nat.succ_le_succ (Nat.zero_le _), fun t ht => ?_, hw.has (hc.rest.has_resultOf hr)⟩
    rcases List.mem_cons.mp ht with rfl | ht
    · trivial
    · exact hw.has (hc.rest.has_mapM hps t ht)
  obtain ⟨hd, hst, hv, ht, hf, hdiag, hproto⟩ := h
  rw [yields_bind, yields_log, yields_pure]
  have hnote := Checker.walked_note hd.sound (.functionDeclared head.name.name (ctx.level + 1))
  have hdecl := ((hw.declared hs).trans hd).trans (hnote.declared hd.sits)
  have hg := hd.grown.trans hnote.grown
  have hnames : d.typeNames = c.typeNames := ht.trans hw.scopes.typeNames_eq
  have hsignature := hc.rest.signatureOf_eq hdecl.grown hnames head
  refine ⟨hdecl, (hsame.trans hst).trans ⟨rfl, rfl⟩, hv.trans hw.scopes.values_eq, hnames,
    by rw [← hw.scopes.functions_eq]; exact hf, ⟨rfl, ?_, ?_, ?_, ?_⟩, fun hclean => ?_⟩
  · obtain ⟨fr, hfr, hl, hp⟩ := hframe
    obtain ⟨fr', hfr', hl', hp', -⟩ := hg.frames.frame _ _ hfr
    exact ⟨fr', hfr', by rw [hl', hl], by rw [hp', hp]⟩
  · exact ⟨_, link, hproto, rfl, by rw [hsignature]⟩
  · exact hparams.extends hw.sound.rest hg (hnames.trans hw.scopes.typeNames_eq.symm)
  · rw [hsignature, Option.map_map]
    rfl
  · rw [← hquiet hclean, ← hdiag]
    rfl

/-- **A function is declared unless functions are nested too deeply.** -/
theorem yieldsOr_declareFunction (hc : c.Sound) (hs : ctx.Sits c) (head : FunctionHead) :
    YieldsOr (maxLevel ≤ ctx.level) (declareFunction ctx head) c (DeclaresFunction ctx head c) := by
  unfold declareFunction
  by_cases hlevel : ctx.level < maxLevel
  swap
  · exact Or.inr ⟨Nat.le_of_not_lt hlevel, by rw [if_neg hlevel]; rfl⟩
  refine Yields.or ?_
  rw [if_pos hlevel]
  dsimp only
  rw [yields_bind]
  refine (hc.newFrame hs _).mono fun frame c₁ h₁ => ?_
  obtain ⟨frames₁, hc₁, hw₁, fr₁, hfr₁, hl₁, hp₁⟩ := h₁
  rw [← show c₁.frames = frames₁ by rw [hc₁]] at hfr₁
  rw [yields_bind]
  refine (hw₁.sound.alloc hfr₁ "staticLink" (fun t ht => ?_) .staticLink).mono fun link c₂ h₂ => ?_
  · cases ht
    trivial
  obtain ⟨frames₂, hc₂, -, hw₂⟩ := h₂
  obtain ⟨fr₂, hfr₂, hl₂, hp₂, -⟩ := hw₂.grown.frames.frame _ _ hfr₁
  have hw₁₂ := hw₁.trans hw₂
  have hst₂ : c.SameTypes c₂ := by rw [hc₂, hc₁]; exact ⟨rfl, rfl⟩
  have hdiag₂ : c₂.diagnostics = c.diagnostics := by rw [hc₂, hc₁]
  rw [yields_bind]
  refine (yields_declareParams head.params _ hw₂.sound ⟨fr₂, hfr₂⟩).mono fun r c₃ h₃ => ?_
  obtain ⟨params, paramTypes⟩ := r
  obtain ⟨hw₃, hst₃, hparams, htypes, hquiet₃⟩ := h₃
  obtain ⟨fr₃, hfr₃, hl₃, hp₃, -⟩ := hw₃.grown.frames.frame _ _ hfr₂
  have hw₁₃ := hw₁₂.trans hw₃
  rw [yields_bind]
  refine (yields_declaredResult hw₃.sound.rest head).mono fun result c₄ h₄ => ?_
  have hw₃₄ := h₄.toSays.walked hw₃.sound
  obtain ⟨fr₄, hfr₄, hl₄, hp₄, -⟩ := hw₃₄.grown.frames.frame _ _ hfr₃
  have hresult : result = c.resultOf head := by
    rw [h₄.eq_option]
    unfold Checker.resultOf
    simp only [hc.rest.typeNamed_eq hw₁₃.grown hw₁₃.scopes.typeNames_eq]
  have hptypes : paramTypes = head.params.mapM fun p => c.typeNamed p.typeName.name := by
    simp only [hc.rest.typeNamed_eq hw₁₂.grown hw₁₂.scopes.typeNames_eq] at htypes
    exact htypes
  refine yields_addHeader hc hs link (hw₁₃.trans hw₃₄) ((hst₂.trans hst₃).trans h₄.toSays.sameTypes)
    ⟨fr₄, hfr₄, by rw [hl₄, hl₃, hl₂, hl₁], by rw [hp₄, hp₃, hp₂, hp₁]⟩
    (hparams.extends hw₃.sound.rest hw₃₄.grown hw₃₄.scopes.typeNames_eq) (fun hclean => ?_) _ ?_
  · -- nothing is reported exactly if neither the parameters nor the result are
    have hq₃ := hquiet₃ (hst₂.clean hclean)
    have hle₃ := hw₃.grown.diagnostics_le
    have hle₄ := h₄.toSays.le
    rw [hdiag₂] at hq₃ hle₃
    rw [Option.ne_none_iff_exists']
    simp only [Checker.signatureOf_eq_some_iff, ← hptypes, ← hresult]
    cases result with
    | none =>
      have hlt := h₄.lt_of_none (fun h => h ((hst₂.trans hst₃).clean hclean))
      simp
      omega
    | some r =>
      rw [h₄.eq_of_some, hq₃]
      cases paramTypes with
      | none => simp
      | some ps =>
        simp only [ne_eq, reduceCtorEq, not_false_eq_true, true_iff]
        exact ⟨⟨ps, r⟩, rfl, rfl⟩
  · rw [hresult, hptypes]
    unfold Checker.signatureOf
    cases head.params.mapM (fun p => c.typeNamed p.typeName.name) <;>
      cases c.resultOf head <;> rfl

end Check

/-! ## Binding the functions of a run -/

/-- The names of a run of functions are bound, except those that occurred before. -/
inductive BindsFunctions (ctx : Context) :
    List String → List Dec → Checker → List Plan → Checker → Prop where
  | nil {seen : List String} {c : Checker} : BindsFunctions ctx seen [] c [] c
  | dropped {seen : List String} {d : Dec} {ds : List Dec} {c c' : Checker} {plans : List Plan} :
      d.name.name ∈ seen →
      BindsFunctions ctx seen ds (c.reported (.duplicateDefinition d.name.name) d.name.loc) plans c' →
      BindsFunctions ctx seen (d :: ds) c (.dropped :: plans) c'
  | bound {seen : List String} {head : FunctionHead} {body : Exp} {loc : Location}
      {id : Option FunctionId} {ds : List Dec} {c c₁ c' : Checker} {h : Header} {plans : List Plan} :
      head.name.name ∉ seen → DeclaresFunction ctx head c h c₁ →
      BindsFunctions ctx (head.name.name :: seen) ds c₁ plans c' →
      BindsFunctions ctx seen (.function head body loc id :: ds) c (.functionBody h :: plans) c'

/-- How the plans of a run of functions fit its declarations. -/
inductive Plan.Fits (ctx : Context) (c : Checker) : Plan → Dec → Prop where
  | dropped {d : Dec} : Plan.Fits ctx c .dropped d
  | functionBody {h : Header} {head : FunctionHead} {body : Exp} {loc : Location}
      {id : Option FunctionId} : h.Fits ctx head c →
      Plan.Fits ctx c (.functionBody h) (.function head body loc id)

/-- **The names of a run of functions are bound unless functions are nested too deeply.** -/
theorem Check.yieldsOr_bindFunctions {ctx : Context} {ds : List Dec}
    (hds : ∀ d ∈ ds, d.kind = .function) : ∀ (seen : List String) (c : Checker), c.Sound →
    ctx.Sits c → YieldsOr (maxLevel ≤ ctx.level) (bindHeaders ctx seen ds) c
      fun plans c' => BindsFunctions ctx seen ds c plans c' := by
  induction ds with
  | nil => exact fun seen c _ _ => yieldsOr_pure .nil
  | cons d ds ih =>
    intro seen c hc hs
    obtain ⟨hd, hrest⟩ := List.forall_mem_cons.mp hds
    rw [bindHeaders]
    by_cases hseen : d.name.name ∈ seen
    · rw [if_pos hseen]
      refine Yields.bindOr (yields_report.mpr ?_)
      have hw := Checker.walked_reported hc (.duplicateDefinition d.name.name) d.name.loc
      refine (ih hrest seen _ hw.sound (hs.walked hw)).bind fun plans c' h => ?_
      exact yieldsOr_pure (.dropped hseen h)
    · rw [if_neg hseen]
      cases d with
      | type => cases hd
      | var => cases hd
      | function head body loc id =>
        dsimp only
        refine YieldsOr.bind (R := fun plan c' => ∃ h, plan = .functionBody h ∧
          DeclaresFunction ctx head c h c') ?_ ?_
        · rw [map_eq_pure_bind]
          refine (yieldsOr_declareFunction hc hs head).bind fun h c₁ hh => ?_
          exact yieldsOr_pure ⟨h, rfl, hh⟩
        · rintro _ c₁ ⟨h, rfl, hh⟩
          refine (ih hrest _ c₁ hh.declared.sound hh.declared.sits).bind fun plans c' hb => ?_
          exact yieldsOr_pure (.bound hseen hh hb)

namespace BindsFunctions

variable {ctx : Context} {seen : List String} {ds : List Dec} {c c' : Checker} {plans : List Plan}

theorem length_eq (h : BindsFunctions ctx seen ds c plans c') : plans.length = ds.length := by
  induction h with
  | nil => rfl
  | dropped _ _ ih => rw [List.length_cons, List.length_cons, ih]
  | bound _ _ _ ih => rw [List.length_cons, List.length_cons, ih]

theorem declared (h : BindsFunctions ctx seen ds c plans c') (hc : c.Sound) (hs : ctx.Sits c) :
    c.Declared ctx c' := by
  induction h with
  | nil => exact .refl hc hs
  | @dropped seen d ds c c' plans _ _ ih =>
    have hd := (Checker.walked_reported hc (.duplicateDefinition d.name.name) d.name.loc).declared hs
    exact hd.trans (ih hd.sound hd.sits)
  | bound _ hd _ ih => exact hd.declared.trans (ih hd.declared.sound hd.declared.sits)

theorem sameTypes (h : BindsFunctions ctx seen ds c plans c') : c.SameTypes c' := by
  induction h with
  | nil => exact .refl _
  | dropped _ _ ih => exact ⟨ih.types_eq, ih.namedTypes_eq⟩
  | bound _ hd _ ih => exact hd.same.trans ih

theorem scopes_eq (h : BindsFunctions ctx seen ds c plans c') :
    c'.values = c.values ∧ c'.typeNames = c.typeNames := by
  induction h with
  | nil => exact ⟨rfl, rfl⟩
  | dropped _ _ ih => exact ih
  | bound _ hd _ ih => exact ⟨ih.1.trans hd.values_eq, ih.2.trans hd.typeNames_eq⟩

/-- When all names of a run are bound, the plans fit the declarations. -/
theorem fits (h : BindsFunctions ctx seen ds c plans c') (hc : c.Sound) (hs : ctx.Sits c) :
    List.Forall₂ (Plan.Fits ctx c') plans ds := by
  induction h with
  | nil => exact .nil
  | @dropped seen d ds c c' plans _ _ ih =>
    have hd := (Checker.walked_reported hc (.duplicateDefinition d.name.name) d.name.loc).declared hs
    exact .cons .dropped (ih hd.sound hd.sits)
  | bound _ hd hrest ih =>
    refine .cons (.functionBody ?_) (ih hd.declared.sound hd.declared.sits)
    exact hd.fits.extends hd.declared.sound.rest
      (hrest.declared hd.declared.sound hd.declared.sits).grown hrest.scopes_eq.2

end BindsFunctions

/-! ## The functions that are bound -/

/-- The functions of a run whose bodies are to be checked, given the names that occurred before. -/
inductive Planned (ctx : Context) (c : Checker) : List String → List Plan → List Dec → Prop where
  | nil {seen : List String} : Planned ctx c seen [] []
  | dropped {seen : List String} {plans : List Plan} {d : Dec} {ds : List Dec} :
      d.kind = .function → d.name.name ∈ seen → Planned ctx c seen plans ds →
      Planned ctx c seen (.dropped :: plans) (d :: ds)
  | body {seen : List String} {g : Header} {plans : List Plan} {head : FunctionHead} {body : Exp}
      {loc : Location} {id : Option FunctionId} {ds : List Dec} :
      head.name.name ∉ seen → g.Fits ctx head c → Planned ctx c (head.name.name :: seen) plans ds →
      Planned ctx c seen (.functionBody g :: plans) (.function head body loc id :: ds)

/-- The functions of a run that are bound are those whose bodies are to be checked. -/
theorem BindsFunctions.planned {ctx : Context} {seen : List String} {ds : List Dec} {c c' : Checker}
    {plans : List Plan} (h : BindsFunctions ctx seen ds c plans c') (hk : ∀ x ∈ ds, x.kind = .function) (hc : c.Sound) (hs : ctx.Sits c) :
    Planned ctx c' seen plans ds := by
  induction h with
  | nil => exact .nil
  | @dropped seen x ds c c' plans hseen _ ih =>
    obtain ⟨hx, hds⟩ := List.forall_mem_cons.mp hk
    have hw := Checker.walked_reported hc (.duplicateDefinition x.name.name) x.name.loc
    exact .dropped hx hseen (ih hds hw.sound (hs.walked hw))
  | bound hseen hd hrest ih =>
    obtain ⟨-, hds⟩ := List.forall_mem_cons.mp hk
    refine .body hseen ?_ (ih hds hd.declared.sound hd.declared.sits)
    exact hd.fits.extends hd.declared.sound.rest
      (hrest.declared hd.declared.sound hd.declared.sits).grown hrest.scopes_eq.2

theorem Planned.walked {ctx : Context} {seen : List String} {ds : List Dec} {c c' : Checker} {plans : List Plan}
    (h : Planned ctx c seen plans ds) (hc : c.Sound) (hw : c.Walked c') : Planned ctx c' seen plans ds := by
  induction h with
  | nil => exact .nil
  | dropped hk hseen _ ih => exact .dropped hk hseen ih
  | body hseen hfits _ ih =>
    exact .body hseen (hfits.extends hc.rest hw.grown hw.scopes.typeNames_eq) ih

end TigerCheck
