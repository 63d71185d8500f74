import TigerCheck.Proofs.Scope.Survey
import TigerCheck.Proofs.Walk.Steps

/-!
# The sites of function heads

The functions of a run are bound before their bodies are checked. Binding a function adds a frame with the
static link and the parameters, and a prototype; and it looks up the type names of the signature.

* `paramSites`: the type names and the slots of parameters, in the order in which they are met.
* **`surveys_declareParams`**, **`surveys_signature`**: the slots of a new frame.
* **`headed_of_run`**: one function.
-/

namespace TigerCheck

open Check

variable {ctx : Context} {pl : Place} {n : ℕ} {c c' : Checker} {head : FunctionHead}

/-! ## Parameters -/

/-- The type names of parameters and the slots that they get. -/
def paramSites (pl : Place) : List TypedName → List VarId → List Site
  | p :: ps, v :: vs => .typeName pl p.typeName :: .slot pl (some v) :: paramSites pl ps vs
  | _, _ => []

section

variable {ps : List TypedName} {vs : List VarId} {R : TypedName → VarId → Prop}

theorem slots_paramSites (t : FrameTable) (h : List.Forall₂ R ps vs) :
    (paramSites pl ps vs).flatMap (Site.slots t) = vs.map some := by
  induction h with
  | nil => rfl
  | cons _ _ ih => rw [paramSites, List.flatMap_cons, List.flatMap_cons, ih]; rfl

theorem functions_paramSites (h : List.Forall₂ R ps vs) :
    (paramSites pl ps vs).flatMap Site.functions = [] := by
  induction h with
  | nil => rfl
  | cons _ _ ih => rw [paramSites, List.flatMap_cons, List.flatMap_cons, ih]; rfl

theorem frames_paramSites (t : FrameTable) (h : List.Forall₂ R ps vs) :
    (paramSites pl ps vs).flatMap (Site.frames t) = [] := by
  induction h with
  | nil => rfl
  | cons _ _ ih => rw [paramSites, List.flatMap_cons, List.flatMap_cons, ih]; rfl

theorem unbound_paramSites (h : List.Forall₂ R ps vs) : (paramSites pl ps vs).filterMap Site.unbound =
    ((ps.map (·.typeName)).map (Site.typeName pl)).filterMap Site.unbound := by
  induction h with
  | nil => rfl
  | cons _ _ ih =>
    rw [paramSites, List.map_cons, List.map_cons, List.filterMap_cons, List.filterMap_cons,
      List.filterMap_cons, ih]
    rfl

end

/-- **Every parameter gets a slot**, after its type name is looked up. -/
theorem surveys_declareParams {frame : FrameId} (ps : List TypedName) :
    ∀ {c c' : Checker} {r : List VarId × Option (List Ty)}, c.Sound →
    pl.types = c.typeNames.lookup → (∃ owner, c.frames.frames[frame.index]? = some owner) →
    (declareParams frame ps).run c = .ok (r, c') →
    Surveys frame c (fun _ => paramSites pl ps r.1) (r.1.map some) 0 c' ∧
      List.Forall₂ (c'.HasParam pl) ps r.1 := by
  induction ps with
  | nil =>
    intro c c' r _ _ _ h
    cases h
    exact ⟨.of_tallies (.refl c) rfl fun _ _ => List.forall_mem_nil _, .nil⟩
  | cons p ps ih =>
    rintro c c' r hc hpl ⟨owner, hf⟩ h
    have hw := ((yields_declareParams (p :: ps) c hc ⟨owner, hf⟩).of_run h).1
    obtain ⟨ty, c₁, v, frames, r', h₁, halloc, h₃, hr⟩ := exists_of_run_declareParams h
    rw [hr]
    have hjudged := (yields_typeOf hc.rest p.typeName).of_run h₁
    have hw₁ := hjudged.toSays.walked hc
    have hty : ty = c.typeNamed p.typeName.name := hjudged.eq_option
    obtain ⟨owner₁, howner₁, -⟩ := hw₁.grown.frames.frame _ _ hf
    obtain ⟨-, -, -, hw₂⟩ := (hw₁.sound.alloc howner₁ p.name.name (fun t ht =>
      hw₁.has (hc.rest.has_typeNamed (hty ▸ ht))) .param).of_run (run_alloc halloc)
    obtain ⟨owner₂, howner₂, -⟩ := hw₂.grown.frames.frame _ _ howner₁
    have hpl₂ : pl.types = c₁.typeNames.lookup := by rw [hw₁.scopes.typeNames_eq, hpl]
    have hname : Surveys frame c (fun _ => [.typeName pl p.typeName]) [] 0 c₁ :=
      surveys_typeOf hc.rest hpl h₁
    have hslot : Surveys frame c₁ (fun _ => [.slot pl (some v)]) [some v] 0 { c₁ with frames } :=
      surveys_slot pl halloc hw₂.grown rfl rfl rfl
    obtain ⟨hrest, hparams⟩ := ih hw₂.sound hpl₂ ⟨owner₂, howner₂⟩ h₃
    have hlt := (Array.getElem?_eq_some_iff.mp hf).1
    have hlt₁ := (Array.getElem?_eq_some_iff.mp howner₁).1
    refine ⟨hname.seq (hslot.seq hrest hlt₁) hlt, .cons ?_ hparams⟩
    obtain ⟨-, -, -, -, -, s, hs, hsname, hsty, hskind⟩ := FrameTable.appends_of_alloc halloc
    refine ⟨s, hrest.tallies.grown.frames.slot _ _ hs, hsname, hskind, ?_⟩
    rw [hsty, hty, Place.typeNamed_extends (Place.settled hc.rest hpl) hw.grown,
      Place.typeNamed_eq hpl]

/-! ## One function -/

/-- The frame of a function whose body is not checked yet. -/
def FrameTable.Opened (t : FrameTable) (pl : Place) (frame : FrameId) (link : VarId)
    (params : List VarId) : Prop :=
  ∃ fr, t.frames[frame.index]? = some fr ∧ fr.level = pl.level + 1 ∧ fr.parent = some pl.frame ∧
    fr.slots.toList = link :: params

/-- What binding a function adds: a frame with the static link and the parameters, a prototype, and what
is reported of the signature's type names. -/
structure Headed (pl : Place) (c : Checker) (head : FunctionHead) (h : Header) (c' : Checker) : Prop where
  tallies : ∀ body, Tallies c
    (fun _ => .function pl head body (some h.id) :: head.mentions.map (.typeName pl)) 0 c'
  alters : c.frames.Alters [] c'.frames
  new : c.frames.frames.size ≤ h.frame.index
  level : h.level = pl.level + 1
  opened : ∃ link, HeadSite c' pl head h.id h.frame link h.params ∧
    c'.frames.Opened pl h.frame link h.params

/-- The slots of a new frame, and the type names that are looked up on the way. -/
theorem surveys_signature {frame outer : FrameId} {link : VarId} {frames₂ : FrameTable} {c₃ c₄ : Checker}
    {r : List VarId × Option (List Ty)} {result : Option Ty} (hc : c.Sound)
    (htypes : pl.types = c.typeNames.lookup) (hlt : frame.index < c.frames.frames.size)
    (hlink : c.frames.alloc frame "staticLink" (some (.frame outer)) .staticLink = .ok (link, frames₂))
    (hparams : (declareParams frame head.params).run { c with frames := frames₂ } = .ok (r, c₃))
    (hresult : (declaredResult head.result).run c₃ = .ok (result, c₄)) :
    Surveys frame c (fun _ => .slot pl (some link) :: (paramSites pl head.params r.1 ++
      head.result.toList.map (.typeName pl))) (some link :: r.1.map some) 0 c₄ ∧
      List.Forall₂ (c₄.HasParam pl) head.params r.1 ∧ ∃ s, c₄.frames.vars[link.index]? = some s ∧
        s.kind = .staticLink ∧ s.ty = some (.frame outer) := by
  obtain ⟨-, -, -, hw₂⟩ := (hc.alloc (Array.getElem?_eq_getElem hlt) "staticLink"
    (fun t ht => by cases ht; trivial) .staticLink).of_run (run_alloc hlink)
  obtain ⟨owner₂, howner₂, -⟩ := hw₂.grown.frames.frame _ _ (Array.getElem?_eq_getElem hlt)
  have hslot : Surveys frame c (fun _ => [.slot pl (some link)]) [some link] 0 { c with frames := frames₂ } :=
    surveys_slot pl hlink hw₂.grown rfl rfl rfl
  obtain ⟨hps, hall⟩ := surveys_declareParams head.params hw₂.sound htypes ⟨owner₂, howner₂⟩ hparams
  have hw₃ := ((yields_declareParams head.params _ hw₂.sound ⟨owner₂, howner₂⟩).of_run hparams).1
  have htypes₃ : pl.types = c₃.typeNames.lookup := by
    rw [htypes, hw₃.scopes.typeNames_eq]
  have hend : Surveys frame c₃ (fun _ => head.result.toList.map (.typeName pl)) [] 0 c₄ := by
    cases hres : head.result with
    | none =>
      rw [hres] at hresult
      cases hresult
      exact .of_tallies (.refl _) rfl fun _ _ => List.forall_mem_nil _
    | some name =>
      rw [hres] at hresult
      exact surveys_typeOf hw₃.sound.rest htypes₃ hresult
  have hlt₂ := (Array.getElem?_eq_some_iff.mp howner₂).1
  have hall' := hslot.seq (hps.seq hend hlt₂) hlt
  refine ⟨hall'.congr_grows (fun _ _ => rfl) (by simp) rfl, hall.imp fun p v hv => ?_, ?_⟩
  · exact hv.extends (Place.settled hw₃.sound.rest htypes₃) hend.tallies.grown
  · obtain ⟨-, -, -, -, -, s, hs, -, hty, hkind⟩ := FrameTable.appends_of_alloc hlink
    exact ⟨s, (hw₃.grown.trans hend.tallies.grown).frames.slot _ _ hs, hkind, hty⟩

/-- **Binding a function** adds what its head declares. -/
theorem headed_of_run {h : Header} (hc : c.Sound) (hs : ctx.Sits c)
    (htypes : pl.types = c.typeNames.lookup) (hframe : pl.frame = ctx.frame)
    (hlevel : pl.level = ctx.level) (hrun : (declareFunction ctx head).run c = .ok (h, c')) :
    Headed pl c head h c' := by
  have hdecl := (yieldsOr_declareFunction hc hs head).of_run hrun
  obtain ⟨link, frames₂, r, c₃, result, c₄, signature, hlink, hparams, hresult, rfl, hc'⟩ :=
    exists_of_run_declareFunction hrun
  have hframes' : c'.frames = (c₄.frames.addFunction ⟨head.name.name, signature,
    .declared (ctx.level + 1) ⟨c.frames.frames.size⟩ link r.1⟩).2 := by rw [hc']; rfl
  have hdiag' : c'.diagnostics = c₄.diagnostics := by rw [hc']; rfl
  have hnamed' : c'.namedTypes = c₄.namedTypes := by rw [hc']; rfl
  obtain ⟨-, -, hw₁, -⟩ := (hc.newFrame hs (head.name.name ++ "Frame")).of_run rfl
  obtain ⟨hsig, hall, s, hs, hkind, hty⟩ := surveys_signature hw₁.sound htypes
    (by exact Nat.lt_of_lt_of_eq (Nat.lt_succ_self _) (Array.size_push _).symm) hlink hparams hresult
  obtain ⟨vs, hvs, happ⟩ := hsig.appends
  obtain rfl : link :: r.1 = vs := List.map_injective_iff.mpr (Option.some_injective _) hvs
  -- the sizes of the tables
  have hbare := bare_typeNames pl head.result.toList
  have hvars := hsig.tallies.slots _ (.refl _)
  have hfunctions := hsig.tallies.functions _ (.refl _)
  have hframes := hsig.tallies.frames _ (.refl _)
  have hunbound := hsig.tallies.unbound _ (.refl _)
  simp only [List.flatMap_cons, List.flatMap_append, slots_paramSites _ hall, functions_paramSites hall,
    frames_paramSites _ hall, slots_of_bare hbare, functions_of_bare hbare, frames_of_bare hbare,
    List.append_nil, Site.slots, Site.functions, Site.frames] at hvars hfunctions hframes
  have hsizeFunctions : c₄.frames.functions.size = c.frames.functions.size :=
    Nat.le_antisymm (handles_eq_nil_iff.mp hfunctions.symm) hsig.tallies.grown.frames.functions_le
  have hsizeFrames : c₄.frames.frames.size = c.frames.frames.size + 1 :=
    (Nat.le_antisymm (handles_eq_nil_iff.mp hframes.symm) happ.size_le).trans (Array.size_push _)
  have hsizeTypes : c₄.namedTypes.size = c.namedTypes.size := hsig.tallies.types
  -- the prototype
  have hpush : c'.frames.functions[(⟨c₄.frames.functions.size⟩ : FunctionId).index]? = some ⟨head.name.name,
      signature, .declared (ctx.level + 1) ⟨c.frames.frames.size⟩ link r.1⟩ := by
    rw [hframes']
    exact Array.getElem?_push_size
  have hsignature : signature = (pl.signatureOf c' head).map fun s =>
      ⟨.frame pl.frame :: s.params, s.result⟩ := by
    obtain ⟨p, -, hp, -, hps⟩ := hdecl.fits.prototype
    obtain rfl := Option.some.inj (hp.symm.trans hpush)
    rw [hframe, Place.signatureOf_eq (by rw [htypes, hdecl.typeNames_eq])]
    exact hps
  have hext : c₄.Extends c' := by
    rw [hc']
    exact ⟨fun _ _ h => h, fun _ _ h => h, FrameTable.grows_addFunction _ _, Nat.le_refl _, rfl⟩
  have hbare' := bare_typeNames pl head.mentions
  refine ⟨fun body => ⟨hdecl.declared.grown, fun t ht => ?_, fun t _ => ?_, fun t ht => ?_, ?_, fun t _ => ?_⟩,
    ⟨fun g _ hlt => ?_, ?_⟩, Nat.le_refl _, by rw [hlevel], link, ⟨?_, ?_, ?_, ?_⟩, ?_⟩
  · rw [List.flatMap_cons, slots_of_bare hbare', List.append_nil, Site.slots_of_declared (ht.function _ _ hpush),
      hframes']
    exact hvars
  · rw [List.flatMap_cons, functions_of_bare hbare', List.append_nil, Site.functions, hframes',
      FrameTable.addFunction, Array.size_push, hsizeFunctions, handles_succ]
  · rw [List.flatMap_cons, frames_of_bare hbare', List.append_nil, Site.frames,
      FrameTable.bodyFrame_of_declared (ht.function _ _ hpush), hframes', FrameTable.addFunction,
      hsizeFrames, handles_succ]
  · rw [hnamed', hsizeTypes, Nat.add_zero]
  · rw [hdiag']
    refine hunbound.trans (.of_eq (congrArg _ ?_))
    rw [List.filterMap_cons, List.filterMap_append, unbound_paramSites hall, List.filterMap_cons,
      FunctionHead.mentions, List.map_append, List.filterMap_append]
    rfl
  · have hne : g ≠ ⟨c.frames.frames.size⟩ := fun h => Nat.lt_irrefl _ (h ▸ hlt)
    rw [hframes']
    refine (happ.others g hne ?_).trans ((FrameTable.Appends.newFrame ..).others g hne hlt)
    exact Nat.lt_of_lt_of_eq (Nat.lt_succ_of_lt hlt) (Array.size_push _).symm
  · rw [hframes', FrameTable.addFunction, hsizeFrames]
    exact Nat.le_succ _
  · rw [← hsignature, hlevel]
    exact hpush
  · obtain ⟨fr, hfr, hl⟩ := hdecl.declared.sits.frame
    exact ⟨fr, by rw [hframe, hfr], by rw [hl, hlevel]⟩
  · exact ⟨s, hext.frames.slot _ _ hs, hkind, by rw [hty, hframe]⟩
  · have hset := (Place.settled hc.rest htypes).extends (hw₁.grown.trans hsig.tallies.grown)
    exact hall.imp fun p v hv => hv.extends hset hext
  · have hnew := happ.frame _ Array.getElem?_push_size
    refine ⟨_, by rw [hframes']; exact hnew, by rw [hlevel], by rw [hframe], by simp⟩

end TigerCheck
