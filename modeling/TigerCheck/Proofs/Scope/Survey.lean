import TigerCheck.Proofs.Scope.Tally
import TigerCheck.Proofs.Walk.Header

/-!
# What holds of a site

The cell of a use or a call holds what its name stands for at its place, and the function of a call can be
called from there. A declared function has a prototype and a frame that fit its place, its head and its
body. All of this is shown when the site is met, and it still holds when the walk is over.

* `FrameTable.Callable`: the frame around a function also encloses the code that calls it.
* `Place.signatureOf`: the signature that a head declares at a place.
* `HeadSite`, `FrameTable.FrameSite`: the prototype and the frame of a declared function.
* `Site.Holds`: what holds of a site in a state of the walk.
* `Context.place`, `Context.Calls`: the place at which the walk is, and the functions in scope there.
* `Surveys`: what a part of the walk adds, with what holds of its sites. **`Surveys.seq`**.
-/

namespace TigerCheck

open Check

/-! ## Callable functions -/

/-- A function is an intrinsic, or it is declared in code whose frame encloses a given one. Then its frame
is one level below that frame, which is what its static link stands for, and its signature begins with the
link. -/
def FrameTable.Callable (t : FrameTable) (caller : FrameId) (id : FunctionId) : Prop :=
  ∃ p, t.functions[id.index]? = some p ∧ ∀ level frame link params,
    p.origin = .declared level frame link params → ∃ fr outer s,
      t.frames[frame.index]? = some fr ∧ fr.level = level ∧ fr.parent = some outer ∧
      t.Encloses outer caller ∧ t.vars[link.index]? = some s ∧ s.ty = some (.frame outer) ∧
      ∀ sig, p.signature = some sig → sig.params.head? = some (.frame outer)

theorem FrameTable.Callable.grows {t t' : FrameTable} {caller : FrameId} {id : FunctionId}
    (h : t.Callable caller id) (hg : t.Grows t') : t'.Callable caller id := by
  obtain ⟨p, hp, hdecl⟩ := h
  refine ⟨p, hg.function _ _ hp, fun level frame link params ho => ?_⟩
  obtain ⟨fr, outer, s, hfr, hl, hpar, henc, hs, hty, hsig⟩ := hdecl level frame link params ho
  obtain ⟨fr', hfr', hl', hpar', -⟩ := hg.frame _ _ hfr
  exact ⟨fr', outer, s, hfr', hl'.trans hl, hpar'.trans hpar, henc.grows hg, hg.slot _ _ hs, hty, hsig⟩

/-- What can be called from some code can be called from a function in it. -/
theorem FrameTable.Callable.inner {t : FrameTable} {caller inner : FrameId} {fr : Frame}
    {id : FunctionId} (h : t.Callable caller id) (hfr : t.frames[inner.index]? = some fr)
    (hp : fr.parent = some caller) : t.Callable inner id := by
  obtain ⟨p, hp', hdecl⟩ := h
  refine ⟨p, hp', fun level frame link params ho => ?_⟩
  obtain ⟨fr', outer, s, hfr', hl, hpar, henc, hs⟩ := hdecl level frame link params ho
  exact ⟨fr', outer, s, hfr', hl, hpar, .parent hfr hp henc, hs⟩

/-! ## Signatures at a place -/

namespace Place

variable {pl : Place} {c c' : Checker}

/-- The type that a name stands for at a place, if its declaration is resolved. -/
def typeNamed (pl : Place) (c : Checker) (name : String) : Option Ty := do
  let id ← pl.types name
  match c.status id with
  | some (.resolved t) => some t
  | _ => none

/-- The result that a head declares, if it is resolved; a procedure gives no value. -/
def resultOf (pl : Place) (c : Checker) (head : FunctionHead) : Option Ty :=
  match head.result with
  | some result => pl.typeNamed c result.name
  | none => some .void

/-- The signature that a head declares at a place as callers see it, if all its types are resolved. -/
def signatureOf (pl : Place) (c : Checker) (head : FunctionHead) : Option Signature := do
  let params ← head.params.mapM fun p => pl.typeNamed c p.typeName.name
  let result ← pl.resultOf c head
  return ⟨params, result⟩

theorem typeNamed_eq (h : pl.types = c.typeNames.lookup) (name : String) :
    pl.typeNamed c name = c.typeNamed name := by
  rw [typeNamed, Checker.typeNamed, h]
  cases c.typeNames.lookup name with
  | none => rfl
  | some id => rfl

theorem signatureOf_eq (h : pl.types = c.typeNames.lookup) (head : FunctionHead) :
    pl.signatureOf c head = c.signatureOf head := by
  have hresult : pl.resultOf c head = c.resultOf head := by
    unfold resultOf Checker.resultOf
    cases head.result with
    | none => rfl
    | some result => exact typeNamed_eq h result.name
  unfold signatureOf Checker.signatureOf
  simp only [typeNamed_eq h, hresult]

/-- The type names at a place are in the table, and their declarations are settled. -/
def Settled (pl : Place) (c : Checker) : Prop :=
  ∀ name id, pl.types name = some id → ∃ s, c.status id = some s

theorem settled (hc : c.AtRest) (hpl : pl.types = c.typeNames.lookup) : pl.Settled c :=
  fun name id h => hc.known name id (by rw [← hpl, h])

theorem Settled.extends (h : pl.Settled c) (hg : c.Extends c') : pl.Settled c' := fun name id hid =>
  (h name id hid).imp fun s hs => hg.status id s hs

theorem typeNamed_extends (h : pl.Settled c) (hg : c.Extends c') (name : String) :
    pl.typeNamed c' name = pl.typeNamed c name := by
  unfold typeNamed
  cases hid : pl.types name with
  | none => rfl
  | some id =>
    obtain ⟨s, hs⟩ := h name id hid
    simp only [bind, Option.bind_some, hs, hg.status id s hs]

theorem signatureOf_extends (h : pl.Settled c) (hg : c.Extends c') (head : FunctionHead) :
    pl.signatureOf c' head = pl.signatureOf c head := by
  unfold signatureOf resultOf
  simp only [typeNamed_extends h hg]

end Place

/-! ## Sites -/

/-- A parameter has the slot of its declaration. -/
def Checker.HasParam (c : Checker) (pl : Place) (p : TypedName) (v : VarId) : Prop :=
  ∃ s, c.frames.vars[v.index]? = some s ∧ s.name = p.name.name ∧ s.kind = .param ∧
    s.ty = pl.typeNamed c p.typeName.name

theorem Checker.HasParam.extends {c c' : Checker} {pl : Place} {p : TypedName} {v : VarId}
    (h : c.HasParam pl p v) (hpl : pl.Settled c) (hg : c.Extends c') : c'.HasParam pl p v := by
  obtain ⟨s, hs, hname, hkind, hty⟩ := h
  exact ⟨s, hg.frames.slot _ _ hs, hname, hkind, by rw [hty, Place.typeNamed_extends hpl hg]⟩

/-- The prototype of a declared function: there is a signature exactly if the types that it needs are
resolved; the static link stands for the frame of the place, and the parameters have their declared
types. -/
structure HeadSite (c : Checker) (pl : Place) (head : FunctionHead) (id : FunctionId) (frame : FrameId)
    (link : VarId) (params : List VarId) : Prop where
  prototype : c.frames.functions[id.index]? = some ⟨head.name.name,
    (pl.signatureOf c head).map fun s => ⟨.frame pl.frame :: s.params, s.result⟩,
    .declared (pl.level + 1) frame link params⟩
  outer : ∃ fr, c.frames.frames[pl.frame.index]? = some fr ∧ fr.level = pl.level
  link : ∃ s, c.frames.vars[link.index]? = some s ∧ s.kind = .staticLink ∧
    s.ty = some (.frame pl.frame)
  params : List.Forall₂ (c.HasParam pl) head.params params

/-- The frame of a declared function: it is that of the function alone, one level below that of its place;
its slots are the static link, the parameters, and what the body declares; and its layout is fixed. -/
def FrameTable.FrameSite (t : FrameTable) (pl : Place) (body : Exp) (frame : FrameId) (link : VarId)
    (params : List VarId) : Prop :=
  ∃ fr, t.frames[frame.index]? = some fr ∧ fr.level = pl.level + 1 ∧ fr.parent = some pl.frame ∧
    fr.slots.toList.map some = some link :: params.map some ++ body.ownSlots ∧ t.LaidOut fr

theorem HeadSite.extends {c c' : Checker} {pl : Place} {head : FunctionHead} {id : FunctionId}
    {frame : FrameId} {link : VarId} {params : List VarId}
    (h : HeadSite c pl head id frame link params) (hpl : pl.Settled c) (hg : c.Extends c') :
    HeadSite c' pl head id frame link params where
  prototype := by
    rw [Place.signatureOf_extends hpl hg]
    exact hg.frames.function _ _ h.prototype
  outer := by
    obtain ⟨fr, hfr, hl⟩ := h.outer
    obtain ⟨fr', hfr', hl', -⟩ := hg.frames.frame _ _ hfr
    exact ⟨fr', hfr', hl'.trans hl⟩
  link := by
    obtain ⟨s, hs, hlink⟩ := h.link
    exact ⟨s, hg.frames.slot _ _ hs, hlink⟩
  params := h.params.imp fun _ _ hv => hv.extends hpl hg

/-- What holds of a site: its cell holds what its name stands for, and what is declared is as declared. -/
def Site.Holds (c : Checker) : Site → Prop
  | .use pl name binding => binding = pl.values name.name
  | .call pl callee target => target = pl.functions callee.name ∧
      (∃ fr, c.frames.frames[pl.frame.index]? = some fr ∧ fr.level = pl.level) ∧
      ∀ id, target = some id → c.frames.Callable pl.frame id
  | .function pl head body cell => ∃ id frame link params, cell = some id ∧
      HeadSite c pl head id frame link params ∧ c.frames.FrameSite pl body frame link params
  | .typeName .. | .slot .. => True

theorem holds_typeNames (c : Checker) (pl : Place) (ms : List Ident) :
    ∀ s ∈ ms.map (Site.typeName pl), s.Holds c := by
  intro s hs
  obtain ⟨m, -, rfl⟩ := List.mem_map.mp hs
  trivial

/-- The place at which the walk is. -/
def Context.place (ctx : Context) (c : Checker) : Place :=
  ⟨ctx.frame, ctx.level, c.values.lookup, c.functions.lookup, c.typeNames.lookup⟩

/-- Every function in scope can be called from the frame of a place. -/
def Context.Calls (ctx : Context) (c : Checker) : Prop :=
  ∀ name id, c.functions.lookup name = some id → c.frames.Callable ctx.frame id

section

variable {ctx : Context} {c c₁ c' d : Checker} {pl : Place} {frame : FrameId} {k m n : ℕ}

theorem Context.Calls.extends (h : ctx.Calls c) (hg : c.Extends c') (hf : c'.functions = c.functions) :
    ctx.Calls c' := fun name id hid => (h name id (hf ▸ hid)).grows hg.frames

theorem Context.Sits.frame_lt (hs : ctx.Sits c) : ctx.frame.index < c.frames.frames.size := by
  obtain ⟨fr, hfr, -⟩ := hs.frame
  exact (Array.getElem?_eq_some_iff.mp hfr).1

/-- The walk stands at a place, behind so many type names. -/
structure Context.Stands (ctx : Context) (pl : Place) (n : ℕ) (c : Checker) : Prop where
  sound : c.Sound
  sits : ctx.Sits c
  calls : ctx.Calls c
  stood : ctx.place c = pl
  count : c.namedTypes.size = n

namespace Context.Stands

theorem types_eq (h : ctx.Stands pl n c) : pl.types = c.typeNames.lookup := by rw [← h.stood]; rfl

theorem values_eq (h : ctx.Stands pl n c) : pl.values = c.values.lookup := by rw [← h.stood]; rfl

theorem functions_eq (h : ctx.Stands pl n c) : pl.functions = c.functions.lookup := by
  rw [← h.stood]
  rfl

theorem frame_eq (h : ctx.Stands pl n c) : pl.frame = ctx.frame := by rw [← h.stood]; rfl

theorem level_eq (h : ctx.Stands pl n c) : pl.level = ctx.level := by rw [← h.stood]; rfl

theorem walked (h : ctx.Stands pl n c) (hw : c.Walked c') (ht : c'.namedTypes.size = n + k) :
    ctx.Stands pl (n + k) c' where
  sound := hw.sound
  sits := h.sits.walked hw
  calls := h.calls.extends hw.grown hw.scopes.functions_eq
  stood := by
    rw [← h.stood, place, place, hw.scopes.values_eq, hw.scopes.functions_eq, hw.scopes.typeNames_eq]
  count := ht

theorem loops (h : ctx.Stands pl n c) : ctx.enterLoop.Stands pl n c :=
  ⟨h.sound, h.sits.loops _, h.calls, h.stood, h.count⟩

theorem note (h : ctx.Stands pl n c) (e : Event) : ctx.Stands pl n (c.note e) := by
  have hw := Checker.walked_note h.sound e
  exact ⟨hw.sound, h.sits.walked hw, h.calls.extends hw.grown rfl, h.stood, h.count⟩

theorem reported (h : ctx.Stands pl n c) (fault : Fault) (loc : Location) :
    ctx.Stands pl n (c.reported fault loc) := by
  have hw := Checker.walked_reported h.sound fault loc
  exact ⟨hw.sound, h.sits.walked hw, h.calls.extends hw.grown rfl, h.stood, h.count⟩

end Context.Stands

theorem tallies_note (c : Checker) (e : Event) : Tallies c (fun _ => []) 0 (c.note e) :=
  .none ⟨fun _ _ h => h, fun _ _ h => h, .refl _, Nat.le_refl _, rfl⟩ rfl rfl rfl rfl rfl

/-- A name that occurs again in its run is reported, but not as undefined. -/
theorem tallies_again (c : Checker) (name : Ident) :
    Tallies c (fun _ => []) 0 (c.reported (.duplicateDefinition name.name) name.loc) :=
  .none (Checker.Says.report _ _ .quiet).extends rfl rfl rfl rfl
    ((Diagnostics.undefined_report ..).trans (by simp [Fault.kind]))

/-! ## Surveys -/

/-- A later state: nothing is taken back, frames are linked, and the frames that were added between two
states stay as they are. -/
structure Checker.Later (c c' d : Checker) : Prop where
  grown : c'.Extends d
  linked : d.frames.Linked
  closed : ∀ g : FrameId, c.frames.frames.size ≤ g.index → g.index < c'.frames.frames.size →
    d.frames.frames[g.index]? = c'.frames.frames[g.index]?

/-- What a part of the walk adds agrees with the sites of the part, all of which hold from then on. The
frame of the place gets the slots that belong to it, and the other frames are left alone. -/
structure Surveys (frame : FrameId) (c : Checker) (sites : FrameTable → List Site)
    (own : List (Option VarId)) (typeDecs : ℕ) (c' : Checker) : Prop where
  tallies : Tallies c sites typeDecs c'
  appends : ∃ vs, own = vs.map some ∧ c.frames.Appends frame vs c'.frames
  holds : ∀ d, c.Later c' d → ∀ s ∈ sites d.frames, s.Holds d

namespace Surveys

variable {S S' : FrameTable → List Site} {own own' : List (Option VarId)}

/-- The frames that the first of two parts adds stay as they are in the second. -/
theorem later_left (h' : Surveys frame c₁ S' own' n c') (hf : frame.index < c.frames.frames.size)
    (hd : c.Later c' d) : c.Later c₁ d where
  grown := h'.tallies.grown.trans hd.grown
  linked := hd.linked
  closed g hle hlt := by
    obtain ⟨vs, -, happ⟩ := h'.appends
    have hne : g ≠ frame := by
      rintro rfl
      exact Nat.lt_irrefl _ (Nat.lt_of_lt_of_le hf hle)
    rw [hd.closed g hle (Nat.lt_of_lt_of_le hlt happ.size_le), happ.others g hne hlt]

theorem later_right (hg : c.Extends c₁) (hd : c.Later c' d) : c₁.Later c' d where
  grown := hd.grown
  linked := hd.linked
  closed g hle hlt := hd.closed g (Nat.le_trans hg.frames.frames_le hle) hlt

/-- **One part after another.** -/
theorem seq (h : Surveys frame c S own m c₁) (h' : Surveys frame c₁ S' own' n c')
    (hf : frame.index < c.frames.frames.size) :
    Surveys frame c (fun t => S t ++ S' t) (own ++ own') (m + n) c' where
  tallies := h.tallies.seq h'.tallies
  appends := by
    obtain ⟨vs, rfl, hvs⟩ := h.appends
    obtain ⟨ws, rfl, hws⟩ := h'.appends
    exact ⟨vs ++ ws, List.map_append.symm, hvs.trans hws⟩
  holds d hd := List.forall_mem_append.mpr
    ⟨h.holds d (h'.later_left hf hd), h'.holds d (later_right h.tallies.grown hd)⟩

/-- Sites that have no slots of their own, in a part that keeps the frames. -/
theorem of_tallies (h : Tallies c S n c') (hf : c'.frames = c.frames)
    (hholds : ∀ d, c'.Extends d → ∀ s ∈ S d.frames, s.Holds d) : Surveys frame c S [] n c' :=
  ⟨h, ⟨[], rfl, .of_frames_eq (by rw [hf])⟩, fun d hd => hholds d hd.grown⟩

end Surveys

/-- A part of the walk at a place is surveyed, and the walk stands at the place again. -/
structure Surveyed (ctx : Context) (pl : Place) (n : ℕ) (c : Checker) (sites : FrameTable → List Site)
    (own : List (Option VarId)) (typeDecs : ℕ) (c' : Checker) : Prop where
  surveys : Surveys ctx.frame c sites own typeDecs c'
  stands : ctx.Stands pl (n + typeDecs) c'

namespace Surveyed

variable {S S' : FrameTable → List Site} {own own' : List (Option VarId)}

/-- **One part after another.** -/
theorem seq {n' : ℕ} (h : Surveyed ctx pl n c S own k c₁) (h' : Surveyed ctx pl n' c₁ S' own' m c')
    (hs : ctx.Stands pl n c) :
    Surveyed ctx pl n c (fun t => S t ++ S' t) (own ++ own') (k + m) c' where
  surveys := h.surveys.seq h'.surveys hs.sits.frame_lt
  stands := by
    have hn : n' = n + k := by
      have hcount := h'.stands.count
      rw [h'.surveys.tallies.types, h.stands.count] at hcount
      omega
    rw [← Nat.add_assoc, ← hn]
    exact h'.stands

/-- A part with the same sites, written differently. -/
theorem congr (h : Surveyed ctx pl n c S own k c') (hS : ∀ t, S' t = S t) (hown : own' = own)
    (hm : m = k) : Surveyed ctx pl n c S' own' m c' := by
  obtain rfl : S' = S := funext hS
  exact hown ▸ hm ▸ h

theorem andThen {n' : ℕ} (h : Surveyed ctx pl n c S own k c₁)
    (h' : Surveyed ctx pl n' c₁ (fun _ => []) [] 0 c') (hs : ctx.Stands pl n c) : Surveyed ctx pl n c S own k c' :=
  (h.seq h' hs).congr (fun _ => (List.append_nil _).symm) (List.append_nil _).symm rfl

theorem after {n' : ℕ} (h' : Surveyed ctx pl n' c₁ S own k c')
    (h : Surveyed ctx pl n c (fun _ => []) [] 0 c₁)
    (hs : ctx.Stands pl n c) : Surveyed ctx pl n c S own k c' :=
  (h.seq h' hs).congr (fun _ => rfl) rfl (Nat.zero_add k).symm

/-- A site where nothing is declared may stand before or behind the others. -/
theorem toFront {s : Site} (h : Surveyed ctx pl n c (fun t => S t ++ [s]) own k c') (hs : s.Bare) :
    Surveyed ctx pl n c (fun t => s :: S t) own k c' where
  surveys := ⟨h.surveys.tallies.toFront hs, h.surveys.appends, fun d hd x hx =>
    h.surveys.holds d hd x (by simpa [or_comm] using hx)⟩
  stands := h.stands

/-- The place is left alone by what is done in it, with or without a loop around it. -/
theorem unloop (h : Surveyed ctx.enterLoop pl n c S own k c') : Surveyed ctx pl n c S own k c' where
  surveys := h.surveys
  stands := ⟨h.stands.sound, h.stands.sits.loops ctx.loops, h.stands.calls, h.stands.stood,
    h.stands.count⟩

/-- Sites without slots, in a part that does nothing but report. -/
theorem of_reports (h : Tallies c S 0 c') (hreports : c.Says c') (hs : ctx.Stands pl n c)
    (hholds : ∀ d, c'.Extends d → ∀ s ∈ S d.frames, s.Holds d) : Surveyed ctx pl n c S [] 0 c' where
  surveys := .of_tallies h hreports.eq_frames.1 hholds
  stands := hs.walked (hreports.walked hs.sound) (h.types.trans (by rw [hs.count]))

theorem refl (hs : ctx.Stands pl n c) : Surveyed ctx pl n c (fun _ => []) [] 0 c :=
  .of_reports (.refl c) .quiet hs fun _ _ => List.forall_mem_nil _

end Surveyed

namespace Surveys

variable {S S' : FrameTable → List Site} {own own' : List (Option VarId)}

/-- A part with the same sites in later tables, written differently. -/
theorem congr_grows (h : Surveys frame c S own k c')
    (hS : ∀ t, c'.frames.Grows t → S' t = S t) (hown : own' = own) (hm : m = k) :
    Surveys frame c S' own' m c' := by
  refine ⟨h.tallies.congr_grows hS hm, by rw [hown]; exact h.appends, fun d hd => ?_⟩
  rw [hS _ hd.grown.frames]
  exact h.holds d hd

end Surveys

/-- A slot that is allocated in the frame of the place, and bound or not. -/
theorem surveys_slot {frame : FrameId} {name : String} {ty : Option Ty} {kind : SlotKind} {v : VarId}
    {frames : FrameTable} (pl : Place) (halloc : c.frames.alloc frame name ty kind = .ok (v, frames))
    (hg : c.Extends c') (hframes : c'.frames = frames) (hnamed : c'.namedTypes = c.namedTypes)
    (hdiag : c'.diagnostics = c.diagnostics) :
    Surveys frame c (fun _ => [.slot pl (some v)]) [some v] 0 c' := by
  obtain ⟨happ, rfl, hvars, hfunctions, hsize, -⟩ := FrameTable.appends_of_alloc halloc
  rw [← hframes] at happ hvars hfunctions hsize
  refine ⟨⟨hg, fun t _ => ?_, fun t _ => ?_, fun t _ => ?_, by rw [hnamed]; rfl, fun t _ => ?_⟩,
    ⟨[_], rfl, happ⟩, fun d _ => List.forall_mem_singleton.mpr trivial⟩
  · rw [hvars, handles_succ]
    rfl
  · rw [hfunctions, handles_self]
    rfl
  · rw [hsize, handles_self]
    rfl
  · rw [hdiag]
    exact .of_eq (by simp [Site.unbound])

/-- Scopes that are opened or closed add nothing. -/
theorem surveys_rescope {frame : FrameId} (hg : c.Extends c') (hframes : c'.frames = c.frames)
    (hnamed : c'.namedTypes = c.namedTypes) (hdiag : c'.diagnostics = c.diagnostics) :
    Surveys frame c (fun _ => []) [] 0 c' :=
  .of_tallies (.none hg (by rw [hframes]) (by rw [hframes]) (by rw [hframes]) (by rw [hnamed])
    (by rw [hdiag])) hframes fun _ _ => List.forall_mem_nil _

/-- A counter or a variable in scope is bound at the place. -/
theorem Context.place_bindValue (ctx : Context) (c : Checker) (frames : FrameTable)
    (values : Scopes VarId) (name : String) (v : VarId) (hv : values.lookup = c.values.lookup) :
    ctx.place { c with frames, values := values.bind name v } =
      (ctx.place c).bindValue name (some v) := by
  have hvalues : (values.bind name v).lookup = Function.update c.values.lookup name (some v) := by
    funext x
    rw [Scopes.lookup_bind, Function.update_apply, hv]
  simp only [place, Place.bindValue, hvalues]

/-- A type name in a literal, an annotation or a signature. -/
theorem Check.surveys_typeOf {frame : FrameId} {name : Ident} {ty : Option Ty} (hc : c.AtRest)
    (hpl : pl.types = c.typeNames.lookup) (h : (typeOf name).run c = .ok (ty, c')) :
    Surveys frame c (fun _ => [.typeName pl name]) [] 0 c' := by
  have hreports := ((yields_typeOf hc name).of_run h).toSays
  refine .of_tallies (tallies_typeOf hc pl (by rw [hpl]) h) hreports.eq_frames.1 fun d _ s hmem => ?_
  rw [List.mem_singleton.mp hmem]
  trivial

/-- A rule that reports plain faults only. -/
theorem Check.Passive.surveyed {α : Type} {m : Check α} {ok : Prop} {good : α → Prop} {a : α}
    (h : Passive Fault.IsPlain ok m good) (hm : m.run c = .ok (a, c')) (hs : ctx.Stands pl n c) :
    Surveyed ctx pl n c (fun _ => []) [] 0 c' :=
  .of_reports (h.tallies hm) (h.changes c a c' hm).toSays hs fun _ _ => List.forall_mem_nil _

/-- A type name, where the walk stands. -/
theorem Check.surveyed_typeOf {name : Ident} {ty : Option Ty} (h : (typeOf name).run c = .ok (ty, c'))
    (hs : ctx.Stands pl n c) : Surveyed ctx pl n c (fun _ => [.typeName pl name]) [] 0 c' := by
  have hsurvey : Surveys ctx.frame c (fun _ => [.typeName pl name]) [] 0 c' :=
    surveys_typeOf hs.sound.rest hs.types_eq h
  have hreports := ((yields_typeOf hs.sound.rest name).of_run h).toSays
  exact ⟨hsurvey, hs.walked (hreports.walked hs.sound) (by rw [hsurvey.tallies.types, hs.count])⟩

end

/-! ## Runs -/

/-- **A run of declarations is surveyed**: what its check adds agrees with the sites of those that are not
dropped, the walk stands behind them afterwards, and nothing but the cells of live nodes changes. -/
def RunSurveyed (ctx : Context) (pl : Place) (n : ℕ) (c : Checker) (k : Dec.Kind) (run ds : List Dec)
    (c' : Checker) : Prop :=
  let live := liveDecs ⟨some k, []⟩ ds
  let inner := pl.bindRun n live
  Surveys ctx.frame c (fun t => headSites inner live ++ sitesDecs t inner n (some k) live)
      (ownSlotsDecs live) (typeDecsDecs live) c' ∧
    ctx.Stands (inner.behind n (some k) live) (n + typeDecsDecs live) c' ∧
    blankDecs ds = blankDecs run ∧ droppedDecs ⟨some k, []⟩ ds = droppedDecs ⟨some k, []⟩ run

end TigerCheck
