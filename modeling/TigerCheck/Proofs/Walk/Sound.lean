import TigerCheck.Proofs.Frame
import TigerCheck.Proofs.TypeName.Run

/-!
# What the walk maintains

Between two runs of declarations every type name is settled, every handle denotes an entry, and the
variables in scope belong to the frame of the code or to frames around it. The tables only grow, and
behind a block the scopes are as they were before it.

* `Checker.Sound`, `Context.Sits`: the invariant, of the tables and of the place in the program.
* `Checker.Extends`: nothing is taken back. `Checker.Walked`: what a finished walk leaves behind.
* `Checker.Declared`: what declarations leave behind within their block.
* **`Checker.Sound.alloc`**, **`Checker.Declared.walked`**, …: the steps of the walk.
-/

namespace TigerCheck

open Check

/-- Type names are settled, frames are linked, and slots and functions have types of the arena. -/
structure Checker.Sound (c : Checker) : Prop where
  rest : c.AtRest
  linked : c.frames.Linked
  slots : ∀ (v : VarId) s t, c.frames.vars[v.index]? = some s → s.ty = some t → c.types.Has t
  signatures : ∀ (f : FunctionId) p sig, c.frames.functions[f.index]? = some p →
    p.signature = some sig → p.hiddenParams ≤ sig.params.length ∧
      (∀ t ∈ sig.params, c.types.Has t) ∧ c.types.Has sig.result
  functions : ∀ name f, c.functions.lookup name = some f →
    ∃ p, c.frames.functions[f.index]? = some p

/-- The frame of a place exists at the level of the place, and the variables in scope are in that frame
or in frames around it. -/
structure Context.Sits (ctx : Context) (c : Checker) : Prop where
  frame : ∃ fr, c.frames.frames[ctx.frame.index]? = some fr ∧ fr.level = ctx.level
  values : ∀ name v, c.values.lookup name = some v →
    ∃ s, c.frames.vars[v.index]? = some s ∧ c.frames.Encloses s.frame ctx.frame

namespace Checker

variable {c c' c'' : Checker} {ctx : Context} {t : Ty} {id : NamedTypeId}

/-- Nothing is taken back: settled names and entries of the tables stay, and so do diagnostics. -/
structure Extends (c c' : Checker) : Prop where
  status : ∀ id s, c.status id = some s → c'.status id = some s
  shape : ∀ t s, c.types.shape t = some s → c'.types.shape t = some s
  frames : c.frames.Grows c'.frames
  diagnostics_le : c.diagnostics.size ≤ c'.diagnostics.size
  mainFrame_eq : c'.mainFrame = c.mainFrame

theorem Extends.refl (c : Checker) : c.Extends c :=
  ⟨fun _ _ h => h, fun _ _ h => h, .refl _, Nat.le_refl _, rfl⟩

theorem Extends.trans (h : c.Extends c') (h' : c'.Extends c'') : c.Extends c'' where
  status id s hs := h'.status id s (h.status id s hs)
  shape t s hs := h'.shape t s (h.shape t s hs)
  frames := h.frames.trans h'.frames
  diagnostics_le := Nat.le_trans h.diagnostics_le h'.diagnostics_le
  mainFrame_eq := h'.mainFrame_eq.trans h.mainFrame_eq

theorem Extends.has (h : c.Extends c') (ht : c.types.Has t) : c'.types.Has t := by
  rcases Arena.shape_or_plain ht with ⟨s, hs⟩ | hplain
  · exact Arena.has_of_shape (h.shape t s hs)
  · exact hplain _

/-- The same scopes are open, with the same bindings. -/
structure SameScopes (c c' : Checker) : Prop where
  values_eq : c'.values = c.values
  typeNames_eq : c'.typeNames = c.typeNames
  functions_eq : c'.functions = c.functions

/-- What a finished walk over a part of the program leaves behind. -/
structure Walked (c c' : Checker) : Prop where
  grown : c.Extends c'
  scopes : c.SameScopes c'
  sound : c'.Sound

/-- What declarations leave behind within their block: bindings in the innermost scopes. -/
structure Declared (ctx : Context) (c c' : Checker) : Prop where
  grown : c.Extends c'
  values_outer : c'.values.outer = c.values.outer
  typeNames_outer : c'.typeNames.outer = c.typeNames.outer
  functions_outer : c'.functions.outer = c.functions.outer
  sound : c'.Sound
  sits : ctx.Sits c'

theorem Walked.refl (hc : c.Sound) : c.Walked c := ⟨.refl c, ⟨rfl, rfl, rfl⟩, hc⟩

theorem Walked.trans (h : c.Walked c') (h' : c'.Walked c'') : c.Walked c'' where
  grown := h.grown.trans h'.grown
  scopes := ⟨h'.scopes.values_eq.trans h.scopes.values_eq,
    h'.scopes.typeNames_eq.trans h.scopes.typeNames_eq,
    h'.scopes.functions_eq.trans h.scopes.functions_eq⟩
  sound := h'.sound

theorem Walked.has (h : c.Walked c') (ht : c.types.Has t) : c'.types.Has t := h.grown.has ht

/-- A type that is found stays a type of the arena. -/
theorem Walked.forall_has {o : Option Ty} (h : c.Walked c') (ho : ∀ t, o = some t → c.types.Has t) :
    ∀ t, o = some t → c'.types.Has t := fun t ht => h.has (ho t ht)

theorem Declared.refl (hc : c.Sound) (hs : ctx.Sits c) : c.Declared ctx c :=
  ⟨.refl c, rfl, rfl, rfl, hc, hs⟩

theorem Declared.trans (h : c.Declared ctx c') (h' : c'.Declared ctx c'') : c.Declared ctx c'' where
  grown := h.grown.trans h'.grown
  values_outer := h'.values_outer.trans h.values_outer
  typeNames_outer := h'.typeNames_outer.trans h.typeNames_outer
  functions_outer := h'.functions_outer.trans h.functions_outer
  sound := h'.sound
  sits := h'.sits

end Checker

theorem Context.Sits.extends {ctx : Context} {c c' : Checker} (hs : ctx.Sits c)
    (h : c.Extends c') (hv : c'.values = c.values) : ctx.Sits c' where
  frame := by
    obtain ⟨fr, hfr, hl⟩ := hs.frame
    obtain ⟨fr', hfr', hl', -⟩ := h.frames.frame _ _ hfr
    exact ⟨fr', hfr', hl'.trans hl⟩
  values name v hn := by
    rw [hv] at hn
    obtain ⟨s, hs', henc⟩ := hs.values name v hn
    exact ⟨s, h.frames.slot v s hs', henc.grows h.frames⟩

theorem Context.Sits.walked {ctx : Context} {c c' : Checker} (hs : ctx.Sits c) (h : c.Walked c') :
    ctx.Sits c' := hs.extends h.grown h.scopes.values_eq

/-- A place sits where it does, however many loops are around it. -/
theorem Context.Sits.loops {ctx : Context} {c : Checker} (hs : ctx.Sits c) (n : Nat) :
    Context.Sits { ctx with loops := n } c := ⟨hs.frame, hs.values⟩

namespace Checker

variable {c c' c'' : Checker} {ctx : Context} {t : Ty} {id : NamedTypeId}

theorem Walked.declared (h : c.Walked c') (hs : ctx.Sits c) : c.Declared ctx c' :=
  ⟨h.grown, by rw [h.scopes.values_eq], by rw [h.scopes.typeNames_eq],
    by rw [h.scopes.functions_eq], h.sound, hs.walked h⟩

/-! ## Reports and events -/

theorem Sound.reported (h : c.Sound) (fault : Fault) (loc : Location) :
    (c.reported fault loc).Sound :=
  ⟨h.rest.congr rfl rfl rfl, h.linked, h.slots, h.signatures,
    h.functions⟩

theorem walked_reported (h : c.Sound) (fault : Fault) (loc : Location) :
    c.Walked (c.reported fault loc) :=
  ⟨⟨fun _ _ h => h, fun _ _ h => h, .refl _, Nat.le_of_lt (c.lt_reported fault loc), rfl⟩,
    ⟨rfl, rfl, rfl⟩, h.reported fault loc⟩

/-- After reports everything else is as before. -/
theorem Says.extends (h : c.Says c') : c.Extends c' := by
  induction h with
  | quiet => exact .refl c
  | report fault loc _ ih =>
    exact ih.trans ⟨fun _ _ h => h, fun _ _ h => h, .refl _, Nat.le_of_lt (Checker.lt_reported _ _ _), rfl⟩

theorem Says.walked (h : c.Says c') (hc : c.Sound) : c.Walked c' := by
  induction h with
  | quiet => exact .refl hc
  | report fault loc _ ih => exact ih.trans (walked_reported ih.sound fault loc)

theorem walked_note (h : c.Sound) (e : Event) : c.Walked (c.note e) :=
  ⟨⟨fun _ _ h => h, fun _ _ h => h, .refl _, Nat.le_refl _, rfl⟩, ⟨rfl, rfl, rfl⟩,
    ⟨h.rest.congr rfl rfl rfl, h.linked, h.slots, h.signatures,
      h.functions⟩⟩

/-! ## Scopes -/

/-- The state after a scope is opened in each namespace. -/
def entered (c : Checker) : Checker :=
  Checker.note { c with
      typeNames := c.typeNames.enter, values := c.values.enter, functions := c.functions.enter }
    (.entered c.values.enter.depth)

theorem eq_of_run_enterScopes {c c' : Checker} {u : Unit} (h : enterScopes.run c = .ok (u, c')) :
    c' = c.entered := by
  cases h
  rfl

theorem extends_entered (c : Checker) : c.Extends c.entered :=
  ⟨fun _ _ h => h, fun _ _ h => h, .refl _, Nat.le_refl _, rfl⟩

theorem Sound.entered (h : c.Sound) : c.entered.Sound :=
  ⟨h.rest.congr rfl rfl rfl, h.linked, h.slots, h.signatures,
    h.functions⟩

end Checker

theorem Context.Sits.entered {ctx : Context} {c : Checker} (h : ctx.Sits c) : ctx.Sits c.entered :=
  ⟨h.frame, h.values⟩

/-- A scope can be closed where something was entered around the same scopes. -/
theorem Scopes.exit_of_outer {α : Type} {s s' : Scopes α} (h : s'.outer = s.enter.outer) :
    s'.exit = .ok s := by
  unfold Scopes.exit
  rw [h]
  rfl

namespace Checker

variable {c c' c'' : Checker} {ctx : Context} {t : Ty} {id : NamedTypeId}

/-- With the scopes of an earlier state a state is as sound as it was. -/
theorem Sound.rescope (hc : c.Sound) (h : c.Extends c') (hc' : c'.Sound)
    (hty : c''.types = c'.types) (hnamed : c''.namedTypes = c'.namedTypes)
    (hframes : c''.frames = c'.frames) (hscopes : c.SameScopes c'') : c''.Sound where
  rest := by
    refine ⟨hty ▸ hc'.rest.closed, fun name id hn => ?_, fun id t hs => ?_, fun id dec o hs => ?_⟩
    · rw [hscopes.typeNames_eq] at hn
      obtain ⟨s, hs⟩ := hc.rest.known name id hn
      exact ⟨s, by rw [Checker.status, hnamed]; exact h.status id s hs⟩
    · rw [Checker.status, hnamed] at hs
      rw [hty]
      exact hc'.rest.has id t hs
    · rw [Checker.status, hnamed] at hs
      exact hc'.rest.settled id dec o hs
  linked := hframes ▸ hc'.linked
  slots := by rw [hframes, hty]; exact hc'.slots
  signatures := by rw [hframes, hty]; exact hc'.signatures
  functions name f hf := by
    rw [hscopes.functions_eq] at hf
    obtain ⟨p, hp⟩ := hc.functions name f hf
    exact ⟨p, by rw [hframes]; exact h.frames.function f p hp⟩

/-- **Closing the scopes of a block leaves the walk where it began.** -/
theorem Declared.yields_exitScopes (hc : c.Sound) (h : c.entered.Declared ctx c') :
    Yields exitScopes c' fun _ d => c.Walked d ∧ c'.types = d.types ∧ c'.frames = d.frames ∧
      c'.namedTypes = d.namedTypes ∧ c'.diagnostics = d.diagnostics := by
  rw [Check.yields_exitScopes]
  refine ⟨c.functions, c.values, c.typeNames, Scopes.exit_of_outer h.functions_outer,
    Scopes.exit_of_outer h.values_outer, Scopes.exit_of_outer h.typeNames_outer,
    ⟨?_, ⟨rfl, rfl, rfl⟩, ?_⟩, rfl, rfl, rfl, rfl⟩
  · have hg := (extends_entered c).trans h.grown
    exact ⟨hg.status, hg.shape, hg.frames, hg.diagnostics_le, hg.mainFrame_eq⟩
  · exact hc.rescope ((extends_entered c).trans h.grown) h.sound rfl rfl rfl ⟨rfl, rfl, rfl⟩

/-- A state is as sound with other variables in scope. -/
theorem Sound.withValues (h : c.Sound) (values : Scopes VarId) : Sound { c with values } :=
  ⟨h.rest.congr rfl rfl rfl, h.linked, h.slots, h.signatures,
    h.functions⟩

/-! ## Slots and frames -/

/-- A state is as sound with a table of frames that grew, where the new slots have types of the arena
and the functions are the same. -/
theorem Sound.withFrames (h : c.Sound) {frames : FrameTable} (hg : c.frames.Grows frames)
    (hlinked : frames.Linked) (hfunctions : frames.functions = c.frames.functions)
    (hslots : ∀ (v : VarId) s t, frames.vars[v.index]? = some s → s.ty = some t → c.types.Has t) :
    c.Walked { c with frames } where
  grown := ⟨fun _ _ h => h, fun _ _ h => h, hg, Nat.le_refl _, rfl⟩
  scopes := ⟨rfl, rfl, rfl⟩
  sound := by
    refine ⟨h.rest.congr rfl rfl rfl, hlinked, hslots, ?_, ?_⟩
    · rw [hfunctions]
      exact h.signatures
    · rw [hfunctions]
      exact h.functions

/-- **A slot can be appended to every frame.** -/
theorem Sound.alloc (h : c.Sound) {frame : FrameId} {owner : Frame}
    (hf : c.frames.frames[frame.index]? = some owner) (name : String) {ty : Option Ty}
    (hty : ∀ t, ty = some t → c.types.Has t) (kind : SlotKind) :
    Yields (alloc frame name ty kind) c fun v c' => ∃ frames, c' = { c with frames } ∧
      c.frames.Allocs frame ty v frames ∧ c.Walked c' := by
  obtain ⟨v, frames, halloc, hspec⟩ := h.linked.alloc hf name ty kind
  refine yields_alloc.mpr ⟨v, frames, halloc, frames, rfl, hspec, ?_⟩
  refine h.withFrames hspec.grows hspec.linked hspec.functions_eq fun w s t hs ht => ?_
  rcases hspec.slot_or hs with hsty | hold
  · exact hty t (hsty ▸ ht)
  · exact h.slots w s t hold ht

/-- Nothing is moved or lost where a slot is appended. -/
theorem Sound.grows_of_alloc {name : String} {ty : Option Ty} {kind : SlotKind} {v : VarId}
    {frames : FrameTable} (hc : c.Sound) (hs : ctx.Sits c)
    (h : c.frames.alloc ctx.frame name ty kind = .ok (v, frames)) : c.frames.Grows frames := by
  obtain ⟨owner, howner, -⟩ := hs.frame
  obtain ⟨_, _, halloc, hspec⟩ := hc.linked.alloc howner name ty kind
  rw [h] at halloc
  cases halloc
  exact hspec.grows

/-- **The layout of every frame can be fixed.** -/
theorem Sound.finalize (h : c.Sound) {frame : FrameId} {owner : Frame}
    (hf : c.frames.frames[frame.index]? = some owner) :
    Yields (finalize frame) c fun _ c' => c.Walked c' ∧ ∃ frames, c' = { c with frames } ∧
      frames.vars = c.frames.vars ∧ frames.functions = c.frames.functions := by
  obtain ⟨frames, hfin, hvars, hfunctions, hg, hlinked⟩ := h.linked.finalize hf
  refine yields_finalize.mpr ⟨frames, hfin, ?_, frames, rfl, hvars, hfunctions⟩
  refine h.withFrames hg hlinked hfunctions ?_
  rw [hvars]
  exact h.slots

/-- A frame can be added one level above an existing one. -/
theorem Sound.newFrame (h : c.Sound) (hs : ctx.Sits c) (name : String) :
    Yields (newFrame name (ctx.level + 1) ctx.frame) c fun f c' => ∃ frames,
      c' = { c with frames } ∧ c.Walked c' ∧ ∃ fr, frames.frames[f.index]? = some fr ∧
        fr.level = ctx.level + 1 ∧ fr.parent = some ctx.frame := by
  obtain ⟨owner, howner, hlevel⟩ := hs.frame
  have hlinked := h.linked.newFrame name howner
  rw [hlevel] at hlinked
  refine yields_newFrame.mpr ⟨_, rfl, ?_, _, FrameTable.frame_newFrame .., rfl, rfl⟩
  exact h.withFrames (FrameTable.grows_newFrame ..) hlinked rfl h.slots

end Checker

/-- A variable of the place's own frame or of one around it can be bound. -/
theorem Context.Sits.bindValue {ctx : Context} {c : Checker} (h : ctx.Sits c) {v : VarId} {s : Slot}
    (hv : c.frames.vars[v.index]? = some s) (henc : c.frames.Encloses s.frame ctx.frame)
    (name : String) : ctx.Sits { c with values := c.values.bind name v } where
  frame := h.frame
  values other w hw := by
    rw [Scopes.lookup_bind] at hw
    split at hw
    · cases hw
      exact ⟨s, hv, henc⟩
    · exact h.values other w hw

end TigerCheck
