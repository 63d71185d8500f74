import TigerCheck.Proofs.Scope.Program

/-!
# What code generation is handed

Code for a function needs its frame: where it lies, what is in it and in which order. Code for a call needs
the frame that the static link of the called function stands for, which is found from the frame of the
caller.

* `FrameTable.LaidOutAt`: a frame with its layout.
* `FrameTable.LinksTo`: the static link of a called function is found from a place.
* **`analyze_hands_over`**: the frames and the prototypes of a program.
* **`analyze_links`**: the static links of its calls.
-/

namespace TigerCheck

open Check

namespace FrameTable

/-- The layout of a frame lists the types of its slots by offset, and every slot knows its frame and its
offset. -/
def LaidOutAt (t : FrameTable) (f : FrameId) (fr : Frame) : Prop :=
  t.LaidOut fr ∧ ∀ (k : ℕ) (v : VarId), fr.slots[k]? = some v →
    ∃ s, t.vars[v.index]? = some s ∧ s.frame = f ∧ s.offset = k

/-- A function can be linked from a place if it is an intrinsic, or if as many parents as it is declared
further out than in the code of the place lead from there to the parent of its frame, for which its static
link stands, and with which its signature begins. -/
def LinksTo (t : FrameTable) (pl : Place) (id : FunctionId) : Prop :=
  ∃ proto, t.functions[id.index]? = some proto ∧ ∀ level frame link params,
    proto.origin = .declared level frame link params → 1 ≤ level ∧ level ≤ pl.level + 1 ∧ ∃ fr outer s,
      t.frames[frame.index]? = some fr ∧ fr.level = level ∧ fr.parent = some outer ∧
      t.climb (pl.level + 1 - level) pl.frame = some outer ∧
      t.vars[link.index]? = some s ∧ s.ty = some (.frame outer) ∧
      ∀ sig, proto.signature = some sig → sig.params.head? = some (.frame outer)

/-- What can be called from the frame of a place can be linked from there. -/
theorem Callable.linksTo {t : FrameTable} {pl : Place} {id : FunctionId} {caller : Frame}
    (h : t.Callable pl.frame id) (ht : t.Linked) (hcaller : t.frames[pl.frame.index]? = some caller)
    (hlevel : caller.level = pl.level) : t.LinksTo pl id := by
  obtain ⟨proto, hproto, hdecl⟩ := h
  refine ⟨proto, hproto, fun level frame link params ho => ?_⟩
  obtain ⟨fr, outer, s, hfr, hl, hparent, hencloses, hs, hty, hsig⟩ := hdecl level frame link params ho
  obtain ⟨outerFrame, houter, hl'⟩ := ht.parent _ _ _ hfr hparent
  obtain ⟨hle, hclimb⟩ := hencloses.climb ht houter hcaller
  have hsteps : caller.level - outerFrame.level = pl.level + 1 - level := by omega
  exact ⟨by omega, by omega, fr, outer, s, hfr, hl, hparent, hsteps ▸ hclimb, hs, hty, hsig⟩

end FrameTable

namespace ProgramSurveyed

variable {p p' : Program} {c : Checker}

/-- The frames are the main frame and one for each function. -/
theorem main_cons_frames (h : ProgramSurveyed p p' c) :
    c.mainFrame :: (p'.sites c.frames).flatMap (Site.frames c.frames) =
      handles FrameId.mk 0 c.frames.frames.size := by
  obtain ⟨fr, hfr, -⟩ := h.main
  have hlt := (Array.getElem?_eq_some_iff.mp hfr).1
  rw [← handles_append (Nat.zero_le 1) (Nat.lt_of_le_of_lt (Nat.zero_le _) hlt), h.frames, h.mainFrame,
    handles_succ]
  rfl

/-- Every function of the program has the prototype and the frame that belong to it. -/
theorem function_site (h : ProgramSurveyed p p' c) {pl : Place} {head : FunctionHead} {body : Exp}
    {cell : Option FunctionId} (hmem : Site.function pl head body cell ∈ p'.sites c.frames) :
    ∃ id frame link params, cell = some id ∧ HeadSite c pl head id frame link params ∧
      c.frames.FrameSite pl body frame link params :=
  h.holds _ hmem

/-- Every frame is laid out. -/
theorem laidOutAt (h : ProgramSurveyed p p' c) {f : FrameId} {fr : Frame}
    (hfr : c.frames.frames[f.index]? = some fr) : c.frames.LaidOutAt f fr := by
  refine ⟨?_, h.linked.held f fr hfr⟩
  have hmem : f ∈ handles FrameId.mk 0 c.frames.frames.size :=
    mem_handles_of_lt _ (Nat.zero_le _) (Array.getElem?_eq_some_iff.mp hfr).1
  rw [← h.main_cons_frames, List.mem_cons, List.mem_flatMap] at hmem
  rcases hmem with rfl | ⟨s, hs, hf⟩
  · obtain ⟨main, hmain, -, -, -, hlaid⟩ := h.main
    rwa [Option.some.inj (hfr.symm.trans hmain)]
  · cases s with
    | function pl head body cell =>
      obtain ⟨id, frame, link, params, rfl, hhead, own, hown, -, -, -, hlaid⟩ := h.function_site hs
      rw [Site.frames, FrameTable.bodyFrame_of_declared hhead.prototype, List.mem_singleton] at hf
      subst hf
      rwa [Option.some.inj (hfr.symm.trans hown)]
    | use | call | typeName | slot => cases hf

end ProgramSurveyed

/-- **Frames and prototypes fit together.** A program whose cells are empty has an analysis, unless functions
are nested deeper than levels count. In it every frame is laid out, and the frames are the main frame and one
for each function that is not dropped. Such a function has the frame and the prototype that its place, its
head and its body ask for, and the main frame has the slots that are declared outside every function. -/
theorem analyze_hands_over (p : Program) (hp : p.body.blank = p.body) :
    (∃ p' a c, analyze p = .ok (p', a) ∧ (checkFromStart p).run .initial = .ok (p', c) ∧
      a.frames = c.frames ∧
      (∀ f fr, a.frames.frames[f.index]? = some fr → a.frames.LaidOutAt f fr) ∧
      a.mainFrame :: (p'.sites a.frames).flatMap (Site.frames a.frames) =
        handles FrameId.mk 0 a.frames.frames.size ∧
      (∀ pl head body cell, Site.function pl head body cell ∈ p'.sites a.frames →
        ∃ id frame link params, cell = some id ∧ HeadSite c pl head id frame link params ∧
          a.frames.FrameSite pl body frame link params) ∧
      ∃ main, a.frames.frames[a.mainFrame.index]? = some main ∧ main.level = 0 ∧ main.parent = none ∧
        main.slots.toList.map some = p'.body.live.ownSlots) ∨
    (maxLevel < p.body.nesting ∧ analyze p = .error .levelOverflow) := by
  rcases analyze_surveyed hp with ⟨p', a, c, ha, hs, hrun, hframes, -, hmain⟩ | h
  · refine .inl ⟨p', a, c, ha, hrun, hframes, ?_⟩
    rw [hframes, hmain]
    obtain ⟨main, hm, hlevel, hparent, hslots, -⟩ := hs.main
    exact ⟨fun f fr => hs.laidOutAt, hs.main_cons_frames, fun pl head body cell => hs.function_site,
      main, hm, hlevel, hparent, hslots⟩
  · exact .inr h

/-- A function with variables, a loop and a function of its own, and one whose result is of a type that is
not declared. -/
def manyFrames : Program where
  body := .letIn {} [
      .function ⟨{ name := "f" }, [⟨{ name := "a" }, { name := "int" }⟩], some { name := "int" }⟩
        (.letIn {} [
            .var { name := "x" } none (.int {} 1) .unknown none,
            .function ⟨{ name := "g" }, [⟨{ name := "b" }, { name := "string" }⟩], none⟩
              (.seq {} [.call {} { name := "f" } [.var {} (.simple {} "x" none)] none,
                .call {} { name := "h" } [] none]) .unknown none]
          (.seq {} [.forLoop {} { name := "i" } (.int {} 0) (.var {} (.simple {} "a" none))
              (.call {} { name := "g" } [.string {} ""] none) none,
            .var {} (.simple {} "x" none)])) .unknown none,
      .function ⟨{ name := "h" }, [], some { name := "t" }⟩ (.call {} { name := "f" } [.int {} 2] none)
        .unknown none]
    (.call {} { name := "h" } [] none)

theorem manyFrames_hands_over : manyFrames.body.blank = manyFrames.body ∧
    ((∃ p' a c, analyze manyFrames = .ok (p', a) ∧ (checkFromStart manyFrames).run .initial = .ok (p', c) ∧
      a.frames = c.frames ∧
      (∀ f fr, a.frames.frames[f.index]? = some fr → a.frames.LaidOutAt f fr) ∧
      a.mainFrame :: (p'.sites a.frames).flatMap (Site.frames a.frames) =
        handles FrameId.mk 0 a.frames.frames.size ∧
      (∀ pl head body cell, Site.function pl head body cell ∈ p'.sites a.frames →
        ∃ id frame link params, cell = some id ∧ HeadSite c pl head id frame link params ∧
          a.frames.FrameSite pl body frame link params) ∧
      ∃ main, a.frames.frames[a.mainFrame.index]? = some main ∧ main.level = 0 ∧ main.parent = none ∧
        main.slots.toList.map some = p'.body.live.ownSlots) ∨
    (maxLevel < manyFrames.body.nesting ∧ analyze manyFrames = .error .levelOverflow)) :=
  ⟨rfl, analyze_hands_over manyFrames rfl⟩

/-- **The static link of every call is found from the caller.** A program whose cells are empty has an
analysis, unless functions are nested deeper than levels count. In it, the place of a call has its own level,
and every function that is called there can be linked from there. -/
theorem analyze_links (p : Program) (hp : p.body.blank = p.body) :
    (∃ p' a, analyze p = .ok (p', a) ∧
      ∀ pl callee id, Site.call pl callee (some id) ∈ p'.sites a.frames →
        (∃ fr, a.frames.frames[pl.frame.index]? = some fr ∧ fr.level = pl.level) ∧
          a.frames.LinksTo pl id) ∨
    (maxLevel < p.body.nesting ∧ analyze p = .error .levelOverflow) := by
  rcases analyze_surveyed hp with ⟨p', a, c, ha, hs, -, hframes, -, -⟩ | h
  · refine .inl ⟨p', a, ha, fun pl callee id hmem => ?_⟩
    rw [hframes] at hmem ⊢
    obtain ⟨-, ⟨fr, hfr, hlevel⟩, hcalls⟩ := hs.holds _ hmem
    exact ⟨⟨fr, hfr, hlevel⟩, (hcalls id rfl).linksTo hs.linked hfr hlevel⟩
  · exact .inr h

/-- A function calls itself, a sibling that is declared behind it, and a function around it. -/
def farCalls : Program where
  body := .letIn {} [
      .function ⟨{ name := "f" }, [], none⟩
        (.letIn {} [
            .function ⟨{ name := "g" }, [], none⟩ (.seq {} [.call {} { name := "g" } [] none,
              .call {} { name := "h" } [] none, .call {} { name := "f" } [] none]) .unknown none,
            .function ⟨{ name := "h" }, [], none⟩ (.call {} { name := "print" } [.string {} ""] none)
              .unknown none]
          (.call {} { name := "g" } [] none)) .unknown none]
    (.call {} { name := "f" } [] none)

theorem farCalls_links : farCalls.body.blank = farCalls.body ∧
    ((∃ p' a, analyze farCalls = .ok (p', a) ∧
      ∀ pl callee id, Site.call pl callee (some id) ∈ p'.sites a.frames →
        (∃ fr, a.frames.frames[pl.frame.index]? = some fr ∧ fr.level = pl.level) ∧
          a.frames.LinksTo pl id) ∨
    (maxLevel < farCalls.body.nesting ∧ analyze farCalls = .error .levelOverflow)) :=
  ⟨rfl, analyze_links farCalls rfl⟩

end TigerCheck
