import TigerCheck.Proofs.Tame.Walk
import TigerCheck.Proofs.WellTyped

/-!
# Sessions

One checker can be asked several things, one after another: to check an expression in the main frame, at
any level, or to check a whole program. The levels of different requests need not agree with each other,
so the frames of a session are not linked as those of a single program are. But levels are never read,
and with all levels made equal they are.

* `Checker.Idle`: what holds of a checker between two requests.
* **`Checker.Idle.checkExp`**, **`Checker.Idle.checkProgram`**: a request leaves a checker idle, and
  an answer without a type was reported.
* `Request`, `Request.Fits`: what may be asked. **`session_ends`**: no session breaks off, unless levels
  overflow.
-/

namespace TigerCheck

open Check

/-! ## Equal levels -/

theorem FrameTable.Linked.levelled {t : FrameTable} (h : t.Linked) (n : Nat) :
    (t.levelled n).Linked where
  slot v s hs := by
    obtain ⟨s', hs', rfl⟩ : ∃ s', t.vars[v.index]? = some s' ∧ { s' with level := n } = s := by
      simpa [FrameTable.levelled] using hs
    obtain ⟨fr, hfr, -, hv⟩ := h.slot v s' hs'
    exact ⟨{ fr with level := n, parent := none }, by simp [FrameTable.levelled, hfr], rfl, hv⟩
  parent f p fr hfr hp := by
    obtain ⟨fr', -, rfl⟩ : ∃ fr', t.frames[f.index]? = some fr' ∧
        { fr' with level := n, parent := none } = fr := by
      simpa [FrameTable.levelled] using hfr
    cases hp
  held f fr hfr k v hv := by
    obtain ⟨fr', hfr', rfl⟩ : ∃ fr', t.frames[f.index]? = some fr' ∧
        { fr' with level := n, parent := none } = fr := by
      simpa [FrameTable.levelled] using hfr
    obtain ⟨s, hs, hframe, hoffset⟩ := h.held f fr' hfr' k v hv
    exact ⟨{ s with level := n }, by simp [FrameTable.levelled, hs], hframe, hoffset⟩

namespace Checker

variable {c c' d : Checker} {ctx : Context} {ν : Renaming} {n : ℕ}

theorem Sound.levelled (h : c.Sound) (n : ℕ) : (c.levelled n).Sound where
  rest := h.rest.congr rfl rfl rfl
  linked := h.linked.levelled n
  slots v s t hs ht := by
    obtain ⟨s', hs', rfl⟩ : ∃ s', c.frames.vars[v.index]? = some s' ∧ { s' with level := n } = s := by
      simpa [FrameTable.levelled] using hs
    exact h.slots v s' t hs' ht
  signatures := h.signatures
  functions := h.functions

theorem valueTy_levelled (c : Checker) (n : ℕ) (name : String) :
    (c.levelled n).valueTy name = c.valueTy name := by
  unfold valueTy
  refine congrArg (Option.bind (c.values.lookup name)) (funext fun v => ?_)
  rw [levelled_frames, FrameTable.levelled, Array.getElem?_map]
  cases c.frames.vars[v.index]? <;> rfl

theorem Fine.levelled (h : c.Fine ν n) (m : ℕ) : (c.levelled m).Fine ν n where
  clean := h.clean
  elements := h.elements
  fits := h.fits
  values name v hv := by
    rw [valueTy_levelled]
    exact h.values name v hv
  functions := h.functions

/-- What holds of a checker between two requests: it is sound as far as levels do not matter, no variable
is in scope, and if nothing was reported then nothing is wrong. -/
structure Idle (c : Checker) : Prop where
  sound : (c.levelled 0).Sound
  main : c.mainFrame.index < c.frames.frames.size
  values : ∀ name, c.values.lookup name = none
  fine : c.diagnostics.size = 0 → ∃ ν n, (c.levelled 0).Fine ν n

/-- States that differ in levels only have the same diagnostics and the same variables in scope. -/
theorem eq_of_levelled_eq (h : c'.levelled 0 = d.levelled 0) :
    c'.diagnostics = d.diagnostics ∧ c'.values = d.values ∧ c'.mainFrame = d.mainFrame ∧
      c'.frames.frames.size = d.frames.frames.size := by
  have hsize : (c'.levelled 0).frames.frames.size = (d.levelled 0).frames.frames.size := by rw [h]
  simp only [levelled_frames, FrameTable.levelled, Array.size_map] at hsize
  unfold levelled at h
  injection h with _ _ hdiag hvalues _ _ _ hmain
  exact ⟨hdiag, hvalues, hmain, hsize⟩

/-- An idle checker is sound at the level of the request. -/
theorem Idle.sound_levelled (h : c.Idle) (n : ℕ) : (c.levelled n).Sound := by
  rw [← levelled_levelled n 0]
  exact h.sound.levelled n

theorem exists_frame_levelled {f : FrameId} (hf : f.index < c.frames.frames.size) (n : ℕ) :
    ∃ fr, (c.levelled n).frames.frames[f.index]? = some fr ∧ fr.level = n := by
  simp [FrameTable.levelled, hf]

theorem Idle.sits (h : c.Idle) (hf : ctx.frame.index < c.frames.frames.size) :
    ctx.Sits (c.levelled ctx.level) where
  frame := exists_frame_levelled hf ctx.level
  values name v hv := by
    rw [levelled_values, h.values] at hv
    cases hv

/-- After a walk that went in the same way at other levels the checker is idle again. -/
theorem Idle.of_walked (h : c.Idle) (hw : (c.levelled n).Walked d) (heq : c'.levelled 0 = d.levelled 0)
    (hfine : d.diagnostics.size = 0 → ∃ ν n, d.Fine ν n) : c'.Idle where
  sound := heq ▸ hw.sound.levelled 0
  main := by
    obtain ⟨-, -, hmain, hsize⟩ := eq_of_levelled_eq heq
    obtain ⟨fr, hfr, -⟩ := exists_frame_levelled h.main n
    obtain ⟨fr', hfr', -⟩ := hw.grown.frames.frame _ _ hfr
    obtain ⟨hlt, -⟩ := Array.getElem?_eq_some_iff.mp hfr'
    rw [hmain, hw.grown.mainFrame_eq, hsize]
    exact hlt
  values name := by
    obtain ⟨-, hvalues, -⟩ := eq_of_levelled_eq heq
    rw [hvalues, hw.scopes.values_eq]
    exact h.values name
  fine hsize := by
    rw [(eq_of_levelled_eq heq).1] at hsize
    obtain ⟨ν, k, hf⟩ := hfine hsize
    exact ⟨ν, k, heq ▸ hf.levelled 0⟩

end Checker

/-! ## Requests -/

section

variable {α : Type} {R : Checker → Checker → Prop} {ok P : Prop} {m : Check α} {good : α → Prop}
  {c c' d : Checker} {a : α}

/-- In states that differ in levels only, an action that does not read levels does the same. -/
theorem Check.Guarded.outline_eq (hm : Guarded R ok m good) (h : c.levelled 0 = d.levelled 0) :
    outline m c = outline m d := by
  rw [← hm.outline_levelled c 0, h, hm.outline_levelled]

/-- In states that differ in levels only, an action that ended in the one ends so in the other. -/
theorem Check.Guarded.run_of_levelled_eq (hm : Guarded R ok m good) (h : c.levelled 0 = d.levelled 0)
    (hrun : m.run c = .ok (a, c')) : ∃ d', m.run d = .ok (a, d') ∧ c'.levelled 0 = d'.levelled 0 := by
  have hout := hm.outline_eq h
  unfold outline at hout
  rw [hrun] at hout
  cases hd : m.run d with
  | error e =>
    rw [hd] at hout
    cases hout
  | ok r =>
    rw [hd] at hout
    obtain ⟨hfst, hsnd⟩ := Prod.mk.inj (Except.ok.inj hout)
    obtain ⟨b, d'⟩ := r
    obtain rfl : a = b := hfst
    exact ⟨d', rfl, hsnd⟩

/-- An action that does not read levels ends as it does at other levels. -/
theorem Check.Guarded.yieldsOr {Q : α → Checker → Prop} (hm : Guarded R ok m good)
    (h : c.levelled 0 = d.levelled 0) (hd : YieldsOr P m d Q) :
    YieldsOr P m c fun a c' => ∃ d', m.run d = .ok (a, d') ∧ Q a d' ∧ c'.levelled 0 = d'.levelled 0 := by
  rcases hd with ⟨a, d', hrun, hq⟩ | ⟨hp, hrun⟩
  · obtain ⟨c', hrun', heq⟩ := hm.run_of_levelled_eq h.symm hrun
    exact Or.inl ⟨a, c', hrun', d', hrun, hq, heq.symm⟩
  · have hout := hm.outline_eq h
    unfold outline at hout
    rw [hrun] at hout
    cases hc : m.run c with
    | error e =>
      rw [hc] at hout
      exact Or.inr ⟨hp, hc.trans hout⟩
    | ok r =>
      rw [hc] at hout
      cases hout

end

namespace Checker

variable {c : Checker}

/-- **An expression can be checked at any place whose frame exists**, unless levels overflow, and one
without a type was reported. -/
theorem Idle.checkExp (h : c.Idle) (ctx : Context) (hf : ctx.frame.index < c.frames.frames.size)
    (e : Exp) :
    YieldsOr (ctx.Deep e.nesting) (checkExp ctx e) c fun e' c' =>
      c'.Idle ∧ c'.mainFrame = c.mainFrame ∧ (e'.ty = none → c'.diagnostics.size ≠ 0) := by
  have hc := h.sound_levelled ctx.level
  have hs := h.sits hf
  refine ((expTame e ctx).yieldsOr (levelled_levelled 0 ctx.level c).symm (expWalks e ctx _ hc hs)).mono id ?_
  rintro e' c' ⟨d, hrun, hends, heq⟩
  have hfine : d.diagnostics.size = 0 → e'.ty ≠ none ∧ ∃ ν n, d.Fine ν n := by
    intro hsize
    have hle := hends.walked.grown.diagnostics_le
    obtain ⟨ν, n, hf₀⟩ := h.fine (by simpa [hsize] using hle)
    have hf := hf₀.levelled ctx.level
    rw [levelled_levelled] at hf
    cases expJudged e hc hs hf hrun with
    | wrong hlt => omega
    | right _ _ hf' ha _ =>
      obtain ⟨t, ht, -⟩ := ha
      exact ⟨by simp [ht], _, _, hf'⟩
  obtain ⟨hdiag, -, hmain, -⟩ := eq_of_levelled_eq heq
  refine ⟨h.of_walked hends.walked heq fun hsize => (hfine hsize).2,
    hmain.trans hends.walked.grown.mainFrame_eq, fun hty hsize => ?_⟩
  exact (hfine (hdiag ▸ hsize)).1 hty

/-- The layout of the main frame can be fixed. -/
theorem Idle.finalize {P : Prop} (h : c.Idle) :
    YieldsOr P (Check.finalize c.mainFrame) c fun _ c' =>
      c'.Idle ∧ c'.diagnostics.size = c.diagnostics.size := by
  obtain ⟨fr, hfr, -⟩ := exists_frame_levelled h.main 0
  have htame : Tame True (Check.finalize c.mainFrame) fun _ => True := tame_finalize
  refine (htame.yieldsOr (levelled_levelled 0 0 c).symm (h.sound.finalize hfr).or).mono id ?_
  rintro _ c' ⟨d, -, ⟨hw, frames, rfl, hvars, hfunctions⟩, heq⟩
  obtain ⟨hdiag, -⟩ := eq_of_levelled_eq heq
  refine ⟨h.of_walked hw heq fun hsize => ?_, congrArg Diagnostics.size hdiag⟩
  obtain ⟨ν, n, hf⟩ := h.fine hsize
  refine ⟨ν, n, hf.clean, hf.elements, hf.fits, fun name v hv => ?_, fun name f hname => ?_⟩
  · rw [show (c.levelled 0).values = c.values from rfl, h.values] at hv
    cases hv
  · obtain ⟨s, hs⟩ := hf.functions name f hname
    exact ⟨s, by simpa [signed, hfunctions] using hs⟩

/-- **A program can be checked**, unless levels overflow, and one without a type was reported. -/
theorem Idle.checkProgram (h : c.Idle) (p : Program) :
    YieldsOr (maxLevel < p.body.nesting) (checkProgram p) c fun p' c' =>
      c'.Idle ∧ (p'.body.ty = none → c'.diagnostics.size ≠ 0) := by
  unfold TigerCheck.checkProgram
  refine Yields.bindOr (yields_get.mpr ?_)
  have hbody := h.checkExp ⟨0, c.mainFrame, 0⟩ h.main p.body
  refine YieldsOr.bind (hbody.mono (by simp [Context.Deep]) fun _ _ h => h) fun body c₁ h₁ => ?_
  obtain ⟨hidle, hmain, hty⟩ := h₁
  rw [← hmain]
  refine YieldsOr.bind hidle.finalize fun _ c₂ h₂ => yieldsOr_pure ⟨h₂.1, fun hnone => ?_⟩
  rw [h₂.2]
  exact hty hnone

theorem Idle.note (h : c.Idle) (e : Event) : (c.note e).Idle := by
  refine h.of_walked (walked_note h.sound e) (by simp [levelled, Checker.note]) fun hsize => ?_
  obtain ⟨ν, n, hf⟩ := h.fine hsize
  exact ⟨ν, n, hf.clean, hf.elements, hf.fits, hf.values, hf.functions⟩

/-- Before anything is checked the checker is idle. -/
theorem initial_idle : initial.Idle where
  sound := initial_sound.levelled 0
  main := by
    rw [initial_tables.1]
    exact Nat.zero_lt_one
  values _ := rfl
  fine _ := ⟨⟨id, id⟩, 0, (initial_fine _).levelled 0⟩

end Checker

/-! ## Sessions -/

/-- What may be asked of a checker: to check an expression in the main frame, at some level and within
some loops, or to check a program. -/
inductive Request where
  | exp (level loops : Nat) (e : Exp)
  | program (p : Program)

namespace Request

/-- Answer a request, which gives back the tree with its cells filled. -/
def check : Request → Check Exp
  | exp level loops e => do checkExp ⟨level, (← get).mainFrame, loops⟩ e
  | program p => (·.body) <$> checkProgram p

/-- The level of the innermost function of a request. -/
def deepest : Request → Nat
  | exp level _ e => level + e.nesting
  | program p => p.body.nesting

/-- Every level of a request is a machine word. -/
def Fits (r : Request) : Prop := r.deepest ≤ maxLevel

theorem yieldsOr_check (r : Request) {c : Checker} (h : c.Idle) :
    YieldsOr (¬ r.Fits) r.check c fun _ c' => c'.Idle := by
  cases r with
  | exp level loops e =>
    refine Yields.bindOr (yields_get.mpr ?_)
    exact (h.checkExp ⟨level, c.mainFrame, loops⟩ h.main e).mono Nat.not_le_of_lt
      fun _ _ h => h.1
  | program p =>
    change YieldsOr _ ((·.body) <$> checkProgram p) c _
    rw [map_eq_pure_bind]
    refine YieldsOr.bind ((h.checkProgram p).mono Nat.not_le_of_lt fun _ _ h => h) fun p' c' h' => ?_
    exact yieldsOr_pure h'.1

end Request

/-- An idle checker answers any number of requests. -/
theorem Checker.Idle.session (rs : List Request) : ∀ {c : Checker}, c.Idle →
    YieldsOr (∃ r ∈ rs, ¬ r.Fits) (rs.mapM Request.check) c fun _ c' => c'.Idle := by
  induction rs with
  | nil => exact fun h => yieldsOr_pure h
  | cons r rs ih =>
    intro c h
    rw [List.mapM_cons]
    refine YieldsOr.bind ((r.yieldsOr_check h).mono (fun hr => ⟨r, List.mem_cons_self, hr⟩)
      fun _ _ h => h) fun e c₁ h₁ => ?_
    refine YieldsOr.bind ((ih h₁).mono (fun ⟨s, hs, hfit⟩ => ⟨s, List.mem_cons_of_mem _ hs, hfit⟩)
      fun _ _ h => h) fun es c₂ h₂ => ?_
    exact yieldsOr_pure h₂

end TigerCheck
