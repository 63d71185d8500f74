import TigerCheck.Proofs.Scope.Table
import TigerCheck.Proofs.Tame.Rule
import TigerCheck.Proofs.Walk.Sound

/-!
# What an action leaves alone

In whatever state it is, and whether that makes sense or not, the checker takes nothing back: what was
reported stays reported, slots and functions stay, a type name that is settled stays settled, and of the
frames that were there only one gets further slots. Which of the scopes change depends on the action.

* `FrameTable.Spares`, `Checker.Leaves`: nothing is taken back, and slots go to one frame or to later ones.
* `Checker.SameOuter`, `Checker.SameBesideValues`, `Checker.SameScopes`: how much the scopes are the same.
* `Check.Moves`: what an action does to the state, and what its answer is. **`Check.Moves.bind`**.
* `Check.moves_alloc`, `Check.moves_newFrame`, …: the primitive actions.
-/

namespace TigerCheck

open Check

/-! ## Tables -/

namespace FrameTable

variable {n : ℕ} {f g : FrameId} {t t' t'' : FrameTable}

/-- Of the first `n` frames only one is changed, and that by appending slots. -/
structure Spares (n : ℕ) (f : FrameId) (t t' : FrameTable) : Prop where
  others : ∀ g : FrameId, g.index < n → g ≠ f → g.index < t.frames.size →
    t'.frames[g.index]? = t.frames[g.index]?
  own : f.index < n → ∀ fr, t.frames[f.index]? = some fr →
    ∃ vs : List VarId, t'.frames[f.index]? = some { fr with slots := fr.slots ++ vs.toArray }
  size_le : t.frames.size ≤ t'.frames.size

theorem Spares.of_frames_eq (h : t'.frames = t.frames) : Spares n f t t' where
  others g _ _ _ := by rw [h]
  own _ fr hfr := ⟨[], by rw [h, hfr]; simp⟩
  size_le := Nat.le_of_eq (by rw [h])

theorem Spares.refl (n : ℕ) (f : FrameId) (t : FrameTable) : Spares n f t t := .of_frames_eq rfl

theorem Spares.trans (h : Spares n f t t') (h' : Spares n f t' t'') : Spares n f t t'' where
  others g hg hne hlt :=
    (h'.others g hg hne (Nat.lt_of_lt_of_le hlt h.size_le)).trans (h.others g hg hne hlt)
  own hf fr hfr := by
    obtain ⟨vs, hvs⟩ := h.own hf fr hfr
    obtain ⟨ws, hws⟩ := h'.own hf _ hvs
    exact ⟨vs ++ ws, by rw [hws]; simp⟩
  size_le := Nat.le_trans h.size_le h'.size_le

/-- What is appended to a later frame leaves all earlier ones alone. -/
theorem Spares.of_later (h : Spares n g t t') (hg : n ≤ g.index) : Spares n f t t' where
  others i hi _ hlt := h.others i hi (fun heq => absurd (heq ▸ hi) (Nat.not_lt_of_le hg)) hlt
  own hf fr hfr := by
    have hne : f ≠ g := fun heq => absurd (heq ▸ hf) (Nat.not_lt_of_le hg)
    refine ⟨[], ?_⟩
    rw [h.others f hf hne (Array.getElem?_eq_some_iff.mp hfr).1, hfr]
    simp
  size_le := h.size_le

theorem Appends.spares {vs : List VarId} (h : t.Appends f vs t') : Spares n f t t' where
  others g _ hne hlt := h.others g hne hlt
  own _ fr hfr := ⟨vs, h.frame fr hfr⟩
  size_le := h.size_le

/-- Fixing the layout of a later frame leaves slots, functions and all earlier frames alone. -/
theorem spares_of_finalize (h : t.finalize g = .ok t') (hg : n ≤ g.index) :
    Spares n f t t' ∧ t'.vars = t.vars ∧ t'.functions = t.functions := by
  obtain ⟨hlt, -⟩ := finalize_spec h
  obtain ⟨hvars, hfunctions, hsize, hothers, -⟩ := finalize_eq (Array.getElem?_eq_getElem hlt) h
  have hspares : Spares n g t t' :=
    ⟨fun i _ hne _ => hothers i hne, fun hlt => absurd hlt (Nat.not_lt_of_le hg), Nat.le_of_eq hsize.symm⟩
  exact ⟨hspares.of_later hg, hvars, hfunctions⟩

end FrameTable

namespace Checker

variable {n : ℕ} {f g : FrameId} {c c' c'' : Checker}

/-- Nothing is taken back, and of the first `n` frames only one gets slots. -/
structure Leaves (n : ℕ) (f : FrameId) (c c' : Checker) : Prop where
  diagnostics : c.diagnostics.entries.toList <+: c'.diagnostics.entries.toList
  slots : c.frames.vars.toList <+: c'.frames.vars.toList
  prototypes : c.frames.functions.toList <+: c'.frames.functions.toList
  names_le : c.namedTypes.size ≤ c'.namedTypes.size
  settled : ∀ id s, c.status id = some s → (∀ dec o, s ≠ .pending dec o) → c'.status id = some s
  frames : c.frames.Spares n f c'.frames
  mainFrame_eq : c'.mainFrame = c.mainFrame

theorem Leaves.refl (n : ℕ) (f : FrameId) (c : Checker) : Leaves n f c c where
  diagnostics := List.prefix_rfl
  slots := List.prefix_rfl
  prototypes := List.prefix_rfl
  names_le := Nat.le_refl _
  settled _ _ h _ := h
  frames := .refl ..
  mainFrame_eq := rfl

theorem Leaves.trans (h : Leaves n f c c') (h' : Leaves n f c' c'') : Leaves n f c c'' where
  diagnostics := h.diagnostics.trans h'.diagnostics
  slots := h.slots.trans h'.slots
  prototypes := h.prototypes.trans h'.prototypes
  names_le := Nat.le_trans h.names_le h'.names_le
  settled id s hs hset := h'.settled id s (h.settled id s hs hset) hset
  frames := h.frames.trans h'.frames
  mainFrame_eq := h'.mainFrame_eq.trans h.mainFrame_eq

/-- Code of a later frame leaves all earlier ones alone. -/
theorem Leaves.of_later (h : Leaves n g c c') (hg : n ≤ g.index) : Leaves n f c c' :=
  { h with frames := h.frames.of_later hg }

/-! ## Scopes -/

/-- The scopes around the innermost ones are the same. -/
structure SameOuter (c c' : Checker) : Prop where
  values : c'.values.outer = c.values.outer
  typeNames : c'.typeNames.outer = c.typeNames.outer
  functions : c'.functions.outer = c.functions.outer

/-- The scopes are the same, but for the innermost one of the variables. -/
structure SameBesideValues (c c' : Checker) : Prop where
  values : c'.values.outer = c.values.outer
  typeNames : c'.typeNames = c.typeNames
  functions : c'.functions = c.functions

/-- Some scopes stay the same from step to step. -/
instance : Change SameOuter where
  refl _ := ⟨rfl, rfl, rfl⟩
  trans _ _ _ h h' := ⟨h'.values.trans h.values, h'.typeNames.trans h.typeNames,
    h'.functions.trans h.functions⟩

instance : Change SameBesideValues where
  refl _ := ⟨rfl, rfl, rfl⟩
  trans _ _ _ h h' := ⟨h'.values.trans h.values, h'.typeNames.trans h.typeNames,
    h'.functions.trans h.functions⟩

instance : Change SameScopes where
  refl _ := ⟨rfl, rfl, rfl⟩
  trans _ _ _ h h' := ⟨h'.values_eq.trans h.values_eq, h'.typeNames_eq.trans h.typeNames_eq,
    h'.functions_eq.trans h.functions_eq⟩

theorem SameScopes.besideValues (h : c.SameScopes c') : c.SameBesideValues c' :=
  ⟨by rw [h.values_eq], h.typeNames_eq, h.functions_eq⟩

theorem SameBesideValues.outer (h : c.SameBesideValues c') : c.SameOuter c' :=
  ⟨h.values, by rw [h.typeNames], by rw [h.functions]⟩

theorem SameScopes.outer (h : c.SameScopes c') : c.SameOuter c' := h.besideValues.outer

end Checker

/-! ## Moves -/

namespace Check

variable {α β : Type} {n : ℕ} {f : FrameId} {S S' : Checker → Checker → Prop} {P P' : α → Prop} {Q : β → Prop}
  {m : Check α}

/-- **What an action does**: where there are `n` frames already, it leaves everything alone but one of them and
what comes later, it changes the scopes in a certain way, and its answer is as it should be. -/
def Moves (n : ℕ) (f : FrameId) (S : Checker → Checker → Prop) (m : Check α) (P : α → Prop) : Prop :=
  ∀ ⦃c a c'⦄, n ≤ c.frames.frames.size → m.run c = .ok (a, c') → c.Leaves n f c' ∧ S c c' ∧ P a

/-- An action that leaves the scopes alone as well. -/
abbrev Restores (n : ℕ) (f : FrameId) (m : Check α) : Prop :=
  Moves n f Checker.SameScopes m fun _ => True

namespace Moves

theorem mono (h : Moves n f S m P) (hS : ∀ {c c'}, S c c' → S' c c') (hP : ∀ a, P a → P' a) :
    Moves n f S' m P' := fun _ a _ hn hrun =>
  let ⟨hl, hs, ha⟩ := h hn hrun
  ⟨hl, hS hs, hP a ha⟩

/-- Code of a later frame leaves all earlier ones alone. -/
theorem of_later {g : FrameId} (h : Moves n g S m P) (hg : n ≤ g.index) : Moves n f S m P :=
  fun _ _ _ hn hrun =>
    let ⟨hl, hs, ha⟩ := h hn hrun
    ⟨hl.of_later hg, hs, ha⟩

theorem get {g : Checker → Check α} (h : ∀ c, Moves n f S (g c) P) :
    Moves n f S (MonadState.get >>= g) P := fun c _ _ hn hrun => h c hn hrun

theorem ite {b : Prop} [Decidable b] {m' : Check α} (h : Moves n f S m P) (h' : Moves n f S m' P) :
    Moves n f S (if b then m else m') P := by
  split
  · exact h
  · exact h'

theorem throw {e : Breach} : Moves n f S (MonadExcept.throw e : Check α) P := by
  intro c a c' _ hrun
  cases hrun

variable [Checker.Change S]

theorem pure {a : α} (h : P a) : Moves n f S (Pure.pure a) P := by
  intro c b c' _ hrun
  cases hrun
  exact ⟨.refl n f c, Checker.Change.refl c, h⟩

/-- **One action after another.** -/
theorem bind {k : α → Check β} (hm : Moves n f S m P) (hk : ∀ a, P a → Moves n f S (k a) Q) :
    Moves n f S (m >>= k) Q := by
  intro c b c' hn hrun
  obtain ⟨a, c₁, h₁, h₂⟩ := exists_of_run_bind hrun
  obtain ⟨hl, hs, ha⟩ := hm hn h₁
  obtain ⟨hl', hs', hb⟩ := hk a ha (Nat.le_trans hn hl.frames.size_le) h₂
  exact ⟨hl.trans hl', Checker.Change.trans c c₁ c' hs hs', hb⟩

/-- One action after another, where the answer of the first does not matter. -/
theorem andThen {k : α → Check β} (hm : Moves n f S m fun _ => True) (hk : ∀ a, Moves n f S (k a) Q) :
    Moves n f S (m >>= k) Q := hm.bind fun a _ => hk a

theorem map {k : α → β} (hm : Moves n f S m P) (hk : ∀ a, P a → Q (k a)) : Moves n f S (k <$> m) Q := by
  rw [map_eq_pure_bind]
  exact hm.bind fun a ha => .pure (hk a ha)

end Moves

/-! ## Reports -/

theorem leaves_reported (n : ℕ) (f : FrameId) (c : Checker) (fault : Fault) (loc : Location) :
    c.Leaves n f (c.reported fault loc) :=
  { Checker.Leaves.refl n f c with
    diagnostics := by
      rw [Checker.reported, Diagnostics.report, Array.toList_push]
      exact List.prefix_append _ _ }

/-- An action that reports faults and does nothing else. -/
theorem restores_of_passive {F : Fault → Prop} {ok : Prop} (h : Passive F ok m P) : Restores n f m := by
  intro c a c' _ hrun
  have hreports := h.changes c a c' hrun
  clear hrun
  induction hreports with
  | refl => exact ⟨.refl n f c, ⟨rfl, rfl, rfl⟩, trivial⟩
  | report loc _ _ ih =>
    obtain ⟨hl, hs, -⟩ := ih
    exact ⟨hl.trans (leaves_reported ..), ⟨hs.values_eq, hs.typeNames_eq, hs.functions_eq⟩, trivial⟩

theorem restores_report {fault : Fault} {loc : Location} : Restores n f (report fault loc) :=
  restores_of_passive (passive_report trivial : Passive anyFault True _ _)

theorem restores_fail {fault : Fault} {loc : Location} : Restores n f (fail fault loc : Check (Option α)) :=
  restores_of_passive (passive_fail trivial : Passive anyFault True _ _)

theorem restores_log {e : Event} : Restores n f (log e) := by
  intro c a c' _ hrun
  cases hrun
  exact ⟨{ Checker.Leaves.refl n f c with }, ⟨rfl, rfl, rfl⟩, trivial⟩

/-! ## Frames and functions -/

theorem restores_alloc {name : String} {ty : Option Ty} {kind : SlotKind} :
    Restores n f (alloc f name ty kind) := by
  intro c v c' _ hrun
  have hend : Yields (alloc f name ty kind) c fun w d => w = v ∧ d = c' := ⟨v, c', hrun, rfl, rfl⟩
  obtain ⟨w, frames, halloc, rfl, rfl⟩ := yields_alloc.mp hend
  obtain ⟨happ, -, -, hfunctions, -⟩ := FrameTable.appends_of_alloc halloc
  have hvars : c.frames.vars.toList <+: frames.vars.toList := by
    obtain ⟨-, -, rfl⟩ := FrameTable.alloc_eq halloc
    rw [Array.toList_push]
    exact List.prefix_append _ _
  exact ⟨{ Checker.Leaves.refl n f c with
    slots := hvars
    prototypes := hfunctions ▸ List.prefix_rfl
    frames := happ.spares }, ⟨rfl, rfl, rfl⟩, trivial⟩

/-- A new frame comes after all those that were there. -/
theorem moves_newFrame {name : String} {level : ℕ} {parent : FrameId} :
    Moves n f Checker.SameScopes (newFrame name level parent) fun g => n ≤ g.index := by
  intro c g c' hn hrun
  cases hrun
  exact ⟨{ Checker.Leaves.refl n f c with
    frames := (FrameTable.Appends.newFrame ..).spares }, ⟨rfl, rfl, rfl⟩, hn⟩

theorem restores_finalize {g : FrameId} (hg : n ≤ g.index) : Restores n f (finalize g) := by
  intro c u c' _ hrun
  have hend : Yields (finalize g) c fun _ d => d = c' := ⟨u, c', hrun, rfl⟩
  obtain ⟨frames, hfin, rfl⟩ := yields_finalize.mp hend
  obtain ⟨hspares, hvars, hfunctions⟩ := FrameTable.spares_of_finalize (f := f) hfin hg
  exact ⟨{ Checker.Leaves.refl n f c with
    slots := hvars ▸ List.prefix_rfl
    prototypes := hfunctions ▸ List.prefix_rfl
    frames := hspares }, ⟨rfl, rfl, rfl⟩, trivial⟩

theorem moves_addFunction {p : Prototype} :
    Moves n f Checker.SameOuter (addFunction p) fun _ => True := by
  intro c id c' _ hrun
  cases hrun
  exact ⟨{ Checker.Leaves.refl n f c with
    prototypes := by
      rw [Array.toList_push]
      exact List.prefix_append _ _
    frames := .of_frames_eq rfl }, ⟨rfl, rfl, rfl⟩, trivial⟩

/-! ## Bindings -/

theorem moves_bindValue {name : String} {v : VarId} :
    Moves n f Checker.SameBesideValues (bindValue name v) fun _ => True := by
  intro c u c' _ hrun
  cases hrun
  exact ⟨{ Checker.Leaves.refl n f c with }, ⟨rfl, rfl, rfl⟩, trivial⟩

theorem moves_bindParams : ∀ (ps : List TypedName) (vs : List VarId),
    Moves n f Checker.SameBesideValues (bindParams ps vs) fun _ => True
  | _ :: ps, _ :: vs => moves_bindValue.andThen fun _ => moves_bindParams ps vs
  | [], _ => .pure trivial
  | _ :: _, [] => .pure trivial

theorem moves_declareType {dec : TypeDec} :
    Moves n f Checker.SameOuter (declareType dec) fun _ => True := by
  intro c id c' _ hrun
  cases hrun
  exact ⟨{ Checker.Leaves.refl n f c with
    names_le := by simp
    settled := fun id s hs _ => by
      have hne := Nat.ne_of_lt (Checker.lt_of_status hs)
      simpa [Checker.status, Array.getElem?_push, hne] using hs }, ⟨rfl, rfl, rfl⟩, trivial⟩

end Check

end TigerCheck
