import Mathlib.Data.List.Nodup
import TigerCheck.Proofs.Frame

/-!
# What becomes of each frame

Slots go to one frame at a time, always to its end, and every slot, frame and function gets the next handle
of its kind. So what is added by a part of a walk is told by where the tables end before and after it.

* `handles`: the handles from one size of a table up to another. `AllDistinct`: cells with one handle each.
* `FrameTable.Appends`: slots are appended to one frame, and the other frames stay as they are.
  `FrameTable.Alters`: only some frames are changed.
* **`FrameTable.appends_of_alloc`**, `FrameTable.finalize_eq`: the operations, told exactly.
* `FrameTable.LaidOut`: the layout of a frame lists the types of its slots.
-/

namespace TigerCheck

/-! ## Handles in a row -/

/-- The handles from one size of a table up to another. -/
def handles {α : Type} (mk : ℕ → α) (a b : ℕ) : List α := (List.range' a (b - a)).map mk

section

variable {α : Type} {mk : ℕ → α} {a b n : ℕ}

@[simp] theorem handles_self : handles mk a a = [] := by simp [handles]

@[simp] theorem handles_succ : handles mk a (a + 1) = [mk a] := by simp [handles]

theorem handles_append (h : a ≤ n) (h' : n ≤ b) : handles mk a n ++ handles mk n b = handles mk a b := by
  have hsum : b - a = (n - a) + (b - n) := by omega
  have hstart : a + 1 * (n - a) = n := by omega
  rw [handles, handles, handles, ← List.map_append, hsum, ← List.range'_append, hstart]

theorem handles_eq_nil_iff : handles mk a b = [] ↔ b ≤ a := by
  simp [handles, Nat.sub_eq_zero_iff_le]

theorem mem_handles_of_lt (mk : ℕ → α) {i : ℕ} (h : a ≤ i) (h' : i < b) : mk i ∈ handles mk a b :=
  List.mem_map_of_mem (List.mem_range'_1.mpr (by omega))

theorem length_handles : (handles mk a b).length = b - a := by simp [handles]

theorem nodup_handles (hmk : Function.Injective mk) : (handles mk a b).Nodup :=
  (List.nodup_range' ..).map hmk

/-- Every cell is filled, and no two cells hold the same. -/
def AllDistinct {α : Type} (cells : List (Option α)) : Prop := none ∉ cells ∧ cells.Nodup

theorem allDistinct_handles (hmk : Function.Injective mk) :
    AllDistinct (handles (fun i => some (mk i)) a b) :=
  ⟨by simp [handles], nodup_handles fun _ _ h => hmk (Option.some.inj h)⟩

end

namespace FrameTable

variable {t t' t'' : FrameTable} {f g : FrameId} {v : VarId} {vs ws : List VarId}

theorem Grows.functions_le (h : t.Grows t') : t.functions.size ≤ t'.functions.size := by
  refine Nat.le_of_not_lt fun hlt => ?_
  have hp := h.function ⟨t'.functions.size⟩ _ (Array.getElem?_eq_getElem hlt)
  rw [Array.getElem?_eq_none (Nat.le_refl _)] at hp
  cases hp

theorem Grows.frames_le (h : t.Grows t') : t.frames.size ≤ t'.frames.size := by
  refine Nat.le_of_not_lt fun hlt => ?_
  obtain ⟨fr, hfr, -⟩ := h.frame ⟨t'.frames.size⟩ _ (Array.getElem?_eq_getElem hlt)
  rw [Array.getElem?_eq_none (Nat.le_refl _)] at hfr
  cases hfr

/-! ## Slots at the end of a frame -/

/-- Slots are appended to one frame. The other frames stay as they are, and there may be new ones. -/
structure Appends (f : FrameId) (vs : List VarId) (t t' : FrameTable) : Prop where
  frame : ∀ fr, t.frames[f.index]? = some fr →
    t'.frames[f.index]? = some { fr with slots := fr.slots ++ vs.toArray }
  others : ∀ g : FrameId, g ≠ f → g.index < t.frames.size →
    t'.frames[g.index]? = t.frames[g.index]?
  size_le : t.frames.size ≤ t'.frames.size

theorem Appends.of_frames_eq (h : t'.frames = t.frames) : t.Appends f [] t' where
  frame fr hfr := by simpa [h] using hfr
  others _ _ _ := by rw [h]
  size_le := Nat.le_of_eq (by rw [h])

theorem Appends.refl (t : FrameTable) : t.Appends f [] t := .of_frames_eq rfl

theorem Appends.trans (h : t.Appends f vs t') (h' : t'.Appends f ws t'') :
    t.Appends f (vs ++ ws) t'' where
  frame fr hfr := by
    rw [h'.frame _ (h.frame fr hfr)]
    simp
  others g hg hlt := (h'.others g hg (Nat.lt_of_lt_of_le hlt h.size_le)).trans (h.others g hg hlt)
  size_le := Nat.le_trans h.size_le h'.size_le

/-- A frame that is added later was not there before. -/
theorem Appends.newFrame (t : FrameTable) (name : String) (level : ℕ) (parent : Option FrameId) :
    t.Appends f [] (t.newFrame name level parent).2 where
  frame fr hfr := by
    have hlt := (Array.getElem?_eq_some_iff.mp hfr).1
    simpa [FrameTable.newFrame, Array.getElem?_push, Nat.ne_of_lt hlt] using hfr
  others g _ hlt := by
    rw [FrameTable.newFrame, Array.getElem?_push, if_neg (Nat.ne_of_lt hlt)]
  size_le := by simp [FrameTable.newFrame]

/-- Of the frames that are there, only some are changed, and there may be new ones. -/
structure Alters (fs : List FrameId) (t t' : FrameTable) : Prop where
  others : ∀ g : FrameId, g ∉ fs → g.index < t.frames.size →
    t'.frames[g.index]? = t.frames[g.index]?
  size_le : t.frames.size ≤ t'.frames.size

theorem Alters.trans {fs gs : List FrameId} (h : t.Alters fs t') (h' : t'.Alters gs t'') :
    t.Alters (fs ++ gs) t'' where
  others g hg hlt := by
    rw [List.mem_append, not_or] at hg
    exact (h'.others g hg.2 (Nat.lt_of_lt_of_le hlt h.size_le)).trans (h.others g hg.1 hlt)
  size_le := Nat.le_trans h.size_le h'.size_le

theorem Appends.alters (h : t.Appends f vs t') : t.Alters [f] t' :=
  ⟨fun g hg => h.others g (by simpa using hg), h.size_le⟩

/-- Frames that are not there cannot be changed. -/
theorem Alters.of_new {fs : List FrameId} (h : t.Alters fs t')
    (hfs : ∀ f ∈ fs, t.frames.size ≤ f.index) : t.Alters [] t' :=
  ⟨fun g _ hlt => h.others g (fun hg => Nat.lt_irrefl _ (Nat.lt_of_lt_of_le hlt (hfs g hg))) hlt,
    h.size_le⟩

/-- If no frame that is there is changed, nothing is appended. -/
theorem Alters.appends (h : t.Alters [] t') (f : FrameId) : t.Appends f [] t' where
  frame fr hfr := by
    rw [h.others f List.not_mem_nil (Array.getElem?_eq_some_iff.mp hfr).1, hfr]
    simp
  others g _ := h.others g List.not_mem_nil
  size_le := h.size_le

/-- **A slot that is allocated gets the next handle, and is appended to its frame.** -/
theorem appends_of_alloc {name : String} {ty : Option Ty} {kind : SlotKind}
    (h : t.alloc f name ty kind = .ok (v, t')) :
    t.Appends f [v] t' ∧ v = ⟨t.vars.size⟩ ∧ t'.vars.size = t.vars.size + 1 ∧
      t'.functions = t.functions ∧ t'.frames.size = t.frames.size ∧
      ∃ s, t'.vars[v.index]? = some s ∧ s.name = name ∧ s.ty = ty ∧ s.kind = kind := by
  obtain ⟨hlt, rfl, rfl⟩ := alloc_eq h
  refine ⟨⟨fun fr hfr => ?_, fun g hg _ => ?_, ?_⟩, rfl, by simp, rfl, by simp, _,
    Array.getElem?_push_size, rfl, rfl, rfl⟩
  · obtain ⟨_, rfl⟩ := Array.getElem?_eq_some_iff.mp hfr
    simp
  · have hne : f.index ≠ g.index := fun heq => hg (by cases f; cases g; simp_all)
    simp [hne]
  · simp

/-! ## Layouts -/

/-- Types stay what they are in a table that grows. -/
theorem Grows.forall₂_ty (hg : t.Grows t') {tys : List (Option Ty)}
    (h : List.Forall₂ (fun (v : VarId) ty => ∃ s, t.vars[v.index]? = some s ∧ s.ty = ty) vs tys) :
    List.Forall₂ (fun (v : VarId) ty => ∃ s, t'.vars[v.index]? = some s ∧ s.ty = ty) vs tys :=
  h.imp fun v _ ⟨s, hs, hty⟩ => ⟨s, hg.slot v s hs, hty⟩

/-- The layout of a frame lists the types of its slots, by offset. -/
def LaidOut (t : FrameTable) (fr : Frame) : Prop :=
  ∃ tys, fr.layout = some tys ∧
    List.Forall₂ (fun (v : VarId) ty => ∃ s, t.vars[v.index]? = some s ∧ s.ty = ty) fr.slots.toList tys

theorem LaidOut.grows {fr : Frame} (h : t.LaidOut fr) (hg : t.Grows t') : t'.LaidOut fr := by
  obtain ⟨tys, hlayout, hall⟩ := h
  exact ⟨tys, hlayout, hg.forall₂_ty hall⟩

theorem forall₂_of_mapM_var {vs : List VarId} {tys : List (Option Ty)}
    (h : vs.mapM (fun v => (·.ty) <$> t.var v) = .ok tys) :
    List.Forall₂ (fun (v : VarId) ty => ∃ s, t.vars[v.index]? = some s ∧ s.ty = ty) vs tys := by
  induction vs generalizing tys with
  | nil =>
    cases h
    exact .nil
  | cons v vs ih =>
    rw [List.mapM_cons] at h
    cases hv : t.var v with
    | error e =>
      rw [hv] at h
      cases h
    | ok s =>
      cases hvs : vs.mapM (fun v => (·.ty) <$> t.var v) with
      | error e =>
        rw [hv, hvs] at h
        cases h
      | ok rest =>
        rw [hv, hvs] at h
        cases h
        exact .cons ⟨s, entry_eq_ok_iff.mp hv, rfl⟩ (ih hvs)

/-- **A frame that is finalized gets its layout**, and nothing else changes. -/
theorem finalize_eq {fr : Frame} (hf : t.frames[f.index]? = some fr) (h : t.finalize f = .ok t') :
    t'.vars = t.vars ∧ t'.functions = t.functions ∧ t'.frames.size = t.frames.size ∧
      (∀ g : FrameId, g ≠ f → t'.frames[g.index]? = t.frames[g.index]?) ∧
      ∃ tys, t'.frames[f.index]? = some { fr with layout := some tys } ∧
        t'.LaidOut { fr with layout := some tys } := by
  obtain ⟨hlt, tys, htys, rfl⟩ := finalize_spec h
  obtain ⟨_, rfl⟩ := Array.getElem?_eq_some_iff.mp hf
  refine ⟨rfl, rfl, by simp, fun g hg => ?_, tys, by simp, tys, rfl, forall₂_of_mapM_var htys⟩
  have hne : f.index ≠ g.index := fun heq => hg (by cases f; cases g; simp_all)
  simp [hne]

end FrameTable

end TigerCheck
