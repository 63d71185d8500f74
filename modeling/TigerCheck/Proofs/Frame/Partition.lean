import TigerCheck.Proofs.Operations
import TigerCheck.Proofs.Scope.Table

/-!
# Frames share the variables among them

A table of frames that was built by its operations gives every variable one seat: a frame, and a position
in it. The seats of a frame are filled in the order of allocation, whatever happens to the other frames in
between, and a layout once fixed describes the slots that were there.

* `FrameTable.Op`, `FrameTable.apply`: the operations. `FrameTable.Admits`: the frame in question exists.
* `FrameTable.slotAt`: the variable at a position of a frame.
* `FrameTable.Partitioned`: what is true of every table that is built so.
* **`FrameTable.Partitioned.exists_apply`**: what one operation keeps, and what it leaves alone.
* **`FrameTable.exists_partitioned`**: every sequence of operations.
-/

namespace TigerCheck

namespace FrameTable

/-- An operation on a table of frames. -/
inductive Op where
  | newFrame (name : String) (level : Nat) (parent : Option FrameId)
  | alloc (frame : FrameId) (name : String) (ty : Option Ty) (kind : SlotKind)
  | addFunction (p : Prototype)
  | finalize (frame : FrameId)
deriving DecidableEq

/-- Do one operation. The handle that it gives out is the next one of its kind. -/
def apply (t : FrameTable) : Op → Except Breach FrameTable
  | .newFrame name level parent => .ok (t.newFrame name level parent).2
  | .alloc frame name ty kind => (·.2) <$> t.alloc frame name ty kind
  | .addFunction p => .ok (t.addFunction p).2
  | .finalize frame => t.finalize frame

/-- The frame that an operation works on exists. Levels and parents may be anything. -/
def Admits (t : FrameTable) : Op → Prop
  | .newFrame .. | .addFunction _ => True
  | .alloc frame .. | .finalize frame => frame.index < t.frames.size

instance (t : FrameTable) (o : Op) : Decidable (t.Admits o) := by
  cases o <;> unfold Admits <;> infer_instance

/-- The variable at a position of a frame. -/
def slotAt (t : FrameTable) (f : FrameId) (i : ℕ) : Option VarId :=
  t.frames[f.index]?.bind (·.slots[i]?)

/-- **Frames share the variables among them**, each in the order of allocation. A variable has the level of
its frame, and a layout lists the types of the first slots. -/
structure Partitioned (t : FrameTable) : Prop where
  slotAt_iff : ∀ (f : FrameId) i (v : VarId),
    t.slotAt f i = some v ↔ ∃ s, t.vars[v.index]? = some s ∧ s.frame = f ∧ s.offset = i
  level_eq : ∀ (v : VarId) s fr, t.vars[v.index]? = some s → t.frames[s.frame.index]? = some fr →
    s.level = fr.level
  increasing : ∀ (f : FrameId) fr, t.frames[f.index]? = some fr →
    fr.slots.toList.Pairwise (·.index < ·.index)
  layout : ∀ (f : FrameId) fr tys, t.frames[f.index]? = some fr → fr.layout = some tys →
    ∃ vs, vs <+: fr.slots.toList ∧
      List.Forall₂ (fun (v : VarId) ty => ∃ s, t.vars[v.index]? = some s ∧ s.ty = ty) vs tys

variable {t t' : FrameTable} {f : FrameId} {v : VarId} {i : ℕ}

theorem slotAt_eq_some_iff :
    t.slotAt f i = some v ↔ ∃ fr, t.frames[f.index]? = some fr ∧ fr.slots[i]? = some v :=
  Option.bind_eq_some_iff

theorem Partitioned.empty : ({} : FrameTable).Partitioned where
  slotAt_iff f i v := by simp [slotAt]
  level_eq v s fr hs := by simp at hs
  increasing f fr hfr := by simp at hfr
  layout f fr tys hfr := by simp at hfr

/-! ## Seats -/

theorem Partitioned.seated (ht : t.Partitioned) : t.Seated where
  slot v s hs := by
    obtain ⟨fr, hfr, hv⟩ := slotAt_eq_some_iff.mp ((ht.slotAt_iff _ _ v).mpr ⟨s, hs, rfl, rfl⟩)
    exact ⟨fr, hfr, (ht.level_eq v s fr hs hfr).symm, hv⟩
  held f fr hfr k v hv := (ht.slotAt_iff f k v).mp (slotAt_eq_some_iff.mpr ⟨fr, hfr, hv⟩)

theorem Seated.slotAt_iff (ht : t.Seated) :
    t.slotAt f i = some v ↔ ∃ s, t.vars[v.index]? = some s ∧ s.frame = f ∧ s.offset = i := by
  rw [slotAt_eq_some_iff]
  constructor
  · rintro ⟨fr, hfr, hv⟩
    exact ht.held f fr hfr i v hv
  · rintro ⟨s, hs, rfl, rfl⟩
    obtain ⟨fr, hfr, -, hv⟩ := ht.slot v s hs
    exact ⟨fr, hfr, hv⟩

theorem Seated.level_eq (ht : t.Seated) {s : Slot} {fr : Frame} (hs : t.vars[v.index]? = some s)
    (hfr : t.frames[s.frame.index]? = some fr) : s.level = fr.level := by
  obtain ⟨fr', hfr', hl, -⟩ := ht.slot v s hs
  rw [hfr] at hfr'
  cases hfr'
  exact hl.symm

/-- **Every variable has exactly one seat.** -/
theorem Seated.existsUnique (ht : t.Seated) (hv : v.index < t.vars.size) :
    ∃! p : FrameId × ℕ, t.slotAt p.1 p.2 = some v := by
  have hs := Array.getElem?_eq_getElem hv
  refine ⟨(t.vars[v.index].frame, t.vars[v.index].offset), ht.slotAt_iff.mpr ⟨_, hs, rfl, rfl⟩, ?_⟩
  rintro ⟨f, i⟩ hp
  obtain ⟨s, hs', rfl, rfl⟩ := ht.slotAt_iff.mp hp
  rw [hs] at hs'
  cases hs'
  rfl

/-! ## One operation -/

/-- **Where one frame is revised the others stay in order**; it is enough to look at the revised one. -/
theorem Partitioned.revised (ht : t.Partitioned) {old new : Frame} (hrev : t.Revises f old new t')
    (hg : t.Grows t') (hseated : t'.Seated) (hinc : new.slots.toList.Pairwise (·.index < ·.index))
    (hlayout : ∀ tys, new.layout = some tys → ∃ vs, vs <+: new.slots.toList ∧
      List.Forall₂ (fun (v : VarId) ty => ∃ s, t'.vars[v.index]? = some s ∧ s.ty = ty) vs tys) :
    t'.Partitioned where
  slotAt_iff _ _ _ := hseated.slotAt_iff
  level_eq _ _ _ := hseated.level_eq
  increasing g gr hgr := by
    rcases hrev.frame_before hgr with ⟨-, rfl⟩ | hgr'
    · exact hinc
    · exact ht.increasing g gr hgr'
  layout g gr tys hgr htys := by
    rcases hrev.frame_before hgr with ⟨-, rfl⟩ | hgr'
    · exact hlayout tys htys
    · obtain ⟨vs, hvs, hall⟩ := ht.layout g gr tys hgr' htys
      exact ⟨vs, hvs, hg.forall₂_ty hall⟩

theorem Partitioned.newFrame (ht : t.Partitioned) (name : String) (level : ℕ) (parent : Option FrameId) :
    (t.newFrame name level parent).2.Partitioned := by
  have hseated := ht.seated.newFrame name level parent
  have hframe {g : FrameId} {gr : Frame}
      (hgr : (t.newFrame name level parent).2.frames[g.index]? = some gr) :
      gr = { name, level, parent } ∨ t.frames[g.index]? = some gr := by
    rw [FrameTable.newFrame, Array.getElem?_push] at hgr
    split at hgr
    · exact .inl (Option.some.inj hgr).symm
    · exact .inr hgr
  refine ⟨fun _ _ _ => hseated.slotAt_iff, fun _ _ _ => hseated.level_eq, fun g gr hgr => ?_,
    fun g gr tys hgr htys => ?_⟩
  · rcases hframe hgr with rfl | hgr'
    · exact .nil
    · exact ht.increasing g gr hgr'
  · rcases hframe hgr with rfl | hgr'
    · cases htys
    · exact ht.layout g gr tys hgr' htys

theorem Partitioned.alloc (ht : t.Partitioned) (hf : f.index < t.frames.size) (name : String)
    (ty : Option Ty) (kind : SlotKind) :
    ∃ t', t.alloc f name ty kind = .ok (⟨t.vars.size⟩, t') ∧ t.Grows t' ∧ t'.Partitioned := by
  have howner := Array.getElem?_eq_getElem hf
  obtain ⟨t', halloc, -, -, hrev, hgrows, hseated⟩ := ht.seated.alloc howner name ty kind
  refine ⟨t', halloc, hgrows, ht.revised hrev hgrows hseated ?_ fun tys htys => ?_⟩
  · -- the variables that the frame holds are older than the new one
    rw [Array.toList_push, List.pairwise_append]
    refine ⟨ht.increasing f _ howner, List.pairwise_singleton _ _, fun w hw u hu => ?_⟩
    obtain ⟨k, hk⟩ := Array.mem_iff_getElem?.mp (Array.mem_toList_iff.mp hw)
    obtain ⟨s, hs, -⟩ := ht.seated.held f _ howner k w hk
    rw [List.mem_singleton.mp hu]
    exact (Array.getElem?_eq_some_iff.mp hs).1
  · obtain ⟨vs, hvs, hall⟩ := ht.layout f _ tys howner htys
    rw [Array.toList_push]
    exact ⟨vs, hvs.trans (List.prefix_append _ _), hgrows.forall₂_ty hall⟩

theorem Partitioned.finalize (ht : t.Partitioned) (hf : f.index < t.frames.size) :
    ∃ t', t.finalize f = .ok t' ∧ t.Grows t' ∧ t'.Partitioned ∧
      ∀ fr, t'.frames[f.index]? = some fr → t'.LaidOut fr := by
  have howner := Array.getElem?_eq_getElem hf
  obtain ⟨t', tys, hfinalize, htys, -, -, hrev, hgrows, hseated⟩ := ht.seated.finalize howner
  have hall := hgrows.forall₂_ty (forall₂_of_mapM_var htys)
  have hinc := ht.increasing f _ howner
  refine ⟨t', hfinalize, hgrows, ht.revised hrev hgrows hseated hinc fun _ htys' => ?_, fun fr hfr => ?_⟩
  · cases htys'
    exact ⟨_, List.prefix_rfl, hall⟩
  · rw [hrev.after] at hfr
    cases hfr
    exact ⟨tys, rfl, hall⟩

/-- **One operation** can be done if its frame exists. It moves nothing, and the frames still share the
variables among them. A frame whose layout was just fixed is laid out as a whole. -/
theorem Partitioned.exists_apply (ht : t.Partitioned) {o : Op} (ho : t.Admits o) :
    ∃ t', t.apply o = .ok t' ∧ t.Grows t' ∧ t'.Partitioned ∧
      ∀ f fr, o = .finalize f → t'.frames[f.index]? = some fr → t'.LaidOut fr := by
  cases o with
  | newFrame name level parent =>
    exact ⟨_, rfl, grows_newFrame t name level parent, ht.newFrame name level parent, nofun⟩
  | alloc f name ty kind =>
    obtain ⟨t', halloc, hgrows, ht'⟩ := ht.alloc ho name ty kind
    exact ⟨t', by rw [apply, halloc]; rfl, hgrows, ht', nofun⟩
  | addFunction p =>
    exact ⟨_, rfl, grows_addFunction t p, ⟨ht.slotAt_iff, ht.level_eq, ht.increasing, ht.layout⟩, nofun⟩
  | finalize f =>
    obtain ⟨t', hfinalize, hgrows, ht', hlaid⟩ := ht.finalize ho
    refine ⟨t', hfinalize, hgrows, ht', fun g fr hg hfr => ?_⟩
    cases hg
    exact hlaid fr hfr

/-! ## All operations -/

/-- **From a table in order operations lead to one in order**, and move nothing. -/
theorem Partitioned.exists_foldlM (ht : t.Partitioned) {ops : List Op} (h : Permitted apply Admits t ops) :
    ∃ t', ops.foldlM apply t = .ok t' ∧ t'.Partitioned ∧ t.Grows t' := by
  have hcons : ∀ (t : FrameTable) o, t.Partitioned → t.Admits o → ∃ t', t.apply o = .ok t' ∧
      t'.Partitioned ∧ ∀ (_ : List Op) t'', t'.Grows t'' → t.Grows t'' := fun t o ht ho =>
    let ⟨t', ht', hgrows, hpart, _⟩ := ht.exists_apply ho
    ⟨t', ht', hpart, fun _ _ => hgrows.trans⟩
  exact h.exists_foldlM (fun t _ => Grows.refl t) hcons ht

/-- **Every sequence of operations on existing frames can be done, and the frames share the variables
among them**: each variable stands in one frame at one position. From then on nothing is moved, whatever is
done next, and a frame whose layout is fixed is laid out as a whole. -/
theorem exists_partitioned (ops : List Op) (h : Permitted apply Admits {} ops) :
    ∃ t, ops.foldlM apply {} = .ok t ∧ t.Partitioned ∧
      (∀ v : VarId, v.index < t.vars.size → ∃! p : FrameId × ℕ, t.slotAt p.1 p.2 = some v) ∧
      ∀ o, t.Admits o → ∃ t', t.apply o = .ok t' ∧ t.Grows t' ∧
        ∀ f fr, o = .finalize f → t'.frames[f.index]? = some fr → t'.LaidOut fr := by
  obtain ⟨t, ht, hpart, -⟩ := Partitioned.empty.exists_foldlM h
  refine ⟨t, ht, hpart, fun v hv => hpart.seated.existsUnique hv, fun o ho => ?_⟩
  obtain ⟨t', ht', hgrows, -, hlaid⟩ := hpart.exists_apply ho
  exact ⟨t', ht', hgrows, hlaid⟩

/-- Two frames that are filled in turn; the first is laid out before its last slot comes. -/
def interleaved : List Op := [
  .newFrame "main" 0 none, .newFrame "fFrame" 1 (some ⟨0⟩), .alloc ⟨0⟩ "a" (some .int) .letBound,
  .alloc ⟨1⟩ "staticLink" (some (.frame ⟨0⟩)) .staticLink, .alloc ⟨0⟩ "b" none .letBound, .finalize ⟨0⟩,
  .alloc ⟨0⟩ "c" (some .string) .loopCounter, .alloc ⟨1⟩ "n" (some .int) .param]

theorem interleaved_partitioned : Permitted apply Admits {} interleaved ∧
    ∃ t, interleaved.foldlM apply {} = .ok t ∧ t.Partitioned ∧
      (∃! p : FrameId × ℕ, t.slotAt p.1 p.2 = some ⟨3⟩) ∧ t.slotAt ⟨0⟩ 2 = some ⟨3⟩ ∧
      (t.frames[0]?.bind (·.layout)) = some [some .int, none] := by
  have hpermitted : Permitted apply Admits {} interleaved := by decide
  obtain ⟨t, ht, hpart, hunique, -⟩ := exists_partitioned interleaved hpermitted
  have hrun : interleaved.foldlM apply {} = .ok t := ht
  simp only [interleaved] at ht
  cases ht
  exact ⟨hpermitted, _, hrun, hpart, hunique ⟨3⟩ (by decide), by decide, by decide⟩

end FrameTable

end TigerCheck
