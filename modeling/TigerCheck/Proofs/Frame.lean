import TigerCheck.Frame

/-!
# Frames and the way to a variable

Every slot stands in its frame at its offset, every frame is one level above its parent, and tables only
grow. So from code in some frame a variable of an enclosing frame is reached by following as many
parents as there are levels in between.

* `FrameTable.Grows`: nothing in the table is moved or lost.
* `FrameTable.Seated`, `FrameTable.Linked`: slots stand in their frames, and parents are one level below.
* `FrameTable.climb`, `FrameTable.Encloses`: following parents, with and without their number.
* `FrameTable.alloc_eq`, `FrameTable.finalize_spec`: what the operations do.
* `FrameTable.Seated.alloc`, `FrameTable.Seated.newFrame`, …: what the operations do to slots.
* **`FrameTable.Linked.alloc`**, **`FrameTable.Linked.newFrame`**, …: the operations keep a table linked.
* **`FrameTable.Linked.access`**: the way to a variable of an enclosing frame.
-/

namespace TigerCheck

namespace FrameTable

variable {t t' t'' : FrameTable} {f g : FrameId} {v : VarId}

/-- Nothing is moved or lost: slots and functions stay, and frames keep their level, their parent and
the slots they have. -/
structure Grows (t t' : FrameTable) : Prop where
  slot : ∀ (v : VarId) s, t.vars[v.index]? = some s → t'.vars[v.index]? = some s
  function : ∀ (id : FunctionId) p, t.functions[id.index]? = some p →
    t'.functions[id.index]? = some p
  frame : ∀ (f : FrameId) fr, t.frames[f.index]? = some fr → ∃ fr',
    t'.frames[f.index]? = some fr' ∧ fr'.level = fr.level ∧ fr'.parent = fr.parent ∧
    ∀ (k : Nat) v, fr.slots[k]? = some v → fr'.slots[k]? = some v

theorem Grows.refl (t : FrameTable) : t.Grows t :=
  ⟨fun _ _ h => h, fun _ _ h => h, fun _ fr h => ⟨fr, h, rfl, rfl, fun _ _ h => h⟩⟩

theorem Grows.vars_le (h : t.Grows t') : t.vars.size ≤ t'.vars.size := by
  refine Nat.le_of_not_lt fun hlt => ?_
  have hs := h.slot ⟨t'.vars.size⟩ _ (Array.getElem?_eq_getElem hlt)
  rw [Array.getElem?_eq_none (Nat.le_refl _)] at hs
  cases hs

theorem Grows.trans (h : t.Grows t') (h' : t'.Grows t'') : t.Grows t'' where
  slot v s hs := h'.slot v s (h.slot v s hs)
  function id p hp := h'.function id p (h.function id p hp)
  frame f fr hfr := by
    obtain ⟨fr₁, hfr₁, hl, hp, hs⟩ := h.frame f fr hfr
    obtain ⟨fr₂, hfr₂, hl', hp', hs'⟩ := h'.frame f fr₁ hfr₁
    exact ⟨fr₂, hfr₂, hl'.trans hl, hp'.trans hp, fun k v hk => hs' k v (hs k v hk)⟩

/-- Slots stand in their frames at their offsets, with the level of the frame; a parent is one level
below; frames hold slots of the table, each at its offset. -/
structure Linked (t : FrameTable) : Prop where
  slot : ∀ (v : VarId) s, t.vars[v.index]? = some s → ∃ fr, t.frames[s.frame.index]? = some fr ∧
    fr.level = s.level ∧ fr.slots[s.offset]? = some v
  parent : ∀ (f p : FrameId) fr, t.frames[f.index]? = some fr → fr.parent = some p →
    ∃ fr', t.frames[p.index]? = some fr' ∧ fr.level = fr'.level + 1
  held : ∀ (f : FrameId) fr, t.frames[f.index]? = some fr → ∀ (k : Nat) (v : VarId),
    fr.slots[k]? = some v → ∃ s, t.vars[v.index]? = some s ∧ s.frame = f ∧ s.offset = k

/-- Slots and frames agree: what is left of a linked table without its parents. -/
structure Seated (t : FrameTable) : Prop where
  slot : ∀ (v : VarId) s, t.vars[v.index]? = some s → ∃ fr, t.frames[s.frame.index]? = some fr ∧
    fr.level = s.level ∧ fr.slots[s.offset]? = some v
  held : ∀ (f : FrameId) fr, t.frames[f.index]? = some fr → ∀ (k : Nat) (v : VarId),
    fr.slots[k]? = some v → ∃ s, t.vars[v.index]? = some s ∧ s.frame = f ∧ s.offset = k

theorem Linked.seated (ht : t.Linked) : t.Seated := ⟨ht.slot, ht.held⟩

/-- The frame that is reached by following so many parents. -/
def climb (t : FrameTable) : Nat → FrameId → Option FrameId
  | 0, f => some f
  | n + 1, f => do
    let fr ← t.frames[f.index]?
    let p ← fr.parent
    t.climb n p

/-- A frame is reached from another by following parents. -/
inductive Encloses (t : FrameTable) (f : FrameId) : FrameId → Prop where
  | self : Encloses t f f
  | parent {g p : FrameId} {fr : Frame} : t.frames[g.index]? = some fr → fr.parent = some p →
      Encloses t f p → Encloses t f g

theorem climb_succ {n : Nat} {p : FrameId} {fr : Frame} (hg : t.frames[g.index]? = some fr)
    (hp : fr.parent = some p) : t.climb (n + 1) g = t.climb n p := by
  rw [climb, hg, Option.bind_eq_bind, Option.bind_some, hp]
  rfl

theorem Encloses.grows (h : t.Encloses f g) (hg : t.Grows t') : t'.Encloses f g := by
  induction h with
  | self => exact .self
  | parent hfr hp _ ih =>
    obtain ⟨fr', hfr', -, hp', -⟩ := hg.frame _ _ hfr
    exact .parent hfr' (hp'.trans hp) ih

/-- **As many parents are followed as there are levels in between.** -/
theorem Encloses.climb (ht : t.Linked) (h : t.Encloses f g) :
    ∀ {fr gr : Frame}, t.frames[f.index]? = some fr → t.frames[g.index]? = some gr →
      fr.level ≤ gr.level ∧ t.climb (gr.level - fr.level) g = some f := by
  induction h with
  | self =>
    intro fr gr hf hg
    rw [hf] at hg
    cases hg
    exact ⟨Nat.le_refl _, by rw [Nat.sub_self]; rfl⟩
  | @parent g p gr hgr hp _ ih =>
    intro fr gr' hf hg
    rw [hgr] at hg
    cases hg
    obtain ⟨pr, hpr, hlevel⟩ := ht.parent _ _ _ hgr hp
    obtain ⟨hle, hclimb⟩ := ih hf hpr
    have hsub : gr.level - fr.level = pr.level - fr.level + 1 := by omega
    exact ⟨by omega, by rw [hsub, climb_succ hgr hp, hclimb]⟩

/-- **The way to a variable of an enclosing frame**: from the code's frame the links lead to the
variable's frame, where the variable stands at its offset. -/
theorem Linked.access (ht : t.Linked) {s : Slot} {gr : Frame} (hv : t.vars[v.index]? = some s)
    (henc : t.Encloses s.frame g) (hg : t.frames[g.index]? = some gr) :
    ∃ a fr, t.access v gr.level = .ok a ∧ s.level ≤ gr.level ∧ t.climb a.hops g = some s.frame ∧
      t.frames[s.frame.index]? = some fr ∧ fr.slots[a.offset]? = some v := by
  obtain ⟨fr, hfr, hlevel, hoff⟩ := ht.slot _ _ hv
  obtain ⟨hle, hclimb⟩ := henc.climb ht hfr hg
  rw [hlevel] at hle hclimb
  refine ⟨⟨gr.level - s.level, s.offset⟩, fr, ?_, hle, hclimb, hfr, hoff⟩
  rw [FrameTable.access, var, entry_eq_ok_iff.mpr hv]
  show (if s.level ≤ gr.level then _ else _) = _
  rw [if_pos hle]
  rfl

/-! ## The operations -/

/-- **What appending a slot does**, where it can be done. -/
theorem alloc_eq {name : String} {ty : Option Ty} {kind : SlotKind}
    (h : t.alloc f name ty kind = .ok (v, t')) :
    ∃ hlt : f.index < t.frames.size, v = ⟨t.vars.size⟩ ∧ t' = { t with
      vars := t.vars.push ⟨name, ty, t.frames[f.index].level, t.frames[f.index].slots.size, f, kind⟩
      frames := t.frames.set f.index
        { t.frames[f.index] with slots := t.frames[f.index].slots.push ⟨t.vars.size⟩ } } := by
  unfold FrameTable.alloc at h
  split at h
  · rename_i hlt
    cases h
    exact ⟨hlt, rfl, rfl⟩
  · cases h

/-- **What fixing a layout does**, where it can be done. -/
theorem finalize_spec (h : t.finalize f = .ok t') : ∃ (hlt : f.index < t.frames.size) (layout : _),
    t.frames[f.index].slots.toList.mapM (fun v => (·.ty) <$> t.var v) = .ok layout ∧
      t' = { t with frames := t.frames.set f.index { t.frames[f.index] with layout := some layout } } := by
  unfold FrameTable.finalize at h
  split at h
  · rename_i hlt
    dsimp only at h
    cases hlayout : t.frames[f.index].slots.toList.mapM (fun v => (·.ty) <$> t.var v) with
    | error e =>
      rw [hlayout] at h
      cases h
    | ok layout =>
      rw [hlayout] at h
      cases h
      exact ⟨hlt, layout, hlayout, rfl⟩
  · cases h

theorem grows_addFunction (t : FrameTable) (p : Prototype) : t.Grows (t.addFunction p).2 where
  slot _ _ h := h
  function i q h := by
    have hlt := (Array.getElem?_eq_some_iff.mp h).1
    rw [addFunction, Array.getElem?_push, if_neg (Nat.ne_of_lt hlt), h]
  frame _ fr h := ⟨fr, h, rfl, rfl, fun _ _ h => h⟩

theorem Linked.addFunction (ht : t.Linked) (p : Prototype) : (t.addFunction p).2.Linked :=
  ⟨ht.slot, ht.parent, ht.held⟩

theorem grows_newFrame (t : FrameTable) (name : String) (level : Nat) (parent : Option FrameId) :
    t.Grows (t.newFrame name level parent).2 where
  slot _ _ h := h
  function _ _ h := h
  frame f fr h := by
    have hlt := (Array.getElem?_eq_some_iff.mp h).1
    refine ⟨fr, ?_, rfl, rfl, fun _ _ h => h⟩
    rw [newFrame, Array.getElem?_push, if_neg (Nat.ne_of_lt hlt), h]

theorem frame_newFrame (t : FrameTable) (name : String) (level : Nat) (parent : Option FrameId) :
    (t.newFrame name level parent).2.frames[(t.newFrame name level parent).1.index]? =
      some { name, level, parent } := by
  simp [newFrame]

theorem Seated.newFrame (ht : t.Seated) (name : String) (level : Nat) (parent : Option FrameId) :
    (t.newFrame name level parent).2.Seated := by
  refine ⟨fun v s hs => ?_, fun g gr hgr k v hv => ?_⟩
  · obtain ⟨fr', hfr', hl, ho⟩ := ht.slot v s hs
    obtain ⟨fr'', hfr'', hl', -, ho'⟩ := (grows_newFrame t name level parent).frame _ _ hfr'
    exact ⟨fr'', hfr'', hl'.trans hl, ho' _ _ ho⟩
  · simp only [FrameTable.newFrame, Array.getElem?_push] at hgr
    split at hgr
    · cases hgr
      simp at hv
    · exact ht.held g gr hgr k v hv

theorem Linked.newFrame (ht : t.Linked) (name : String) {fr : Frame}
    (hf : t.frames[f.index]? = some fr) :
    (t.newFrame name (fr.level + 1) (some f)).2.Linked := by
  have hgrows := grows_newFrame t name (fr.level + 1) (some f)
  have hseated := ht.seated.newFrame name (fr.level + 1) (some f)
  refine ⟨hseated.slot, fun g p gr hgr hp => ?_, hseated.held⟩
  simp only [FrameTable.newFrame, Array.getElem?_push] at hgr
  split at hgr
  · cases hgr
    cases hp
    obtain ⟨fr', hfr', hl, -⟩ := hgrows.frame _ _ hf
    exact ⟨fr', hfr', by rw [hl]⟩
  · obtain ⟨pr, hpr, hlevel⟩ := ht.parent g p gr hgr hp
    obtain ⟨pr', hpr', hl, -⟩ := hgrows.frame _ _ hpr
    exact ⟨pr', hpr', by rw [hlevel, hl]⟩

/-- What a table looks like after a slot was appended to a frame. -/
structure Allocs (t : FrameTable) (f : FrameId) (ty : Option Ty) (v : VarId) (t' : FrameTable) :
    Prop where
  id_eq : v = ⟨t.vars.size⟩
  slot : ∃ s, t'.vars = t.vars.push s ∧ s.ty = ty ∧ s.frame = f
  functions_eq : t'.functions = t.functions
  grows : t.Grows t'
  linked : t'.Linked

theorem Allocs.slot_self {ty : Option Ty} (h : t.Allocs f ty v t') :
    ∃ s, t'.vars[v.index]? = some s ∧ s.ty = ty ∧ s.frame = f := by
  obtain ⟨s, hvars, hty, hf⟩ := h.slot
  exact ⟨s, by rw [hvars, h.id_eq, Array.getElem?_push_size], hty, hf⟩

/-- Every other slot was there before. -/
theorem Allocs.slot_or {ty : Option Ty} {w : VarId} {s : Slot} (h : t.Allocs f ty v t')
    (hs : t'.vars[w.index]? = some s) : s.ty = ty ∨ t.vars[w.index]? = some s := by
  obtain ⟨s', hvars, hty, -⟩ := h.slot
  rw [hvars, Array.getElem?_push] at hs
  split at hs
  · cases hs
    exact Or.inl hty
  · exact Or.inr hs

/-- One frame of a table is revised: it keeps its level, its parent and its slots. -/
structure Revises (t : FrameTable) (f : FrameId) (old new : Frame) (t' : FrameTable) : Prop where
  before : t.frames[f.index]? = some old
  after : t'.frames[f.index]? = some new
  others : ∀ g : FrameId, g ≠ f → t'.frames[g.index]? = t.frames[g.index]?
  level_eq : new.level = old.level
  parent_eq : new.parent = old.parent
  keeps : ∀ (k : Nat) v, old.slots[k]? = some v → new.slots[k]? = some v

theorem revises_set {old new : Frame} (hf : t.frames[f.index]? = some old)
    (hlt : f.index < t.frames.size) (hframes : t'.frames = t.frames.set f.index new)
    (hlevel : new.level = old.level) (hparent : new.parent = old.parent)
    (hkeeps : ∀ (k : Nat) v, old.slots[k]? = some v → new.slots[k]? = some v) :
    t.Revises f old new t' where
  before := hf
  after := by rw [hframes, Array.getElem?_set_self]
  others g hg := by
    have hne : f.index ≠ g.index := fun h => hg (by cases f; cases g; simp_all)
    rw [hframes, Array.getElem?_set_ne _ hne]
  level_eq := hlevel
  parent_eq := hparent
  keeps := hkeeps

theorem Revises.frame {old new gr : Frame} (h : t.Revises f old new t')
    (hg : t.frames[g.index]? = some gr) : ∃ gr', t'.frames[g.index]? = some gr' ∧
      gr'.level = gr.level ∧ gr'.parent = gr.parent ∧
      ∀ (k : Nat) v, gr.slots[k]? = some v → gr'.slots[k]? = some v := by
  by_cases hgf : g = f
  · subst hgf
    rw [h.before] at hg
    cases hg
    exact ⟨new, h.after, h.level_eq, h.parent_eq, h.keeps⟩
  · exact ⟨gr, (h.others g hgf).trans hg, rfl, rfl, fun _ _ hk => hk⟩

theorem Revises.frame_before {old new gr : Frame} (h : t.Revises f old new t')
    (hg : t'.frames[g.index]? = some gr) :
    (g = f ∧ gr = new) ∨ t.frames[g.index]? = some gr := by
  by_cases hgf : g = f
  · subst hgf
    rw [h.after] at hg
    cases hg
    exact Or.inl ⟨rfl, rfl⟩
  · exact Or.inr ((h.others g hgf).symm.trans hg)

/-- Revising a frame keeps the parents one level below. -/
theorem Revises.parent {old new gr : Frame} {p : FrameId} (h : t.Revises f old new t')
    (ht : t.Linked) (hg : t'.frames[g.index]? = some gr) (hp : gr.parent = some p) :
    ∃ pr, t'.frames[p.index]? = some pr ∧ gr.level = pr.level + 1 := by
  rcases h.frame_before hg with ⟨rfl, rfl⟩ | hg'
  · obtain ⟨pr, hpr, hlevel⟩ := ht.parent g p old h.before (h.parent_eq ▸ hp)
    obtain ⟨pr', hpr', hl, -⟩ := h.frame hpr
    exact ⟨pr', hpr', by rw [h.level_eq, hlevel, hl]⟩
  · obtain ⟨pr, hpr, hlevel⟩ := ht.parent g p gr hg' hp
    obtain ⟨pr', hpr', hl, -⟩ := h.frame hpr
    exact ⟨pr', hpr', by rw [hlevel, hl]⟩

/-- A frame that is revised without a new slot keeps the slots in their seats. -/
theorem Revises.seated {old new : Frame} (h : t.Revises f old new t') (ht : t.Seated)
    (hvars : t'.vars = t.vars) (hslots : new.slots = old.slots) : t'.Seated := by
  refine ⟨fun v s hs => ?_, fun g gr hgr k v hv => ?_⟩
  · obtain ⟨fr, hfr, hl, ho⟩ := ht.slot v s (hvars ▸ hs)
    obtain ⟨fr', hfr', hl', -, ho'⟩ := h.frame hfr
    exact ⟨fr', hfr', hl'.trans hl, ho' _ _ ho⟩
  · rw [hvars]
    rcases h.frame_before hgr with ⟨rfl, rfl⟩ | hgr'
    · exact ht.held g old h.before k v (hslots ▸ hv)
    · exact ht.held g gr hgr' k v hv

/-- **A slot can be appended to every frame of the table**, and takes its seat behind the others. -/
theorem Seated.alloc (ht : t.Seated) {owner : Frame} (hf : t.frames[f.index]? = some owner)
    (name : String) (ty : Option Ty) (kind : SlotKind) :
    ∃ t', t.alloc f name ty kind = .ok (⟨t.vars.size⟩, t') ∧
      t'.vars = t.vars.push ⟨name, ty, owner.level, owner.slots.size, f, kind⟩ ∧
      t'.functions = t.functions ∧
      t.Revises f owner { owner with slots := owner.slots.push ⟨t.vars.size⟩ } t' ∧
      t.Grows t' ∧ t'.Seated := by
  obtain ⟨hlt, howner⟩ := Array.getElem?_eq_some_iff.mp hf
  let slot : Slot := ⟨name, ty, owner.level, owner.slots.size, f, kind⟩
  let new : Frame := { owner with slots := owner.slots.push ⟨t.vars.size⟩ }
  let t' : FrameTable := { t with vars := t.vars.push slot, frames := t.frames.set f.index new }
  have hrev : t.Revises f owner new t' := by
    refine revises_set hf hlt rfl rfl rfl fun k v hk => ?_
    have hlt' := (Array.getElem?_eq_some_iff.mp hk).1
    exact (Array.getElem?_push.trans (if_neg (Nat.ne_of_lt hlt'))).trans hk
  have hgrows : t.Grows t' := by
    refine ⟨fun v s hs => ?_, fun _ _ h => h, fun g gr hgr => hrev.frame hgr⟩
    have hlt' := (Array.getElem?_eq_some_iff.mp hs).1
    exact (Array.getElem?_push.trans (if_neg (Nat.ne_of_lt hlt'))).trans hs
  refine ⟨t', ?_, rfl, rfl, hrev, hgrows, ?_, ?_⟩
  · rw [FrameTable.alloc, dif_pos hlt, howner]
  · intro v s hs
    rcases Nat.eq_or_lt_of_le (Nat.le_of_lt_succ
      (Array.size_push _ ▸ (Array.getElem?_eq_some_iff.mp hs).1)) with hv | hv
    · -- the slot that was appended, at the end of its frame
      have hself : s = slot := by
        rw [hv] at hs
        exact (Option.some.inj (Array.getElem?_push_size.symm.trans hs)).symm
      subst hself
      refine ⟨new, hrev.after, rfl, ?_⟩
      have hid : v = ⟨t.vars.size⟩ := by cases v; simp_all
      rw [hid]
      exact Array.getElem?_push_size
    · have hold : t.vars[v.index]? = some s :=
        (Array.getElem?_push.trans (if_neg (Nat.ne_of_lt hv))).symm.trans hs
      obtain ⟨fr, hfr, hl, ho⟩ := ht.slot v s hold
      obtain ⟨fr', hfr', hl', -, ho'⟩ := hrev.frame hfr
      exact ⟨fr', hfr', hl'.trans hl, ho' _ _ ho⟩
  · intro g gr hgr k v hv
    have hkept : ∀ (g : FrameId), (∃ s, t.vars[v.index]? = some s ∧ s.frame = g ∧ s.offset = k) →
        ∃ s, t'.vars[v.index]? = some s ∧ s.frame = g ∧ s.offset = k := fun g h =>
      h.imp fun s hs => ⟨hgrows.slot v s hs.1, hs.2⟩
    rcases hrev.frame_before hgr with ⟨rfl, rfl⟩ | hgr'
    · rw [Array.getElem?_push] at hv
      split at hv
      · cases hv
        exact ⟨slot, Array.getElem?_push_size, rfl, (by assumption : k = _).symm⟩
      · exact hkept g (ht.held g owner hf k v hv)
    · exact hkept g (ht.held g gr hgr' k v hv)

/-- **A linked table stays linked when a slot is appended.** -/
theorem Linked.alloc (ht : t.Linked) {owner : Frame} (hf : t.frames[f.index]? = some owner)
    (name : String) (ty : Option Ty) (kind : SlotKind) :
    ∃ v t', t.alloc f name ty kind = .ok (v, t') ∧ t.Allocs f ty v t' := by
  obtain ⟨t', halloc, hvars, hfunctions, hrev, hgrows, hseated⟩ := ht.seated.alloc hf name ty kind
  exact ⟨_, t', halloc, rfl, ⟨_, hvars, rfl, rfl⟩, hfunctions, hgrows,
    hseated.slot, fun g p gr hgr hp => hrev.parent ht hgr hp, hseated.held⟩

theorem mapM_var_ok {vs : List VarId} (h : ∀ v ∈ vs, v.index < t.vars.size) :
    ∃ tys, vs.mapM (fun v => (·.ty) <$> t.var v) = .ok tys := by
  induction vs with
  | nil => exact ⟨[], rfl⟩
  | cons v vs ih =>
    obtain ⟨tys, htys⟩ := ih fun w hw => h w (List.mem_cons_of_mem _ hw)
    have hv := h v List.mem_cons_self
    refine ⟨t.vars[v.index].ty :: tys, ?_⟩
    rw [List.mapM_cons, htys, var, entry_of_lt hv]
    rfl

/-- **The layout of every frame of the table can be fixed**: it lists the types of the slots. -/
theorem Seated.finalize (ht : t.Seated) {owner : Frame} (hf : t.frames[f.index]? = some owner) :
    ∃ t' tys, t.finalize f = .ok t' ∧ owner.slots.toList.mapM (fun v => (·.ty) <$> t.var v) = .ok tys ∧
      t'.vars = t.vars ∧ t'.functions = t.functions ∧
      t.Revises f owner { owner with layout := some tys } t' ∧ t.Grows t' ∧ t'.Seated := by
  obtain ⟨hlt, howner⟩ := Array.getElem?_eq_some_iff.mp hf
  have hheld : ∀ v ∈ owner.slots.toList, v.index < t.vars.size := by
    intro v hv
    obtain ⟨k, hk⟩ := Array.mem_iff_getElem?.mp (Array.mem_toList_iff.mp hv)
    obtain ⟨s, hs, -⟩ := ht.held f owner hf k v hk
    exact (Array.getElem?_eq_some_iff.mp hs).1
  obtain ⟨tys, htys⟩ := mapM_var_ok hheld
  let new : Frame := { owner with layout := some tys }
  let t' : FrameTable := { t with frames := t.frames.set f.index new }
  have hrev : t.Revises f owner new t' := revises_set hf hlt rfl rfl rfl fun _ _ hk => hk
  refine ⟨t', tys, ?_, htys, rfl, rfl, hrev,
    ⟨fun _ _ h => h, fun _ _ h => h, fun g gr hgr => hrev.frame hgr⟩, hrev.seated ht rfl rfl⟩
  rw [FrameTable.finalize, dif_pos hlt, howner]
  dsimp only
  rw [htys]
  rfl

/-- **A linked table stays linked when a layout is fixed.** -/
theorem Linked.finalize (ht : t.Linked) {owner : Frame} (hf : t.frames[f.index]? = some owner) :
    ∃ t', t.finalize f = .ok t' ∧ t'.vars = t.vars ∧ t'.functions = t.functions ∧ t.Grows t' ∧
      t'.Linked := by
  obtain ⟨t', tys, hfinalize, -, hvars, hfunctions, hrev, hgrows, hseated⟩ := ht.seated.finalize hf
  exact ⟨t', hfinalize, hvars, hfunctions, hgrows,
    hseated.slot, fun g p gr hgr hp => hrev.parent ht hgr hp, hseated.held⟩

end FrameTable

end TigerCheck
