import TigerCheck.Proofs.Frame
import TigerCheck.Proofs.TypeName.Resolves

/-!
# Which types are where

What a type may be depends on the place where it is kept. A field, an element or a parameter holds a value
that can be stored; a result or a variable may also be no value; an expression may also be `nil`. Only a
static link points to a frame, that around its own, and no name is bound to it.

* `Arena.Stores`, `Arena.Gives`, `Arena.Types`: the types of stored values, of results and variables, and of
  expressions.
* `Slot.Proper`, `Prototype.Proper`, `Checker.Proper`: every type is in a place where it may be.
* `Checker.Widens`: what is there stays. **`Slot.Proper.widen`**, …: then so does what is proper.
* `Check.Upholds`: an action leaves a proper state behind. **`Check.Upholds.bind`**: one action after another.
* **`Checker.Proper.alloc`**, **`Checker.Proper.setFields`**, …: the primitive actions.
-/

namespace TigerCheck

/-! ## Types and places -/

/-- Integers, strings, arrays and records. -/
def Ty.IsStored : Ty → Prop
  | .int | .string | .array _ | .record _ => True
  | .nil | .void | .frame _ => False

namespace Arena

variable {a : Arena} {t : Ty}

/-- The types of values that can be stored: integers, strings, and the records and arrays of the arena. -/
def Stores (a : Arena) (t : Ty) : Prop := t.IsStored ∧ a.Has t

/-- The types of results and variables: those of stored values, and that of no value. -/
def Gives (a : Arena) (t : Ty) : Prop := t = .void ∨ a.Stores t

/-- The types of expressions: those of results, and that of `nil`. -/
def Types (a : Arena) (t : Ty) : Prop := t = .nil ∨ a.Gives t

theorem Stores.gives (h : a.Stores t) : a.Gives t := Or.inr h

theorem Gives.types (h : a.Gives t) : a.Types t := Or.inr h

theorem Stores.types (h : a.Stores t) : a.Types t := h.gives.types

theorem types_void : a.Types .void := Or.inr (Or.inl rfl)

theorem stores_int : a.Stores .int := ⟨trivial, trivial⟩

theorem not_types_frame (f : FrameId) : ¬ a.Types (.frame f) := by
  rintro (h | h | h)
  · cases h
  · cases h
  · exact h.1

theorem not_gives_nil : ¬ a.Gives .nil := by
  rintro (h | h)
  · cases h
  · exact h.1

end Arena

/-- A slot can be seen: it is not a static link. -/
def FrameTable.Shows (t : FrameTable) (v : VarId) : Prop :=
  ∃ s, t.vars[v.index]? = some s ∧ s.kind ≠ .staticLink

/-- The frame around a frame. -/
def FrameTable.Parent (t : FrameTable) (f p : FrameId) : Prop :=
  ∃ fr, t.frames[f.index]? = some fr ∧ fr.parent = some p

/-- A slot of a kind in a frame has a type that it may have. -/
def SlotKind.Admits (a : Arena) (t : FrameTable) (frame : FrameId) (ty : Option Ty) : SlotKind → Prop
  | .staticLink => ∃ p, t.Parent frame p ∧ ty = some (.frame p)
  | .param => ∀ u ∈ ty, a.Stores u
  | .letBound => ∀ u ∈ ty, a.Gives u
  | .loopCounter => ty = some .int

/-- The type of a slot is one that it may have. -/
def Slot.Proper (a : Arena) (t : FrameTable) (s : Slot) : Prop := s.kind.Admits a t s.frame s.ty

/-- The types in a signature are those that may be there: a function of the program takes the frame around its
own, and then what its callers store. -/
def Prototype.Proper (a : Arena) (t : FrameTable) (p : Prototype) : Prop :=
  ∀ s, p.signature = some s → a.Gives s.result ∧
    match p.origin with
    | .intrinsic _ => ∀ u ∈ s.params, a.Stores u
    | .declared _ frame _ _ => ∃ f us, t.Parent frame f ∧ s.params = .frame f :: us ∧ ∀ u ∈ us, a.Stores u

/-- The type that a declaration stands for so far. -/
def NamedType.ty? : NamedType → Option Ty
  | pending _ handedOut => handedOut
  | resolved t => some t
  | poisoned => none

/-- Something holds of all values in some scopes. -/
def Scopes.All {α : Type} (P : α → Prop) (s : Scopes α) : Prop :=
  ∀ scope ∈ s.innermost :: s.outer, ∀ b ∈ scope, P b.2

/-- **Every type is in a place where it may be**, and no name is bound to a static link. -/
structure Checker.Proper (c : Checker) : Prop where
  names : ∀ id s, c.status id = some s → ∀ u ∈ s.ty?, c.types.Stores u
  entries : ∀ t s, c.types.shape t = some s → ∀ u ∈ s.types, c.types.Stores u
  slots : ∀ (v : VarId) s, c.frames.vars[v.index]? = some s → s.Proper c.types c.frames
  functions : ∀ (f : FunctionId) p, c.frames.functions[f.index]? = some p → p.Proper c.types c.frames
  values : c.values.All c.frames.Shows

/-! ## What stays -/

namespace Scopes

variable {α : Type} {P Q : α → Prop} {s s' : Scopes α}

theorem All.mono (h : s.All P) (hPQ : ∀ v, P v → Q v) : s.All Q := fun scope hs b hb => hPQ _ (h scope hs b hb)

theorem all_empty : Scopes.All P Scopes.empty := by
  intro scope hs b hb
  rw [show scope = [] from List.mem_singleton.mp hs] at hb
  exact absurd hb List.not_mem_nil

theorem All.enter (h : s.All P) : s.enter.All P :=
  List.forall_mem_cons.mpr ⟨fun _ hb => absurd hb List.not_mem_nil, h⟩

theorem All.exit (h : s.All P) (hs : s.exit = .ok s') : s'.All P := by
  unfold Scopes.exit at hs
  split at hs
  · cases hs
  · next scope rest hrest =>
    cases hs
    intro sc hsc
    exact h sc (List.mem_cons_of_mem _ (hrest ▸ hsc))

theorem All.bind (h : s.All P) (name : String) {v : α} (hv : P v) : (s.bind name v).All P := by
  obtain ⟨hin, hout⟩ := List.forall_mem_cons.mp h
  exact List.forall_mem_cons.mpr ⟨List.forall_mem_cons.mpr ⟨hv, hin⟩, hout⟩

theorem All.of_lookup (h : s.All P) {name : String} {v : α} (hv : s.lookup name = some v) : P v := by
  obtain ⟨scope, hscope, hl⟩ := List.exists_of_findSome?_eq_some hv
  obtain ⟨l₁, l₂, rfl, -⟩ := List.lookup_eq_some_iff.mp hl
  exact h _ hscope (name, v) (by simp)

end Scopes

namespace Checker

variable {c c' c'' : Checker}

/-- What is there stays: types, slots and the frames around frames. -/
structure Widens (c c' : Checker) : Prop where
  stores : ∀ t, c.types.Stores t → c'.types.Stores t
  slot : ∀ (v : VarId) s, c.frames.vars[v.index]? = some s → c'.frames.vars[v.index]? = some s
  parent : ∀ f p, c.frames.Parent f p → c'.frames.Parent f p

theorem Widens.refl (c : Checker) : c.Widens c := ⟨fun _ h => h, fun _ _ h => h, fun _ _ h => h⟩

theorem Widens.trans (h : c.Widens c') (h' : c'.Widens c'') : c.Widens c'' where
  stores t ht := h'.stores t (h.stores t ht)
  slot v s hs := h'.slot v s (h.slot v s hs)
  parent f p hp := h'.parent f p (h.parent f p hp)

theorem Widens.gives (h : c.Widens c') {t : Ty} (ht : c.types.Gives t) : c'.types.Gives t :=
  ht.imp_right (h.stores t)

theorem Widens.types (h : c.Widens c') {t : Ty} (ht : c.types.Types t) : c'.types.Types t :=
  ht.imp_right h.gives

theorem Widens.shows (h : c.Widens c') {v : VarId} (hv : c.frames.Shows v) : c'.frames.Shows v :=
  hv.imp fun s hs => ⟨h.slot v s hs.1, hs.2⟩

end Checker

theorem SlotKind.Admits.widen {c c' : Checker} (hw : c.Widens c') {frame : FrameId} {ty : Option Ty}
    {kind : SlotKind} (h : kind.Admits c.types c.frames frame ty) :
    kind.Admits c'.types c'.frames frame ty := by
  cases kind with
  | staticLink => exact h.imp fun p hp => ⟨hw.parent _ _ hp.1, hp.2⟩
  | param => exact fun u hu => hw.stores u (h u hu)
  | letBound => exact fun u hu => hw.gives (h u hu)
  | loopCounter => exact h

theorem Slot.Proper.widen {c c' : Checker} (hw : c.Widens c') {s : Slot} (h : s.Proper c.types c.frames) :
    s.Proper c'.types c'.frames := SlotKind.Admits.widen hw h

theorem Prototype.Proper.widen {c c' : Checker} (hw : c.Widens c') {p : Prototype}
    (h : p.Proper c.types c.frames) : p.Proper c'.types c'.frames := by
  intro s hs
  obtain ⟨hresult, hparams⟩ := h s hs
  refine ⟨hw.gives hresult, ?_⟩
  obtain ⟨_, _, origin⟩ := p
  cases origin with
  | intrinsic => exact fun u hu => hw.stores u (hparams u hu)
  | declared =>
    obtain ⟨f, us, hf, heq, hus⟩ := hparams
    exact ⟨f, us, hw.parent _ _ hf, heq, fun u hu => hw.stores u (hus u hu)⟩

/-! ## Actions -/

namespace Check

variable {α β : Type} {c : Checker} {m : Check α} {f : α → Check β} {P : α → Checker → Prop}
  {Q : β → Checker → Prop}

/-- Wherever the action ends, it leaves a proper state, in which everything is that was there before, and
an answer of which something holds. -/
def Upholds (m : Check α) (c : Checker) (P : α → Checker → Prop) : Prop :=
  ∀ a c', m.run c = .ok (a, c') → c'.Proper ∧ c.Widens c' ∧ P a c'

namespace Upholds

/-- **One action after another.** -/
theorem bind (hm : Upholds m c P)
    (hf : ∀ a c₁, c₁.Proper → c.Widens c₁ → P a c₁ → Upholds (f a) c₁ Q) : Upholds (m >>= f) c Q := by
  intro b c' h
  obtain ⟨a, c₁, h₁, h₂⟩ := exists_of_run_bind h
  obtain ⟨hc₁, hw₁, ha⟩ := hm a c₁ h₁
  obtain ⟨hc', hw', hb⟩ := hf a c₁ hc₁ hw₁ ha b c' h₂
  exact ⟨hc', hw₁.trans hw', hb⟩

theorem pure (hc : c.Proper) {a : α} (ha : P a c) : Upholds (Pure.pure a) c P := by
  intro b c' h
  cases h
  exact ⟨hc, .refl c, ha⟩

theorem mono (h : Upholds m c P) {P' : α → Checker → Prop} (hP : ∀ a c', c.Widens c' → P a c' → P' a c') :
    Upholds m c P' := by
  intro a c' hrun
  obtain ⟨hc', hw, ha⟩ := h a c' hrun
  exact ⟨hc', hw, hP a c' hw ha⟩

theorem map {g : α → β} (hm : Upholds m c P) (hg : ∀ a c', c.Widens c' → P a c' → Q (g a) c') :
    Upholds (g <$> m) c Q := by
  rw [map_eq_pure_bind]
  exact hm.bind fun a c₁ hc₁ hw ha => .pure hc₁ (hg a c₁ hw ha)

theorem throw {e : Breach} : Upholds (MonadExcept.throw e : Check α) c P := by
  intro a c' h
  cases h

theorem get {f : Checker → Check α} (h : Upholds (f c) c P) : Upholds (MonadState.get >>= f) c P := h

/-- An operation on a table keeps the state. -/
theorem lift {x : Except Breach α} (hc : c.Proper) : Upholds (liftM x) c fun a c' => c' = c ∧ x = .ok a := by
  intro a c' h
  cases x with
  | error => cases h
  | ok b =>
    cases h
    exact ⟨hc, .refl c, rfl, rfl⟩

theorem ite {b : Prop} [Decidable b] {m' : Check α} (h : b → Upholds m c P) (h' : ¬ b → Upholds m' c P) :
    Upholds (if b then m else m') c P := by
  split
  · exact h ‹_›
  · exact h' ‹_›

end Upholds

end Check

/-! ## Steps that change the state -/

namespace Checker.Proper

variable {c c' : Checker}

/-- A state is as proper as one with the same tables in which the same variables are bound. -/
theorem congr (hc : c.Proper) (c' : Checker) (hnamed : c'.namedTypes = c.namedTypes) (htypes : c'.types = c.types)
    (hframes : c'.frames = c.frames) (hvalues : c'.values = c.values) : c'.Proper ∧ c.Widens c' := by
  obtain ⟨types, frames, diagnostics, values, typeNames, functions, namedTypes, mainFrame, journal⟩ := c'
  cases htypes
  cases hframes
  cases hvalues
  cases hnamed
  exact ⟨⟨hc.names, hc.entries, hc.slots, hc.functions, hc.values⟩, ⟨fun _ h => h, fun _ _ h => h, fun _ _ h => h⟩⟩

/-- Other variables may be bound, if they can be seen. -/
theorem withValues (hc : c.Proper) {values : Scopes VarId} (h : values.All c.frames.Shows) :
    Proper { c with values } ∧ c.Widens { c with values } :=
  ⟨⟨hc.names, hc.entries, hc.slots, hc.functions, h⟩, ⟨fun _ h => h, fun _ _ h => h, fun _ _ h => h⟩⟩

/-- One type may get a shape with types of stored values. -/
theorem withTypes (hc : c.Proper) {t : Ty} {s : Shape} {b : Arena} (hp : c.types.Puts t s b)
    (hs : ∀ u ∈ s.types, c.types.Stores u) : Proper { c with types := b } ∧ c.Widens { c with types := b } := by
  have hw : c.Widens { c with types := b } :=
    ⟨fun u hu => ⟨hu.1, hp.has hu.2⟩, fun _ _ h => h, fun _ _ h => h⟩
  refine ⟨⟨fun id n hn u hu => hw.stores u (hc.names id n hn u hu), fun v s' hv u hu => ?_,
    fun v slot hv => (hc.slots v slot hv).widen hw, fun f p hf => (hc.functions f p hf).widen hw, hc.values⟩, hw⟩
  by_cases hvt : v = t
  · subst hvt
    have hv' : b.shape v = some s' := hv
    rw [hp.shape_eq] at hv'
    cases hv'
    exact hw.stores u (hs u hu)
  · have hv' : b.shape v = some s' := hv
    rw [hp.shape_ne v hvt] at hv'
    exact hw.stores u (hc.entries v s' hv' u hu)

/-- Frames and slots may be added, if the slots are proper, and frames may be completed. -/
theorem withFrames (hc : c.Proper) {frames : FrameTable}
    (hslot : ∀ (v : VarId) s, c.frames.vars[v.index]? = some s → frames.vars[v.index]? = some s)
    (hparent : ∀ f p, c.frames.Parent f p → frames.Parent f p)
    (hnew : ∀ (v : VarId) s, frames.vars[v.index]? = some s →
      c.frames.vars[v.index]? = some s ∨ s.Proper c.types frames)
    (hfunctions : frames.functions = c.frames.functions) :
    Proper { c with frames } ∧ c.Widens { c with frames } := by
  have hw : c.Widens { c with frames } := ⟨fun _ h => h, hslot, hparent⟩
  refine ⟨⟨hc.names, hc.entries, fun v s hv => ?_, fun f p hf => ?_, hc.values.mono fun v => hw.shows⟩, hw⟩
  · rcases hnew v s hv with hold | hnew
    · exact (hc.slots v s hold).widen hw
    · exact hnew
  · have hf' : frames.functions[f.index]? = some p := hf
    rw [hfunctions] at hf'
    exact (hc.functions f p hf').widen hw

end Checker.Proper

/-! ## The primitive actions -/

namespace FrameTable

variable {t t' : FrameTable} {f g p : FrameId}

theorem Grows.parent (h : t.Grows t') (f p : FrameId) (hp : t.Parent f p) : t'.Parent f p := by
  obtain ⟨fr, hfr, hp⟩ := hp
  obtain ⟨fr', hfr', -, hp', -⟩ := h.frame f fr hfr
  exact ⟨fr', hfr', hp'.trans hp⟩

/-- The frames around frames stay while one frame is revised. -/
theorem Revises.parents {old new : Frame} (h : t.Revises g old new t') (f p : FrameId) (hp : t.Parent f p) :
    t'.Parent f p := by
  obtain ⟨fr, hfr, hp⟩ := hp
  obtain ⟨fr', hfr', -, hp', -⟩ := h.frame hfr
  exact ⟨fr', hfr', hp'.trans hp⟩

/-- What is appended is one slot, as it was asked for. -/
theorem exists_of_alloc {name : String} {ty : Option Ty} {kind : SlotKind} {v : VarId}
    (h : t.alloc f name ty kind = .ok (v, t')) :
    ∃ s, v = ⟨t.vars.size⟩ ∧ t'.vars = t.vars.push s ∧ t'.functions = t.functions ∧
      (∀ f p, t.Parent f p → t'.Parent f p) ∧ s.kind = kind ∧ s.ty = ty ∧ s.frame = f := by
  obtain ⟨hlt, rfl, rfl⟩ := alloc_eq h
  refine ⟨_, rfl, rfl, rfl, ?_, rfl, rfl, rfl⟩
  refine Revises.parents (revises_set (Array.getElem?_eq_getElem hlt) hlt rfl rfl rfl fun k v hk => ?_)
  exact (Array.getElem?_push.trans (if_neg (Nat.ne_of_lt (Array.getElem?_eq_some_iff.mp hk).1))).trans hk

/-- Where a layout is fixed, slots, functions and the frames around frames stay. -/
theorem exists_of_finalize (h : t.finalize f = .ok t') :
    t'.vars = t.vars ∧ t'.functions = t.functions ∧ ∀ f p, t.Parent f p → t'.Parent f p := by
  obtain ⟨hlt, tys, -, rfl⟩ := finalize_spec h
  exact ⟨rfl, rfl, Revises.parents
    (revises_set (Array.getElem?_eq_getElem hlt) hlt rfl rfl rfl fun _ _ hk => hk)⟩

end FrameTable

namespace Check

variable {α : Type} {c : Checker}

theorem upholds_log (hc : c.Proper) (e : Event) : Upholds (log e) c fun _ _ => True := by
  intro a c' hrun
  obtain ⟨-, rfl⟩ := yields_log.mp (yields_of_run hrun)
  obtain ⟨hc', hw⟩ := hc.congr (c.note e) rfl rfl rfl rfl
  exact ⟨hc', hw, trivial⟩

theorem upholds_report (hc : c.Proper) (fault : Fault) (loc : Location) :
    Upholds (report fault loc) c fun _ _ => True := by
  intro a c' hrun
  obtain ⟨-, rfl⟩ := yields_report.mp (yields_of_run hrun)
  obtain ⟨hc', hw⟩ := hc.congr (c.reported fault loc) rfl rfl rfl rfl
  exact ⟨hc', hw, trivial⟩

theorem upholds_fail (hc : c.Proper) (fault : Fault) (loc : Location) :
    Upholds (fail fault loc : Check (Option α)) c fun o _ => o = none :=
  (upholds_report hc fault loc).bind fun _ _ hc' _ _ => .pure hc' rfl

theorem upholds_enterScopes (hc : c.Proper) : Upholds enterScopes c fun _ _ => True := by
  intro a c' hrun
  obtain ⟨-, rfl⟩ := yields_enterScopes.mp (yields_of_run hrun)
  obtain ⟨hc', hw⟩ := hc.withValues hc.values.enter
  exact ⟨⟨hc'.names, hc'.entries, hc'.slots, hc'.functions, hc'.values⟩, ⟨hw.stores, hw.slot, hw.parent⟩, trivial⟩

theorem upholds_exitScopes (hc : c.Proper) : Upholds exitScopes c fun _ _ => True := by
  intro a c' hrun
  obtain ⟨functions, values, typeNames, -, hvalues, -, -, rfl⟩ := yields_exitScopes.mp (yields_of_run hrun)
  obtain ⟨hc', hw⟩ := hc.withValues (hc.values.exit hvalues)
  exact ⟨⟨hc'.names, hc'.entries, hc'.slots, hc'.functions, hc'.values⟩, ⟨hw.stores, hw.slot, hw.parent⟩, trivial⟩

theorem upholds_enterValues (hc : c.Proper) : Upholds enterValues c fun _ _ => True := by
  intro a c' hrun
  obtain ⟨-, rfl⟩ := yields_enterValues.mp (yields_of_run hrun)
  obtain ⟨hc', hw⟩ := hc.withValues hc.values.enter
  exact ⟨hc', hw, trivial⟩

theorem upholds_exitValues (hc : c.Proper) : Upholds exitValues c fun _ _ => True := by
  intro a c' hrun
  obtain ⟨values, hvalues, -, rfl⟩ := yields_exitValues.mp (yields_of_run hrun)
  obtain ⟨hc', hw⟩ := hc.withValues (hc.values.exit hvalues)
  exact ⟨hc', hw, trivial⟩

/-- A variable that can be seen may be bound. -/
theorem upholds_bindValue (hc : c.Proper) (name : String) {v : VarId} (hv : c.frames.Shows v) :
    Upholds (bindValue name v) c fun _ _ => True := by
  intro a c' hrun
  obtain ⟨-, rfl⟩ := yields_bindValue.mp (yields_of_run hrun)
  obtain ⟨hc', hw⟩ := hc.withValues (hc.values.bind name hv)
  exact ⟨hc', hw, trivial⟩

theorem upholds_bindParams : ∀ (ps : List TypedName) (vs : List VarId) {c : Checker}, c.Proper →
    (∀ v ∈ vs, c.frames.Shows v) → Upholds (bindParams ps vs) c fun _ _ => True
  | [], _, _, hc, _ => .pure hc trivial
  | _ :: _, [], _, hc, _ => .pure hc trivial
  | p :: ps, v :: vs, c, hc, hvs => by
    obtain ⟨hv, hvs⟩ := List.forall_mem_cons.mp hvs
    rw [bindParams]
    exact (upholds_bindValue hc p.name.name hv).bind fun _ _ hc₁ hw _ =>
      upholds_bindParams ps vs hc₁ fun w hw' => hw.shows (hvs w hw')

/-- A slot may be appended whose type its kind admits. -/
theorem upholds_alloc (hc : c.Proper) {frame : FrameId} (name : String) {ty : Option Ty} (kind : SlotKind)
    (h : kind.Admits c.types c.frames frame ty) :
    Upholds (alloc frame name ty kind) c fun v c' => ∃ s, c'.frames.vars[v.index]? = some s ∧ s.kind = kind := by
  intro v c' hrun
  obtain ⟨v, frames, halloc, rfl, rfl⟩ := yields_alloc.mp (yields_of_run hrun)
  obtain ⟨s, rfl, hvars, hfunctions, hparent, hkind, hty, hframe⟩ := FrameTable.exists_of_alloc halloc
  have hslot : ∀ (w : VarId) x, c.frames.vars[w.index]? = some x → frames.vars[w.index]? = some x := by
    intro w x hx
    rw [hvars, Array.getElem?_push, if_neg (Nat.ne_of_lt (Array.getElem?_eq_some_iff.mp hx).1), hx]
  have hw : c.Widens { c with frames } := ⟨fun _ h => h, hslot, hparent⟩
  refine And.imp_right (fun hw => ⟨hw, s, ?_, hkind⟩) (hc.withFrames hslot hparent (fun w x hx => ?_) hfunctions)
  · rw [hvars, Array.getElem?_push_size]
  · rw [hvars, Array.getElem?_push] at hx
    split at hx
    · cases hx
      subst hkind hty hframe
      exact Or.inr (SlotKind.Admits.widen hw h)
    · exact Or.inl hx

theorem upholds_newFrame (hc : c.Proper) (name : String) (level : Nat) (parent : FrameId) :
    Upholds (newFrame name level parent) c fun f c' => c'.frames.Parent f parent := by
  intro f c' hrun
  obtain ⟨rfl, rfl⟩ := yields_newFrame.mp (yields_of_run hrun)
  have hg := FrameTable.grows_newFrame c.frames name level (some parent)
  refine And.imp_right (fun hw => ⟨hw, ?_⟩) (hc.withFrames hg.slot hg.parent (fun _ _ h => Or.inl h) rfl)
  exact ⟨_, FrameTable.frame_newFrame .., rfl⟩

/-- A function may be added whose types are where they may be. -/
theorem upholds_addFunction (hc : c.Proper) {p : Prototype} (hp : p.Proper c.types c.frames) :
    Upholds (addFunction p) c fun _ _ => True := by
  intro f c' hrun
  obtain ⟨-, rfl⟩ := yields_addFunction.mp (yields_of_run hrun)
  refine ⟨⟨hc.names, hc.entries, hc.slots, fun g q hg => ?_, hc.values⟩,
    ⟨fun _ h => h, fun _ _ h => h, fun _ _ h => h⟩, trivial⟩
  have hg' : (c.frames.functions.push p)[g.index]? = some q := hg
  rw [Array.getElem?_push] at hg'
  split at hg'
  · cases hg'
    exact hp
  · exact hc.functions g q hg'

theorem upholds_finalize (hc : c.Proper) (frame : FrameId) : Upholds (finalize frame) c fun _ _ => True := by
  intro a c' hrun
  obtain ⟨frames, hfin, -, rfl⟩ := yields_finalize.mp (yields_of_run hrun)
  obtain ⟨hvars, hfunctions, hparent⟩ := FrameTable.exists_of_finalize hfin
  refine And.imp_right (fun hw => ⟨hw, trivial⟩) (hc.withFrames (fun v s hs => hvars ▸ hs) hparent
    (fun v s hs => Or.inl (hvars ▸ hs)) hfunctions)

/-! ### Types -/

theorem upholds_newRecord (hc : c.Proper) (name : String) {fields : List Field}
    (h : ∀ f ∈ fields, c.types.Stores f.ty) :
    Upholds (newRecord name fields) c fun t c' => c'.types.Stores t := by
  intro t c' hrun
  obtain ⟨rfl, rfl⟩ := yields_newRecord.mp (yields_of_run hrun)
  have hp := c.types.puts_newRecord name fields
  refine And.imp_right (fun hw => ⟨hw, trivial, hp.has_self⟩) (hc.withTypes hp ?_)
  simpa [Shape.types] using h

theorem upholds_newArray (hc : c.Proper) (name : String) {element : Option Ty}
    (h : ∀ u ∈ element, c.types.Stores u) :
    Upholds (newArray name element) c fun t c' => c'.types.Stores t := by
  intro t c' hrun
  obtain ⟨rfl, rfl⟩ := yields_newArray.mp (yields_of_run hrun)
  have hp := c.types.puts_newArray name element
  refine And.imp_right (fun hw => ⟨hw, trivial, hp.has_self⟩) (hc.withTypes hp ?_)
  simpa [Shape.types] using h

theorem upholds_setFields (hc : c.Proper) {id : RecordId} (hid : c.types.Has (.record id)) {fields : List Field}
    (h : ∀ f ∈ fields, c.types.Stores f.ty) : Upholds (setFields id fields) c fun _ _ => True := by
  intro a c' hrun
  obtain ⟨b, hb, -, rfl⟩ := yields_setFields.mp (yields_of_run hrun)
  obtain ⟨b', hb', hp⟩ := Arena.puts_setFields fields (Arena.shape_record_of_has hid)
  rw [hb] at hb'
  cases hb'
  refine And.imp_right (fun hw => ⟨hw, trivial⟩) (hc.withTypes hp ?_)
  simpa [Shape.types] using h

/-- Of two elements that are offered to an array one is kept. -/
theorem upholds_setElement (hc : c.Proper) {id : ArrayId} (hid : c.types.Has (.array id)) {element : Ty}
    (h : c.types.Stores element) : Upholds (setElement id element) c fun _ _ => True := by
  intro a c' hrun
  obtain ⟨b, hb, -, rfl⟩ := yields_setElement.mp (yields_of_run hrun)
  have hshape := Arena.shape_array_of_has hid
  obtain ⟨b', hb', hp⟩ := Arena.puts_setElement element hshape
  rw [hb] at hb'
  cases hb'
  refine And.imp_right (fun hw => ⟨hw, trivial⟩) (hc.withTypes hp fun u hu => ?_)
  have hold := hc.entries _ _ hshape
  cases he : (c.types.arrays[id.index]).element with
  | none =>
    rw [Shape.types, ArrayEntry.offer, he] at hu
    exact (List.mem_singleton.mp hu) ▸ h
  | some v =>
    rw [Shape.types, ArrayEntry.offer, he] at hu
    exact hold u (by rw [Shape.types, he]; exact hu)

theorem upholds_namedType (hc : c.Proper) (id : NamedTypeId) :
    Upholds (namedType id) c fun s c' => c'.status id = some s ∧ ∀ u ∈ s.ty?, c'.types.Stores u := by
  intro s c' hrun
  obtain ⟨s, hs, rfl, rfl⟩ := yields_namedType.mp (yields_of_run hrun)
  exact ⟨hc, .refl c, hs, hc.names id s hs⟩

/-- A type name may stand for a type of stored values. -/
theorem upholds_setNamedType (hc : c.Proper) (id : NamedTypeId) {s : NamedType}
    (hs : ∀ u ∈ s.ty?, c.types.Stores u) : Upholds (setNamedType id s) c fun _ _ => True := by
  intro a c' hrun
  obtain ⟨hid, -, rfl⟩ := yields_setNamedType.mp (yields_of_run hrun)
  refine ⟨⟨fun k n hn => ?_, hc.entries, hc.slots, hc.functions, hc.values⟩,
    ⟨fun _ h => h, fun _ _ h => h, fun _ _ h => h⟩, trivial⟩
  have hn' : (c.namedTypes.setIfInBounds id.index s)[k.index]? = some n := hn
  by_cases hk : id.index = k.index
  · rw [← hk, Array.getElem?_setIfInBounds_self_of_lt hid] at hn'
    cases hn'
    exact hs
  · rw [Array.getElem?_setIfInBounds_ne hk] at hn'
    exact hc.names k n hn'

end Check

end TigerCheck
