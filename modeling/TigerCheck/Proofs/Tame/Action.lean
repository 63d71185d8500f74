import TigerCheck.Proofs.Judges

/-!
# Tame actions

Three things hold of everything that the checker does, in whatever state it is. The levels and the
parents that frames have are written but never read. Diagnostics change by reports only. And an action
that gives a good answer has reported nothing.

* `Checker.levelled`: the state with every frame at one level and without parents.
* `Diagnostics.Adds`, `Checker.Reports`: further reports, and nothing but further reports.
* `Check.Guarded`: what an action does not read, what it may change, and what its good answers mean.
  **`Check.Guarded.bind`**: one action after another.
* `Check.Tame`, `Check.Passive`: an action adds reports to the diagnostics, or does nothing else.
* `Check.passive_report`, `Check.tame_alloc`, …: the primitive actions.
-/

namespace TigerCheck

/-! ## Levels -/

/-- Every frame at one level, without parents, and every slot at this level. -/
def FrameTable.levelled (n : Nat) (t : FrameTable) : FrameTable where
  frames := t.frames.map fun f => { f with level := n, parent := none }
  vars := t.vars.map fun s => { s with level := n }
  functions := t.functions

namespace Checker

/-- The state with every frame at one level and without parents. -/
def levelled (n : Nat) (c : Checker) : Checker := { c with frames := c.frames.levelled n }

variable {c : Checker} {m n : Nat}

@[simp] theorem levelled_types : (c.levelled n).types = c.types := rfl

@[simp] theorem levelled_diagnostics : (c.levelled n).diagnostics = c.diagnostics := rfl

@[simp] theorem levelled_values : (c.levelled n).values = c.values := rfl

@[simp] theorem levelled_typeNames : (c.levelled n).typeNames = c.typeNames := rfl

@[simp] theorem levelled_functions : (c.levelled n).functions = c.functions := rfl

@[simp] theorem levelled_namedTypes : (c.levelled n).namedTypes = c.namedTypes := rfl

@[simp] theorem levelled_mainFrame : (c.levelled n).mainFrame = c.mainFrame := rfl

@[simp] theorem levelled_frames : (c.levelled n).frames = c.frames.levelled n := rfl

end Checker

@[simp] theorem FrameTable.levelled_levelled (m n : Nat) (t : FrameTable) :
    (t.levelled n).levelled m = t.levelled m := by
  simp [levelled, Function.comp_def]

@[simp] theorem Checker.levelled_levelled (m n : Nat) (c : Checker) :
    (c.levelled n).levelled m = c.levelled m := by
  simp [levelled]

/-! ## Reports -/

/-- Diagnostics with further reports. -/
inductive Diagnostics.Adds (ds : Diagnostics) : Diagnostics → Prop where
  | refl : Adds ds ds
  | report {ds' : Diagnostics} (fault : Fault) (loc : Location) :
      Adds ds ds' → Adds ds (ds'.report fault loc)

theorem Diagnostics.Adds.trans {ds ds' ds'' : Diagnostics} (h : ds.Adds ds') (h' : ds'.Adds ds'') :
    ds.Adds ds'' := by
  induction h' with
  | refl => exact h
  | report fault loc _ ih => exact .report fault loc ih

/-- The second state is the first after some reports of certain faults. -/
inductive Checker.Reports (F : Fault → Prop) (c : Checker) : Checker → Prop where
  | refl : Reports F c c
  | report {c' : Checker} {fault : Fault} (loc : Location) :
      Reports F c c' → F fault → Reports F c (c'.reported fault loc)

namespace Checker.Reports

variable {F : Fault → Prop} {c c' c'' : Checker}

theorem trans (h : c.Reports F c') (h' : c'.Reports F c'') : c.Reports F c'' := by
  induction h' with
  | refl => exact h
  | report loc _ hf ih => exact .report loc ih hf

theorem adds (h : c.Reports F c') : c.diagnostics.Adds c'.diagnostics := by
  induction h with
  | refl => exact .refl
  | report loc _ _ ih => exact .report _ loc ih

theorem toSays (h : c.Reports F c') : c.Says c' := by
  induction h with
  | refl => exact .quiet
  | report loc _ _ ih => exact .report _ loc ih

end Checker.Reports

/-! ## Guarded actions -/

/-- A kind of change of the state: it may be none at all, and one may follow another. -/
class Checker.Change (R : Checker → Checker → Prop) : Prop where
  refl : ∀ c, R c c
  trans : ∀ c c' c'', R c c' → R c' c'' → R c c''

namespace Check

variable {α β : Type} {F : Fault → Prop} {R R' : Checker → Checker → Prop} {ok ok' : Prop}

/-- What an action does, as far as it can be seen without levels. -/
def outline (m : Check α) (c : Checker) : Except Breach (α × Checker) :=
  (m.run c).map fun r => (r.1, r.2.levelled 0)

/-- An action does not read levels, it changes the state in a certain way, and if its answer is good then
something holds of what it was given, and it has reported nothing. -/
structure Guarded (R : Checker → Checker → Prop) (ok : Prop) (m : Check α) (good : α → Prop) :
    Prop where
  outline_levelled : ∀ c n, outline m (c.levelled n) = outline m c
  changes : ∀ c a c', m.run c = .ok (a, c') → R c c'
  honest : ∀ c a c', m.run c = .ok (a, c') → good a → ok ∧ c'.diagnostics = c.diagnostics

/-- An action adds reports to the diagnostics, and may do other things. -/
abbrev Tame (ok : Prop) (m : Check α) (good : α → Prop) : Prop :=
  Guarded (fun c c' => c.diagnostics.Adds c'.diagnostics) ok m good

/-- An action reports certain faults and does nothing else. -/
abbrev Passive (F : Fault → Prop) (ok : Prop) (m : Check α) (good : α → Prop) : Prop :=
  Guarded (Checker.Reports F) ok m good

instance : Checker.Change fun c c' => c.diagnostics.Adds c'.diagnostics :=
  ⟨fun _ => .refl, fun _ _ _ => .trans⟩

instance : Checker.Change (Checker.Reports F) := ⟨fun _ => .refl, fun _ _ _ => .trans⟩

theorem Guarded.tame {m : Check α} {good : α → Prop} (h : Passive F ok m good) : Tame ok m good where
  outline_levelled := h.outline_levelled
  changes c a c' hm := (h.changes c a c' hm).adds
  honest := h.honest

namespace Guarded

variable {m : Check α} {f : α → Check β} {P good good' : α → Prop} {Q : β → Prop}

/-! ### Guards -/

theorem imp (h : Guarded R ok m good) (hok : ok → ok') (hgood : ∀ a, good' a → good a) :
    Guarded R ok' m good' where
  outline_levelled := h.outline_levelled
  changes := h.changes
  honest c a c' hm ha := (h.honest c a c' hm (hgood a ha)).imp_left hok

/-- What an action does not depend on may be carried along. -/
theorem frame (h : Guarded R ok m good) : Guarded R (ok' ∧ ok) m fun a => ok' ∧ good a where
  outline_levelled := h.outline_levelled
  changes := h.changes
  honest c a c' hm ha := by
    obtain ⟨hok, hd⟩ := h.honest c a c' hm ha.2
    exact ⟨⟨ha.1, hok⟩, hd⟩

theorem keep (h : Guarded R True m good) : Guarded R ok m fun a => ok ∧ good a :=
  h.frame.imp And.left fun _ h => h

/-- What is good may be read off the end of the action. -/
theorem of_run (h : Guarded R ok m good)
    (hgood : ∀ c a c', m.run c = .ok (a, c') → good' a → good a) : Guarded R ok m good' where
  outline_levelled := h.outline_levelled
  changes := h.changes
  honest c a c' hm ha := h.honest c a c' hm (hgood c a c' hm ha)

/-- A condition that holds need not be followed. -/
theorem of_true (h : Guarded R True m good) (hok : ok) : Guarded R ok m good :=
  h.imp (fun _ => hok) fun _ h => h

theorem ite {b : Prop} [Decidable b] {m' : Check α} (h : Guarded R ok m good) (h' : Guarded R ok m' good) :
    Guarded R ok (if b then m else m') good := by
  split
  · exact h
  · exact h'

/-- Reading something other than levels. -/
theorem get {f : Checker → Check α} (hf : ∀ c n, f (c.levelled n) = f c)
    (h : ∀ c, Guarded R ok (f c) good) : Guarded R ok (MonadState.get >>= f) good where
  outline_levelled c n := by
    change outline (f (c.levelled n)) (c.levelled n) = outline (f c) c
    rw [hf, (h c).outline_levelled]
  changes c a c' hm := (h c).changes c a c' hm
  honest c a c' hm := (h c).honest c a c' hm

/-! ### Sequences -/

section

variable [Checker.Change R]

theorem pure {a : α} (h : good a → ok) : Guarded R ok (Pure.pure a) good where
  outline_levelled c n := by
    change Except.ok (a, (c.levelled n).levelled 0) = Except.ok (a, c.levelled 0)
    rw [Checker.levelled_levelled]
  changes c b c' hm := by
    cases hm
    exact Checker.Change.refl c
  honest c b c' hm hb := by
    cases hm
    exact ⟨h hb, rfl⟩

theorem outline_bind (hf : ∀ a c n, outline (f a) (c.levelled n) = outline (f a) c) (c : Checker) :
    outline (m >>= f) c = (outline m c).bind fun r => outline (f r.1) r.2 := by
  unfold outline
  rw [StateT.run_bind]
  cases m.run c with
  | error e => rfl
  | ok r => exact (hf r.1 r.2 0).symm

/-- **One action after another.** -/
theorem bind (hm : Guarded R ok m P) (hf : ∀ a, Guarded R (P a) (f a) Q) : Guarded R ok (m >>= f) Q where
  outline_levelled c n := by
    have hf' := fun a => (hf a).outline_levelled
    rw [outline_bind hf', outline_bind hf', hm.outline_levelled]
  changes c b c' h := by
    obtain ⟨a, c₁, h₁, h₂⟩ := exists_of_run_bind h
    exact Checker.Change.trans c c₁ c' (hm.changes c a c₁ h₁) ((hf a).changes c₁ b c' h₂)
  honest c b c' h hb := by
    obtain ⟨a, c₁, h₁, h₂⟩ := exists_of_run_bind h
    obtain ⟨ha, hd₂⟩ := (hf a).honest c₁ b c' h₂ hb
    obtain ⟨hok, hd₁⟩ := hm.honest c a c₁ h₁ ha
    exact ⟨hok, hd₂.trans hd₁⟩

theorem map {f : α → β} (hm : Guarded R ok m P) (hf : ∀ a, Q (f a) → P a) : Guarded R ok (f <$> m) Q := by
  rw [map_eq_pure_bind]
  exact hm.bind fun a => .pure (hf a)

theorem lift {x : Except Breach α} : Guarded R ok (liftM x : Check α) fun _ => ok := by
  cases x with
  | error e =>
    refine ⟨fun c n => rfl, fun c a c' hm => ?_, fun c a c' hm => ?_⟩
    · cases hm
    · cases hm
  | ok a => exact pure id

end

theorem throw {e : Breach} : Guarded R ok (MonadExcept.throw e : Check α) good := by
  refine ⟨fun c n => rfl, fun c a c' hm => ?_, fun c a c' hm => ?_⟩
  · cases hm
  · cases hm

/-! ### Changes -/

/-- Changing something besides levels and diagnostics, depending on anything but levels. -/
theorem modifyGet {f : Checker → α × Checker} (hfst : ∀ c n, (f (c.levelled n)).1 = (f c).1)
    (hsnd : ∀ c n, (f (c.levelled n)).2.levelled 0 = (f c).2.levelled 0)
    (hd : ∀ c, (f c).2.diagnostics = c.diagnostics) :
    Tame ok (MonadStateOf.modifyGet f : Check α) fun _ => ok where
  outline_levelled c n := by
    change Except.ok ((f (c.levelled n)).1, (f (c.levelled n)).2.levelled 0) =
      Except.ok ((f c).1, (f c).2.levelled 0)
    rw [hfst, hsnd]
  changes c a c' hm := by
    have heq : f c = (a, c') := Except.ok.inj hm
    rw [← hd c, heq]
    exact .refl
  honest c a c' hm hok := by
    have heq : f c = (a, c') := Except.ok.inj hm
    exact ⟨hok, by rw [← hd c, heq]⟩

/-- Changing something besides diagnostics, if a table allows it. -/
theorem update {γ : Type} {g : Checker → Except Breach γ} {h : γ → α} {k : Checker → γ → Checker}
    (r : Nat → γ → γ) (hrun : ∀ c, m.run c = (g c).map fun x => (h x, k c x))
    (hg : ∀ c n, g (c.levelled n) = (g c).map (r n)) (hh : ∀ n x, h (r n x) = h x)
    (hk : ∀ c n x, (k (c.levelled n) (r n x)).levelled 0 = (k c x).levelled 0)
    (hd : ∀ c x, (k c x).diagnostics = c.diagnostics) : Tame ok m fun _ => ok where
  outline_levelled c n := by
    unfold outline
    rw [hrun, hrun, hg]
    cases g c with
    | error e => rfl
    | ok x =>
      change Except.ok (h (r n x), (k (c.levelled n) (r n x)).levelled 0) =
        Except.ok (h x, (k c x).levelled 0)
      rw [hh, hk]
  changes c a c' hm := by
    rw [hrun] at hm
    cases hx : g c with
    | error e =>
      rw [hx] at hm
      cases hm
    | ok x =>
      rw [hx] at hm
      cases hm
      rw [hd]
      exact .refl
  honest c a c' hm hok := by
    rw [hrun] at hm
    cases hx : g c with
    | error e =>
      rw [hx] at hm
      cases hm
    | ok x =>
      rw [hx] at hm
      cases hm
      exact ⟨hok, hd c x⟩

/-- Changing something besides levels and diagnostics, if a table other than that of the frames allows
it. -/
theorem change {γ : Type} {g : Checker → Except Breach γ} {k : Checker → γ → Checker} {m : Check Unit}
    (hrun : ∀ c, m.run c = (g c).map fun x => ((), k c x)) (hg : ∀ c n, g (c.levelled n) = g c)
    (hk : ∀ c n x, (k (c.levelled n) x).levelled 0 = (k c x).levelled 0)
    (hd : ∀ c x, (k c x).diagnostics = c.diagnostics) : Tame ok m fun _ => ok :=
  update (fun _ x => x) hrun (fun c n => by rw [hg]; cases g c <;> rfl) (fun _ _ => rfl) hk hd

end Guarded

/-! ## Reports and events -/

/-- Any fault. -/
abbrev anyFault : Fault → Prop := fun _ => True

/-- A report is never good. -/
theorem passive_report {fault : Fault} {loc : Location} (hf : F fault) :
    Passive F ok (report fault loc) fun _ => False where
  outline_levelled c n := by
    change Except.ok ((), ((c.levelled n).reported fault loc).levelled 0) =
      Except.ok ((), (c.reported fault loc).levelled 0)
    simp [Checker.levelled, Checker.reported, Checker.note]
  changes c a c' hm := by
    cases hm
    exact .report loc .refl hf
  honest c a c' hm h := h.elim

theorem passive_fail {fault : Fault} {loc : Location} (hf : F fault) :
    Passive F ok (fail fault loc : Check (Option α)) (· ≠ none) :=
  (passive_report hf).bind fun _ => .pure fun h => (h rfl).elim

theorem passive_refuse {fault : Fault} {loc : Location} (hf : F fault) :
    Passive F ok (refuse fault loc) (· = true) :=
  (passive_report hf).bind fun _ => .pure fun h => by cases h

theorem tame_report {fault : Fault} {loc : Location} : Tame ok (report fault loc) fun _ => False :=
  (passive_report trivial : Passive anyFault ok _ _).tame

theorem tame_fail {fault : Fault} {loc : Location} :
    Tame ok (fail fault loc : Check (Option α)) (· ≠ none) :=
  (passive_fail trivial : Passive anyFault ok _ _).tame

theorem tame_log {e : Event} : Tame ok (log e) fun _ => ok :=
  .modifyGet (fun _ _ => rfl) (fun c n => by simp [Checker.levelled]) fun _ => rfl

/-! ## Scopes -/

/-- A change that a table allows or refuses. -/
theorem run_get_lift_set {γ : Type} (g : Checker → Except Breach γ) (k : Checker → γ → Checker)
    (c : Checker) :
    (do let c ← get; let x ← liftM (g c); set (k c x) : Check Unit).run c =
      (g c).map fun x => ((), k c x) := by
  change StateT.run ((liftM (g c) : Check γ) >>= fun x => set (k c x)) c = _
  cases g c with
  | error e => rfl
  | ok x => rfl

theorem tame_enterScopes : Tame ok enterScopes fun _ => ok :=
  .bind (.modifyGet (fun _ _ => rfl) (fun c n => by simp [Checker.levelled]) fun _ => rfl) fun _ =>
    .get (fun _ _ => rfl) fun _ => tame_log

/-- The three scopes that are left when one is closed in each namespace. -/
def outerScopes (c : Checker) :
    Except Breach (Scopes FunctionId × Scopes VarId × Scopes NamedTypeId) := do
  let functions ← c.functions.exit
  let values ← c.values.exit
  let typeNames ← c.typeNames.exit
  return (functions, values, typeNames)

theorem tame_exitScopes : Tame ok exitScopes fun _ => ok := by
  refine .get (fun _ _ => rfl) fun d => tame_log.bind fun _ => ?_
  refine .change (g := outerScopes) (k := fun c s => { c with
    functions := s.1, values := s.2.1, typeNames := s.2.2 }) (fun c => ?_) (fun _ _ => rfl)
    (fun c n s => by simp [Checker.levelled]) fun _ _ => rfl
  unfold outerScopes
  change StateT.run ((liftM c.functions.exit : Check _) >>= fun functions =>
    (liftM c.values.exit : Check _) >>= fun values =>
      (liftM c.typeNames.exit : Check _) >>= fun typeNames =>
        set { c with functions, values, typeNames }) c = _
  cases c.functions.exit with
  | error e => rfl
  | ok functions =>
    cases c.values.exit with
    | error e => rfl
    | ok values =>
      cases c.typeNames.exit with
      | error e => rfl
      | ok typeNames => rfl

theorem tame_enterValues : Tame ok enterValues fun _ => ok :=
  .modifyGet (fun _ _ => rfl) (fun c n => by simp [Checker.levelled]) fun _ => rfl

theorem tame_exitValues : Tame ok exitValues fun _ => ok :=
  .change (run_get_lift_set (·.values.exit) fun c values => { c with values }) (fun _ _ => rfl)
    (fun c n x => by simp [Checker.levelled]) fun _ _ => rfl

theorem tame_bindValue {name : String} {id : VarId} : Tame ok (bindValue name id) fun _ => ok :=
  .modifyGet (fun _ _ => rfl) (fun c n => by simp [Checker.levelled]) fun _ => rfl

theorem tame_bindParams : ∀ (ps : List TypedName) (ids : List VarId),
    Tame ok (bindParams ps ids) fun _ => ok
  | _ :: ps, _ :: ids => tame_bindValue.bind fun _ => tame_bindParams ps ids
  | [], _ => .pure id
  | _ :: _, [] => .pure id

/-! ## Frames -/

/-- A slot is appended in the same way whatever the levels are. -/
theorem alloc_levelled (t : FrameTable) (n : Nat) (frame : FrameId) (name : String) (ty : Option Ty)
    (kind : SlotKind) : (t.levelled n).alloc frame name ty kind =
      (t.alloc frame name ty kind).map fun r => (r.1, r.2.levelled n) := by
  unfold FrameTable.alloc
  by_cases h : frame.index < t.frames.size
  · have h' : frame.index < (t.levelled n).frames.size := by simpa [FrameTable.levelled] using h
    rw [dif_pos h, dif_pos h']
    simp [FrameTable.levelled, Except.map]
  · have h' : ¬ frame.index < (t.levelled n).frames.size := by simpa [FrameTable.levelled] using h
    rw [dif_neg h, dif_neg h']
    rfl

theorem tame_alloc {frame : FrameId} {name : String} {ty : Option Ty} {kind : SlotKind} :
    Tame ok (alloc frame name ty kind) fun _ => ok := by
  refine .update (g := fun c => c.frames.alloc frame name ty kind) (h := (·.1))
    (k := fun c x => { c with frames := x.2 }) (fun n x => (x.1, x.2.levelled n)) (fun c => ?_)
    (fun c n => alloc_levelled ..) (fun _ _ => rfl) (fun c n x => by simp [Checker.levelled])
    fun _ _ => rfl
  change StateT.run ((liftM (c.frames.alloc frame name ty kind) : Check _) >>= fun x =>
    set { c with frames := x.2 } >>= fun _ => Pure.pure x.1) c = _
  cases c.frames.alloc frame name ty kind with
  | error e => rfl
  | ok x => rfl

theorem tame_newFrame {name : String} {level : Nat} {parent : FrameId} :
    Tame ok (newFrame name level parent) fun _ => ok :=
  .modifyGet (fun c n => by simp [FrameTable.newFrame, FrameTable.levelled])
    (fun c n => by simp [Checker.levelled, FrameTable.newFrame, FrameTable.levelled, Function.comp_def])
    fun _ => rfl

theorem tame_addFunction {p : Prototype} : Tame ok (addFunction p) fun _ => ok :=
  .modifyGet (fun _ _ => rfl)
    (fun c n => by
      simp [Checker.levelled, FrameTable.addFunction, FrameTable.levelled, Function.comp_def])
    fun _ => rfl

theorem finalize_levelled (t : FrameTable) (n : Nat) (frame : FrameId) :
    (t.levelled n).finalize frame = (t.finalize frame).map (·.levelled n) := by
  have hty : ∀ v, (·.ty) <$> (t.levelled n).var v = (·.ty) <$> t.var v := by
    intro v
    unfold FrameTable.var entry FrameTable.levelled
    rw [Array.getElem?_map]
    cases t.vars[v.index]? <;> rfl
  unfold FrameTable.finalize
  by_cases h : frame.index < t.frames.size
  · have h' : frame.index < (t.levelled n).frames.size := by simpa [FrameTable.levelled] using h
    rw [dif_pos h, dif_pos h']
    have hslots : (t.levelled n).frames[frame.index].slots = t.frames[frame.index].slots := by
      simp [FrameTable.levelled]
    simp only [hty, hslots]
    cases (t.frames[frame.index].slots.toList.mapM fun v => (·.ty) <$> t.var v) with
    | error e => rfl
    | ok layout => simp [FrameTable.levelled, Except.map, bind, Except.bind, Pure.pure, Except.pure]
  · have h' : ¬ frame.index < (t.levelled n).frames.size := by simpa [FrameTable.levelled] using h
    rw [dif_neg h, dif_neg h']
    rfl

theorem tame_finalize {frame : FrameId} : Tame ok (finalize frame) fun _ => ok :=
  .update (fun n (t : FrameTable) => t.levelled n)
    (run_get_lift_set (·.frames.finalize frame) fun c frames => { c with frames })
    (fun c n => finalize_levelled ..) (fun _ _ => rfl) (fun c n x => by simp [Checker.levelled])
    fun _ _ => rfl

/-! ## Types -/

theorem tame_newRecord {name : String} {fields : List Field} :
    Tame ok (newRecord name fields) fun _ => ok :=
  .modifyGet (fun _ _ => rfl) (fun c n => by simp [Checker.levelled]) fun _ => rfl

theorem tame_newArray {name : String} {element : Option Ty} :
    Tame ok (newArray name element) fun _ => ok :=
  .modifyGet (fun _ _ => rfl) (fun c n => by simp [Checker.levelled]) fun _ => rfl

theorem tame_setFields {id : RecordId} {fields : List Field} :
    Tame ok (setFields id fields) fun _ => ok :=
  .change (run_get_lift_set (·.types.setFields id fields) fun c types => { c with types })
    (fun _ _ => rfl) (fun c n x => by simp [Checker.levelled]) fun _ _ => rfl

theorem tame_setElement {id : ArrayId} {element : Ty} : Tame ok (setElement id element) fun _ => ok :=
  .change (run_get_lift_set (·.types.setElement id element) fun c types => { c with types })
    (fun _ _ => rfl) (fun c n x => by simp [Checker.levelled]) fun _ _ => rfl

theorem passive_sameType {s t : Ty} : Passive F ok (sameType s t) fun _ => ok :=
  .get (fun _ _ => rfl) fun _ => .lift

theorem passive_isMatch {s t : Ty} : Passive F ok (isMatch s t) fun _ => ok :=
  .get (fun _ _ => rfl) fun _ => .lift

theorem tame_namedType {id : NamedTypeId} : Tame ok (namedType id) fun _ => ok :=
  .get (fun _ _ => rfl) fun _ => .lift

theorem tame_setNamedType {id : NamedTypeId} {t : NamedType} :
    Tame ok (setNamedType id t) fun _ => ok := by
  refine .change (g := fun c => if h : id.index < c.namedTypes.size then
    .ok (c.namedTypes.set id.index t) else .error .dangling)
    (k := fun c namedTypes => { c with namedTypes }) (fun c => ?_) (fun _ _ => rfl)
    (fun c n x => by simp [Checker.levelled]) fun _ _ => rfl
  unfold setNamedType
  change StateT.run (if h : id.index < c.namedTypes.size then
    (set { c with namedTypes := c.namedTypes.set id.index t } : Check Unit) else
      MonadExcept.throw Breach.dangling) c = _
  by_cases h : id.index < c.namedTypes.size
  · rw [dif_pos h, dif_pos h]
    rfl
  · rw [dif_neg h, dif_neg h]
    rfl

end Check

end TigerCheck
