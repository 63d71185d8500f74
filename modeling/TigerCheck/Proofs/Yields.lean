import TigerCheck.Checker.State

/-!
# What an action ends in

An action of the checker ends in an answer and a new state, or in a breach. All statements about
actions are made through one predicate, which says that there is no breach and what holds at the end.
An action is taken apart along its binds; what is left are the primitive actions, each of which
changes the state in one known way.

* `Check.Yields`: the action has an end, and the end satisfies a condition.
* `Check.yields_pure`, `Check.yields_bind`, …: the rules of the monad.
* `Check.exists_of_run_bind`, `Check.exists_of_run_map`: taking apart an action that ended.
* `Check.YieldsOr`: the same, but under a condition the action may end in an overflow of levels.
* `Checker.note`, `Checker.reported`: the state after an event, and after a report.
* `Check.yields_report`, `Check.yields_alloc`, …: the primitive actions.
-/

namespace TigerCheck

namespace Check

variable {α β : Type} {c : Checker}

/-- The action ends without a breach, in an answer and a state that satisfy a condition. -/
def Yields (m : Check α) (c : Checker) (Q : α → Checker → Prop) : Prop :=
  ∃ a c', m.run c = .ok (a, c') ∧ Q a c'

/-! ## The rules of the monad -/

theorem Yields.mono {m : Check α} {Q R : α → Checker → Prop} (h : Yields m c Q)
    (hQR : ∀ a c', Q a c' → R a c') : Yields m c R := by
  obtain ⟨a, c', hm, hq⟩ := h
  exact ⟨a, c', hm, hQR a c' hq⟩

theorem Yields.of_run {m : Check α} {Q : α → Checker → Prop} {a : α} {c' : Checker}
    (h : Yields m c Q) (hm : m.run c = .ok (a, c')) : Q a c' := by
  obtain ⟨b, c'', hm', hq⟩ := h
  rw [hm] at hm'
  cases hm'
  exact hq

theorem yields_of_run {m : Check α} {a : α} {c' : Checker} (h : m.run c = .ok (a, c')) :
    Yields m c fun b d => b = a ∧ d = c' := ⟨a, c', h, rfl, rfl⟩

theorem yields_pure {a : α} {Q : α → Checker → Prop} : Yields (pure a) c Q ↔ Q a c := by
  constructor
  · rintro ⟨_, _, h, hq⟩
    cases h
    exact hq
  · exact fun h => ⟨a, c, rfl, h⟩

theorem yields_bind {m : Check α} {f : α → Check β} {Q : β → Checker → Prop} :
    Yields (m >>= f) c Q ↔ Yields m c fun a c' => Yields (f a) c' Q := by
  have run_bind : (m >>= f).run c = (m.run c).bind fun p => (f p.1).run p.2 := rfl
  constructor
  · rintro ⟨b, c₂, h, hq⟩
    rw [run_bind] at h
    cases hm : m.run c with
    | error e => rw [hm] at h; cases h
    | ok p => rw [hm] at h; exact ⟨p.1, p.2, hm, b, c₂, h, hq⟩
  · rintro ⟨a, c₁, hm, b, c₂, h, hq⟩
    exact ⟨b, c₂, by rw [run_bind, hm]; exact h, hq⟩

theorem yields_map {m : Check α} {f : α → β} {Q : β → Checker → Prop} :
    Yields (f <$> m) c Q ↔ Yields m c fun a c' => Q (f a) c' := by
  have h : f <$> m = m >>= fun a => pure (f a) := rfl
  rw [h, yields_bind]
  simp only [yields_pure]

theorem yields_get {Q : Checker → Checker → Prop} : Yields get c Q ↔ Q c c := yields_pure (a := c)

theorem yields_set {s : Checker} {Q : PUnit → Checker → Prop} : Yields (set s) c Q ↔ Q ⟨⟩ s := by
  constructor
  · rintro ⟨_, _, h, hq⟩
    cases h
    exact hq
  · exact fun h => ⟨_, _, rfl, h⟩

theorem yields_modifyGet {f : Checker → α × Checker} {Q : α → Checker → Prop} :
    Yields (modifyGet f) c Q ↔ Q (f c).1 (f c).2 := by
  constructor
  · rintro ⟨a, c', h, hq⟩
    have hf : f c = (a, c') := Except.ok.inj h
    rw [hf]
    exact hq
  · exact fun h => ⟨_, _, rfl, h⟩

theorem yields_modify {f : Checker → Checker} {Q : PUnit → Checker → Prop} :
    Yields (modify f) c Q ↔ Q ⟨⟩ (f c) := yields_modifyGet

/-- An operation on a table, used as an action, ends if it has an answer, and keeps the state. -/
theorem yields_lift {x : Except Breach α} {Q : α → Checker → Prop} :
    Yields (liftM x) c Q ↔ ∃ a, x = .ok a ∧ Q a c := by
  cases x with
  | error e =>
    constructor
    · rintro ⟨_, _, h, _⟩; cases h
    · rintro ⟨_, h, _⟩; cases h
  | ok a =>
    constructor
    · rintro ⟨_, _, h, hq⟩; cases h; exact ⟨a, rfl, hq⟩
    · rintro ⟨_, h, hq⟩; cases h; exact ⟨a, c, rfl, hq⟩

/-- Where an action ends, what follows it goes on. -/
theorem run_bind_of_run {m : Check α} {f : α → Check β} {c' : Checker} {a : α} (h : m.run c = .ok (a, c')) :
    (m >>= f).run c = (f a).run c' := by
  rw [StateT.run_bind, h]
  rfl

/-- An action in two parts that ended went through the end of the first. -/
theorem exists_of_run_bind {m : Check α} {f : α → Check β} {c' : Checker} {b : β}
    (h : (m >>= f).run c = .ok (b, c')) :
    ∃ a c₁, m.run c = .ok (a, c₁) ∧ (f a).run c₁ = .ok (b, c') := by
  have hend : Yields (m >>= f) c fun x d => x = b ∧ d = c' := ⟨b, c', h, rfl, rfl⟩
  obtain ⟨a, c₁, hm, x, d, hf, rfl, rfl⟩ := yields_bind.mp hend
  exact ⟨a, c₁, hm, hf⟩

/-- An answer that was made from another one. -/
theorem exists_of_run_map {m : Check α} {k : α → β} {c' : Checker} {b : β}
    (h : (k <$> m).run c = .ok (b, c')) : ∃ a, m.run c = .ok (a, c') ∧ b = k a := by
  rw [map_eq_pure_bind] at h
  obtain ⟨a, c₁, h₁, h₂⟩ := exists_of_run_bind h
  cases h₂
  exact ⟨a, h₁, rfl⟩

theorem not_yields_throw {e : Breach} {Q : α → Checker → Prop} : ¬ Yields (throw e) c Q := by
  rintro ⟨_, _, h, _⟩
  cases h

/-! ## Overflows -/

/-- The action ends as stated; or a condition holds, and functions are nested too deeply. -/
def YieldsOr (P : Prop) (m : Check α) (c : Checker) (Q : α → Checker → Prop) : Prop :=
  Yields m c Q ∨ (P ∧ m.run c = .error .levelOverflow)

theorem Yields.or {P : Prop} {m : Check α} {Q : α → Checker → Prop} (h : Yields m c Q) :
    YieldsOr P m c Q := Or.inl h

theorem YieldsOr.mono {P P' : Prop} {m : Check α} {Q R : α → Checker → Prop}
    (h : YieldsOr P m c Q) (hP : P → P') (hQR : ∀ a c', Q a c' → R a c') : YieldsOr P' m c R := by
  rcases h with h | ⟨hp, h⟩
  · exact Or.inl (h.mono hQR)
  · exact Or.inr ⟨hP hp, h⟩

theorem YieldsOr.of_run {P : Prop} {m : Check α} {Q : α → Checker → Prop} {a : α} {c' : Checker}
    (h : YieldsOr P m c Q) (hm : m.run c = .ok (a, c')) : Q a c' := by
  rcases h with h | ⟨-, h⟩
  · exact h.of_run hm
  · rw [hm] at h
    cases h

theorem YieldsOr.bind {P : Prop} {m : Check α} {f : α → Check β} {Q : β → Checker → Prop}
    {R : α → Checker → Prop} (h : YieldsOr P m c R) (hf : ∀ a c', R a c' → YieldsOr P (f a) c' Q) :
    YieldsOr P (m >>= f) c Q := by
  have run_bind : (m >>= f).run c = (m.run c).bind fun p => (f p.1).run p.2 := rfl
  rcases h with ⟨a, c₁, hm, hr⟩ | ⟨hp, hm⟩
  · rcases hf a c₁ hr with h | ⟨hp, h⟩
    · exact Or.inl (yields_bind.mpr ⟨a, c₁, hm, h⟩)
    · exact Or.inr ⟨hp, by rw [run_bind, hm]; exact h⟩
  · exact Or.inr ⟨hp, by rw [run_bind, hm]; rfl⟩

/-- An action that cannot overflow may come before one that can. -/
theorem Yields.bindOr {P : Prop} {m : Check α} {f : α → Check β} {Q : β → Checker → Prop}
    (h : Yields m c fun a c' => YieldsOr P (f a) c' Q) : YieldsOr P (m >>= f) c Q :=
  h.or.bind fun _ _ hf => hf

theorem yieldsOr_pure {P : Prop} {a : α} {Q : α → Checker → Prop} (h : Q a c) :
    YieldsOr P (pure a) c Q := (yields_pure.mpr h).or

end Check

/-! ## Journal and diagnostics -/

namespace Checker

/-- The state after an event. -/
def note (c : Checker) (e : Event) : Checker := { c with journal := c.journal.push e }

/-- The state after a report. -/
def reported (c : Checker) (fault : Fault) (location : Location) : Checker :=
  { c.note (.reported location fault) with diagnostics := c.diagnostics.report fault location }

end Checker

namespace Check

variable {α : Type} {c : Checker}

theorem yields_log {e : Event} {Q : Unit → Checker → Prop} :
    Yields (log e) c Q ↔ Q () (c.note e) := yields_modify

theorem yields_report {fault : Fault} {loc : Location} {Q : Unit → Checker → Prop} :
    Yields (report fault loc) c Q ↔ Q () (c.reported fault loc) := by
  unfold report
  rw [yields_bind, yields_log, yields_modify]
  rfl

theorem yields_fail {fault : Fault} {loc : Location} {Q : Option α → Checker → Prop} :
    Yields (fail fault loc) c Q ↔ Q none (c.reported fault loc) := by
  unfold fail
  rw [yields_bind, yields_report, yields_pure]

theorem yields_refuse {fault : Fault} {loc : Location} {Q : Bool → Checker → Prop} :
    Yields (refuse fault loc) c Q ↔ Q false (c.reported fault loc) := by
  unfold refuse
  rw [yields_bind, yields_report, yields_pure]

theorem eq_of_run_log {e : Event} {u : Unit} {c' : Checker} (h : (log e).run c = .ok (u, c')) :
    c' = c.note e := by
  cases h
  rfl

theorem eq_of_run_report {fault : Fault} {loc : Location} {u : Unit} {c' : Checker}
    (h : (report fault loc).run c = .ok (u, c')) : c' = c.reported fault loc := by
  cases h
  rfl

theorem eq_of_run_fail {fault : Fault} {loc : Location} {r : Option α} {c' : Checker}
    (h : (fail fault loc).run c = .ok (r, c')) : c' = c.reported fault loc := by
  cases h
  rfl

/-! ## Scopes -/

theorem yields_enterScopes {Q : Unit → Checker → Prop} :
    Yields enterScopes c Q ↔ Q ()
      (Checker.note { c with
          typeNames := c.typeNames.enter, values := c.values.enter, functions := c.functions.enter }
        (.entered c.values.enter.depth)) := by
  unfold enterScopes
  simp only [yields_bind, yields_modify, yields_get, yields_log]

/-- Scopes can be closed where each namespace has more than its outermost scope. -/
theorem yields_exitScopes {Q : Unit → Checker → Prop} :
    Yields exitScopes c Q ↔ ∃ functions values typeNames, c.functions.exit = .ok functions ∧
      c.values.exit = .ok values ∧ c.typeNames.exit = .ok typeNames ∧
      Q () { c.note (.leaving c.values.depth) with functions, values, typeNames } := by
  unfold exitScopes
  simp only [yields_bind, yields_get, yields_log, yields_lift, yields_set]
  constructor
  · rintro ⟨f, hf, v, hv, t, ht, hq⟩
    exact ⟨f, v, t, hf, hv, ht, hq⟩
  · rintro ⟨f, v, t, hf, hv, ht, hq⟩
    exact ⟨f, hf, v, hv, t, ht, hq⟩

theorem yields_enterValues {Q : Unit → Checker → Prop} :
    Yields enterValues c Q ↔ Q () { c with values := c.values.enter } := yields_modify

theorem yields_exitValues {Q : Unit → Checker → Prop} :
    Yields exitValues c Q ↔ ∃ values, c.values.exit = .ok values ∧ Q () { c with values } := by
  unfold exitValues
  simp only [yields_bind, yields_get, yields_lift, yields_set]

theorem yields_bindValue {name : String} {id : VarId} {Q : Unit → Checker → Prop} :
    Yields (bindValue name id) c Q ↔ Q () { c with values := c.values.bind name id } :=
  yields_modify

theorem eq_of_run_enterValues {u : Unit} {c' : Checker} (h : enterValues.run c = .ok (u, c')) :
    c' = { c with values := c.values.enter } := by
  cases h
  rfl

theorem eq_of_run_bindValue {name : String} {v : VarId} {u : Unit} {c' : Checker}
    (h : (bindValue name v).run c = .ok (u, c')) : c' = { c with values := c.values.bind name v } := by
  cases h
  rfl

/-! ## Frames -/

theorem yields_alloc {frame : FrameId} {name : String} {ty : Option Ty} {kind : SlotKind}
    {Q : VarId → Checker → Prop} :
    Yields (alloc frame name ty kind) c Q ↔
      ∃ id frames, c.frames.alloc frame name ty kind = .ok (id, frames) ∧ Q id { c with frames } := by
  unfold alloc
  simp only [yields_bind, yields_get, yields_lift, yields_set, yields_pure]
  constructor
  · rintro ⟨⟨id, frames⟩, h, hq⟩
    exact ⟨id, frames, h, hq⟩
  · rintro ⟨id, frames, h, hq⟩
    exact ⟨⟨id, frames⟩, h, hq⟩

theorem exists_of_run_alloc {frame : FrameId} {name : String} {ty : Option Ty} {kind : SlotKind}
    {v : VarId} {c' : Checker} (h : (alloc frame name ty kind).run c = .ok (v, c')) :
    ∃ frames, c.frames.alloc frame name ty kind = .ok (v, frames) ∧ c' = { c with frames } := by
  have hend : Yields (alloc frame name ty kind) c fun w d => w = v ∧ d = c' := ⟨v, c', h, rfl, rfl⟩
  obtain ⟨_, frames, halloc, rfl, rfl⟩ := yields_alloc.mp hend
  exact ⟨frames, halloc, rfl⟩

theorem run_alloc {frame : FrameId} {name : String} {ty : Option Ty} {kind : SlotKind} {v : VarId}
    {frames : FrameTable} (h : c.frames.alloc frame name ty kind = .ok (v, frames)) :
    (alloc frame name ty kind).run c = .ok (v, { c with frames }) := by
  have hend : Yields (alloc frame name ty kind) c fun w d => w = v ∧ d = { c with frames } :=
    yields_alloc.mpr ⟨v, frames, h, rfl, rfl⟩
  obtain ⟨_, _, hrun, rfl, rfl⟩ := hend
  exact hrun

theorem yields_newFrame {name : String} {level : Nat} {parent : FrameId}
    {Q : FrameId → Checker → Prop} :
    Yields (newFrame name level parent) c Q ↔
      Q (c.frames.newFrame name level (some parent)).1
        { c with frames := (c.frames.newFrame name level (some parent)).2 } := yields_modifyGet

theorem yields_addFunction {p : Prototype} {Q : FunctionId → Checker → Prop} :
    Yields (addFunction p) c Q ↔
      Q (c.frames.addFunction p).1 { c with
        frames := (c.frames.addFunction p).2
        functions := c.functions.bind p.name (c.frames.addFunction p).1 } := yields_modifyGet

theorem yields_finalize {frame : FrameId} {Q : Unit → Checker → Prop} :
    Yields (finalize frame) c Q ↔
      ∃ frames, c.frames.finalize frame = .ok frames ∧ Q () { c with frames } := by
  unfold finalize
  simp only [yields_bind, yields_get, yields_lift, yields_set]

theorem exists_of_run_finalize {frame : FrameId} {u : Unit} {c' : Checker}
    (h : (finalize frame).run c = .ok (u, c')) :
    ∃ frames, c.frames.finalize frame = .ok frames ∧ c' = { c with frames } := by
  have hend : Yields (finalize frame) c fun _ d => d = c' := ⟨u, c', h, rfl⟩
  obtain ⟨frames, hfin, rfl⟩ := yields_finalize.mp hend
  exact ⟨frames, hfin, rfl⟩

/-! ## Types -/

theorem yields_newRecord {name : String} {fields : List Field} {Q : Ty → Checker → Prop} :
    Yields (newRecord name fields) c Q ↔
      Q (c.types.newRecord name fields).1 { c with types := (c.types.newRecord name fields).2 } :=
  yields_modifyGet

theorem yields_newArray {name : String} {element : Option Ty} {Q : Ty → Checker → Prop} :
    Yields (newArray name element) c Q ↔
      Q (c.types.newArray name element).1 { c with types := (c.types.newArray name element).2 } :=
  yields_modifyGet

theorem yields_setFields {id : RecordId} {fields : List Field} {Q : Unit → Checker → Prop} :
    Yields (setFields id fields) c Q ↔
      ∃ types, c.types.setFields id fields = .ok types ∧ Q () { c with types } := by
  unfold setFields
  simp only [yields_bind, yields_get, yields_lift, yields_set]

theorem yields_setElement {id : ArrayId} {element : Ty} {Q : Unit → Checker → Prop} :
    Yields (setElement id element) c Q ↔
      ∃ types, c.types.setElement id element = .ok types ∧ Q () { c with types } := by
  unfold setElement
  simp only [yields_bind, yields_get, yields_lift, yields_set]

theorem yields_sameType {s t : Ty} {Q : Bool → Checker → Prop} :
    Yields (sameType s t) c Q ↔ ∃ b, c.types.sameType s t = .ok b ∧ Q b c := by
  unfold sameType
  simp only [yields_bind, yields_get, yields_lift]

theorem yields_isMatch {s t : Ty} {Q : Bool → Checker → Prop} :
    Yields (isMatch s t) c Q ↔ ∃ b, c.types.isMatch (some s) (some t) = .ok b ∧ Q b c := by
  unfold isMatch
  simp only [yields_bind, yields_get, yields_lift]

theorem yields_namedType {id : NamedTypeId} {Q : NamedType → Checker → Prop} :
    Yields (namedType id) c Q ↔ ∃ t, c.namedTypes[id.index]? = some t ∧ Q t c := by
  unfold namedType
  simp only [yields_bind, yields_get, yields_lift, entry_eq_ok_iff]

/-- The state of a type name can be set where the name is in the table. -/
theorem yields_setNamedType {id : NamedTypeId} {t : NamedType} {Q : Unit → Checker → Prop} :
    Yields (setNamedType id t) c Q ↔ id.index < c.namedTypes.size ∧
      Q () { c with namedTypes := c.namedTypes.setIfInBounds id.index t } := by
  unfold setNamedType
  rw [yields_bind, yields_get]
  by_cases h : id.index < c.namedTypes.size
  · simp only [h, dif_pos, yields_set, true_and, Array.setIfInBounds]
  · simp only [h, dif_neg, not_false_eq_true, not_yields_throw, false_and]

end Check

end TigerCheck
