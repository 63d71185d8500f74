import TigerCheck.Ty.Arena

/-!
# What an arena holds under a type

The two tables of an arena are read through one function, which gives the *shape* of a composite type.
Creating an entry and completing one are then the same kind of step: one type gets a shape, and every
other type keeps its own.

* `Shape`, `Arena.shape`: the entry that a type names. `Arena.record?`, `Arena.element?`: its contents.
* `Arena.Has`: the handle of a type is in the arena. `Arena.Closed`: so are all handles in entries.
* `Arena.Puts`: an arena in which one type has a new shape.
* **`Arena.puts_newRecord`**, **`Arena.puts_setFields`**, and the same for arrays: the operations of an
  arena are such steps.
-/

namespace TigerCheck

/-- The entry of a composite type. -/
inductive Shape where
  | record (entry : RecordEntry)
  | array (entry : ArrayEntry)
deriving DecidableEq

/-- The types that stand in an entry. -/
def Shape.types : Shape → List Ty
  | record e => e.fields.map (·.ty)
  | array e => e.element.toList

namespace Arena

variable {a b d : Arena} {t u : Ty} {s : Shape}

/-- The entry that a type names, if it is a composite type with a handle in the arena. -/
def shape (a : Arena) : Ty → Option Shape
  | .record id => .record <$> a.records[id.index]?
  | .array id => .array <$> a.arrays[id.index]?
  | _ => none

/-- The handle of a type, if it has one, is in the arena. -/
def Has (a : Arena) : Ty → Prop
  | .record id => id.index < a.records.size
  | .array id => id.index < a.arrays.size
  | _ => True

instance (a : Arena) : (t : Ty) → Decidable (a.Has t)
  | .record id => inferInstanceAs (Decidable (id.index < a.records.size))
  | .array id => inferInstanceAs (Decidable (id.index < a.arrays.size))
  | .int | .string | .nil | .void | .frame _ => inferInstanceAs (Decidable True)

/-- Every handle that stands in an entry is in the arena. -/
def Closed (a : Arena) : Prop := ∀ t s, a.shape t = some s → ∀ u ∈ s.types, a.Has u

@[simp] theorem shape_record (id : RecordId) :
    a.shape (.record id) = .record <$> a.records[id.index]? := rfl

@[simp] theorem shape_array (id : ArrayId) :
    a.shape (.array id) = .array <$> a.arrays[id.index]? := rfl

theorem shape_eq_record_iff {e : RecordEntry} :
    a.shape t = some (.record e) ↔ ∃ id, t = .record id ∧ a.records[id.index]? = some e := by
  cases t <;> simp [shape]

theorem shape_eq_array_iff {e : ArrayEntry} :
    a.shape t = some (.array e) ↔ ∃ id, t = .array id ∧ a.arrays[id.index]? = some e := by
  cases t <;> simp [shape]

theorem has_of_shape (h : a.shape t = some s) : a.Has t := by
  cases t with
  | record id =>
    have h' : ∃ e, a.records[id.index]? = some e ∧ Shape.record e = s := by simpa [shape] using h
    obtain ⟨e, he, -⟩ := h'
    exact (Array.getElem?_eq_some_iff.mp he).1
  | array id =>
    have h' : ∃ e, a.arrays[id.index]? = some e ∧ Shape.array e = s := by simpa [shape] using h
    obtain ⟨e, he, -⟩ := h'
    exact (Array.getElem?_eq_some_iff.mp he).1
  | _ => trivial

theorem shape_record_of_has {id : RecordId} (h : a.Has (.record id)) :
    a.shape (.record id) = some (.record a.records[id.index]) := by
  simp [shape, Array.getElem?_eq_getElem h]

theorem shape_array_of_has {id : ArrayId} (h : a.Has (.array id)) :
    a.shape (.array id) = some (.array a.arrays[id.index]) := by
  simp [shape, Array.getElem?_eq_getElem h]

/-- A type of the arena has a shape, unless it has no handle at all. -/
theorem shape_or_plain (h : a.Has t) : (∃ s, a.shape t = some s) ∨ ∀ b : Arena, b.Has t := by
  cases t with
  | record id => exact Or.inl ⟨_, shape_record_of_has h⟩
  | array id => exact Or.inl ⟨_, shape_array_of_has h⟩
  | _ => exact Or.inr fun _ => trivial

/-! ## Reading an entry -/

/-- The record that a type names, if it is a record type of the arena. -/
def record? (a : Arena) (t : Ty) : Option RecordEntry :=
  match a.shape t with
  | some (.record e) => some e
  | _ => none

/-- The element of a type, if it is an array type with an element. -/
def element? (a : Arena) (t : Ty) : Option Ty :=
  match a.shape t with
  | some (.array e) => e.element
  | _ => none

theorem asRecord_eq (h : a.Has t) : a.asRecord t = .ok (a.record? t) := by
  cases t with
  | record id => rw [asRecord, record, entry_of_lt h, record?, shape_record_of_has h]; rfl
  | array id => rw [record?, shape_array_of_has h]; rfl
  | _ => rfl

theorem elementOf_eq (h : a.Has t) : a.elementOf t = .ok (a.element? t) := by
  cases t with
  | array id => rw [elementOf, array, entry_of_lt h, element?, shape_array_of_has h]; rfl
  | record id => rw [element?, shape_record_of_has h]; rfl
  | _ => rfl

theorem exists_of_asRecord {e : RecordEntry} (h : a.asRecord t = .ok (some e)) :
    ∃ id, t = .record id ∧ a.records[id.index]? = some e := by
  cases t with
  | record id =>
    refine ⟨id, rfl, ?_⟩
    simp only [asRecord, record, entry] at h
    cases he : a.records[id.index]? with
    | none =>
      rw [he] at h
      cases h
    | some e' =>
      rw [he] at h
      cases h
      rfl
  | _ => cases h

theorem exists_of_elementOf {u : Ty} (h : a.elementOf t = .ok (some u)) :
    ∃ id e, t = .array id ∧ a.arrays[id.index]? = some e ∧ e.element = some u := by
  cases t with
  | array id =>
    simp only [elementOf, array, entry] at h
    cases he : a.arrays[id.index]? with
    | none =>
      rw [he] at h
      cases h
    | some e =>
      rw [he] at h
      exact ⟨id, e, rfl, he, Except.ok.inj h⟩
  | _ => cases h

theorem record?_eq_some_iff {e : RecordEntry} :
    a.record? t = some e ↔ a.shape t = some (.record e) := by
  unfold record?
  split
  · next e' h => rw [h]; simp
  · next h =>
    constructor
    · rintro ⟨⟩
    · exact fun h' => absurd h' (h e)

/-- Every type of the arena has a name. -/
theorem display_total (h : a.Has t) : ∃ text, a.display t = .ok text := by
  cases t with
  | record id => exact ⟨_, by rw [display, record, entry_of_lt h]; rfl⟩
  | array id => exact ⟨_, by rw [display, array, entry_of_lt h]; rfl⟩
  | _ => exact ⟨_, rfl⟩

/-! ## Giving a type a shape -/

/-- In the second arena one type has a given shape, and every other type has the shape it had. -/
structure Puts (a : Arena) (t : Ty) (s : Shape) (b : Arena) : Prop where
  shape_eq : b.shape t = some s
  shape_ne : ∀ u, u ≠ t → b.shape u = a.shape u

theorem Puts.has (h : a.Puts t s b) (hu : a.Has u) : b.Has u := by
  rcases shape_or_plain hu with ⟨s', hs'⟩ | hp
  · by_cases hut : u = t
    · exact hut ▸ has_of_shape h.shape_eq
    · exact has_of_shape ((h.shape_ne u hut).trans hs')
  · exact hp b

theorem Puts.has_self (h : a.Puts t s b) : b.Has t := has_of_shape h.shape_eq

theorem Puts.closed (h : a.Puts t s b) (ha : a.Closed) (hs : ∀ u ∈ s.types, a.Has u) :
    b.Closed := by
  intro u s' hu v hv
  by_cases hut : u = t
  · subst hut
    rw [h.shape_eq] at hu
    cases hu
    exact h.has (hs v hv)
  · rw [h.shape_ne u hut] at hu
    exact h.has (ha u s' hu v hv)

theorem shape_newRecord_self (name : String) (fields : List Field) :
    a.shape (a.newRecord name fields).1 = none := by
  simp [newRecord]

theorem puts_newRecord (name : String) (fields : List Field) :
    a.Puts (a.newRecord name fields).1 (.record ⟨name, fields⟩) (a.newRecord name fields).2 where
  shape_eq := by simp [newRecord]
  shape_ne u hu := by
    cases u with
    | record id =>
      have hid : id.index ≠ a.records.size := fun h => hu (by simp [newRecord, ← h])
      simp [newRecord, Array.getElem?_push, hid]
    | _ => rfl

theorem shape_newArray_self (name : String) (element : Option Ty) :
    a.shape (a.newArray name element).1 = none := by
  simp [newArray]

theorem puts_newArray (name : String) (element : Option Ty) :
    a.Puts (a.newArray name element).1 (.array ⟨name, element⟩) (a.newArray name element).2 where
  shape_eq := by simp [newArray]
  shape_ne u hu := by
    cases u with
    | array id =>
      have hid : id.index ≠ a.arrays.size := fun h => hu (by simp [newArray, ← h])
      simp [newArray, Array.getElem?_push, hid]
    | _ => rfl

/-- Completing a record leaves its name. -/
theorem puts_setFields {id : RecordId} {e : RecordEntry} (fields : List Field)
    (h : a.shape (.record id) = some (.record e)) :
    ∃ b, a.setFields id fields = .ok b ∧
      a.Puts (.record id) (.record { e with fields := fields }) b := by
  have hid : id.index < a.records.size := has_of_shape h
  rw [shape_record_of_has hid] at h
  cases h
  refine ⟨_, dif_pos hid, ?_, ?_⟩
  · simp
  · intro u hu
    cases u with
    | record id' =>
      have hne : id.index ≠ id'.index := fun h => hu (by cases id; cases id'; simp_all)
      simp [hne]
    | _ => rfl

/-- Completing an array leaves its name, and an element that it has already. -/
theorem puts_setElement {id : ArrayId} {e : ArrayEntry} (element : Ty)
    (h : a.shape (.array id) = some (.array e)) :
    ∃ b, a.setElement id element = .ok b ∧
      a.Puts (.array id) (.array (e.offer element)) b := by
  have hid : id.index < a.arrays.size := has_of_shape h
  rw [shape_array_of_has hid] at h
  cases h
  refine ⟨_, dif_pos hid, ?_, ?_⟩
  · simp
  · intro u hu
    cases u with
    | array id' =>
      have hne : id.index ≠ id'.index := fun h => hu (by cases id; cases id'; simp_all)
      simp [hne]
    | _ => rfl

end Arena

end TigerCheck
