import TigerCheck.Proofs.Ty.Same

/-!
# Renaming types

The checker numbers records and arrays in the order in which it comes to them. Renaming them does not
change what is the same and what matches, as long as different handles get different names.

* `Renaming`, `Ty.rename`, `Shape.rename`: new names for the handles of an arena.
* `Renaming.Fits`: different handles get different names below a bound.
* `Renaming.Agrees`: two renamings agree on the handles of an arena.
* `Arena.Embeds`: an arena is found in another one under new names.
* **`Arena.Embeds.same_iff`**, **`Arena.Embeds.matches_iff`**: the comparisons do not change.
* **`Arena.exists_embeds`**: there is an arena with the new names.
-/

namespace TigerCheck

/-- New names for the records and the arrays of an arena. -/
structure Renaming where
  record : ℕ → ℕ
  array : ℕ → ℕ

/-- A type under new names. -/
def Ty.rename (ν : Renaming) : Ty → Ty
  | .record id => .record ⟨ν.record id.index⟩
  | .array id => .array ⟨ν.array id.index⟩
  | .int => .int
  | .string => .string
  | .nil => .nil
  | .void => .void
  | .frame id => .frame id

def Field.rename (ν : Renaming) (f : Field) : Field := { f with ty := f.ty.rename ν }

def RecordEntry.rename (ν : Renaming) (e : RecordEntry) : RecordEntry :=
  { e with fields := e.fields.map (·.rename ν) }

def ArrayEntry.rename (ν : Renaming) (e : ArrayEntry) : ArrayEntry :=
  { e with element := e.element.map (·.rename ν) }

def Shape.rename (ν : Renaming) : Shape → Shape
  | record e => .record (e.rename ν)
  | array e => .array (e.rename ν)

def Signature.rename (ν : Renaming) (s : Signature) : Signature :=
  ⟨s.params.map (·.rename ν), s.result.rename ν⟩

namespace Ty

variable {ν : Renaming} {t : Ty}

@[simp] theorem rename_int : Ty.int.rename ν = .int := rfl

@[simp] theorem rename_void : Ty.void.rename ν = .void := rfl

@[simp] theorem rename_eq_int_iff : t.rename ν = .int ↔ t = .int := by cases t <;> simp [rename]

@[simp] theorem rename_eq_void_iff : t.rename ν = .void ↔ t = .void := by cases t <;> simp [rename]

@[simp] theorem rename_eq_nil_iff : t.rename ν = .nil ↔ t = .nil := by cases t <;> simp [rename]

@[simp] theorem isNil_rename : (t.rename ν).isNil = t.isNil := by cases t <;> rfl

@[simp] theorem isRecord_rename : (t.rename ν).isRecord = t.isRecord := by cases t <;> rfl

end Ty

/-- Different handles of an arena get different names, all of them below a bound. -/
structure Renaming.Fits (ν : Renaming) (a : Arena) (n : ℕ) : Prop where
  record_lt : ∀ i < a.records.size, ν.record i < n
  array_lt : ∀ i < a.arrays.size, ν.array i < n
  record_inj : ∀ i < a.records.size, ∀ j < a.records.size, ν.record i = ν.record j → i = j
  array_inj : ∀ i < a.arrays.size, ∀ j < a.arrays.size, ν.array i = ν.array j → i = j

/-- Two renamings agree on the handles of an arena. -/
structure Renaming.Agrees (ν ν' : Renaming) (a : Arena) : Prop where
  record_eq : ∀ i < a.records.size, ν'.record i = ν.record i
  array_eq : ∀ i < a.arrays.size, ν'.array i = ν.array i

/-- An arena is found in another one under new names. -/
def Arena.Embeds (a : Arena) (ν : Renaming) (b : Arena) : Prop :=
  ∀ t s, a.shape t = some s → b.shape (t.rename ν) = some (s.rename ν)

variable {ν ν' ν'' : Renaming} {a a' b : Arena} {n m : ℕ} {s t : Ty}

namespace Renaming

theorem Agrees.refl (ν : Renaming) (a : Arena) : ν.Agrees ν a := ⟨fun _ _ => rfl, fun _ _ => rfl⟩

theorem Agrees.rename_eq (h : ν.Agrees ν' a) (ht : a.Has t) : t.rename ν' = t.rename ν := by
  cases t with
  | record id => rw [Ty.rename, Ty.rename, h.record_eq _ ht]
  | array id => rw [Ty.rename, Ty.rename, h.array_eq _ ht]
  | _ => rfl

theorem Agrees.map_rename_eq {ts : List Ty} (h : ν.Agrees ν' a) (hts : ∀ t ∈ ts, a.Has t) :
    ts.map (·.rename ν') = ts.map (·.rename ν) :=
  List.map_congr_left fun t ht => h.rename_eq (hts t ht)

theorem Agrees.signature_eq {sig : Signature} (h : ν.Agrees ν' a) (hp : ∀ t ∈ sig.params, a.Has t)
    (hr : a.Has sig.result) : sig.rename ν' = sig.rename ν := by
  rw [Signature.rename, Signature.rename, h.map_rename_eq hp, h.rename_eq hr]

theorem Agrees.trans (h : ν.Agrees ν' a) (h' : ν'.Agrees ν'' a') (hle : ∀ t, a.Has t → a'.Has t) :
    ν.Agrees ν'' a :=
  ⟨fun i hi => (h'.record_eq i (hle (.record ⟨i⟩) hi)).trans (h.record_eq i hi),
    fun i hi => (h'.array_eq i (hle (.array ⟨i⟩) hi)).trans (h.array_eq i hi)⟩

theorem Agrees.shape_eq {e : Shape} (h : ν.Agrees ν' a) (he : ∀ t ∈ e.types, a.Has t) :
    e.rename ν' = e.rename ν := by
  cases e with
  | record e =>
    have hfields : e.fields.map (·.rename ν') = e.fields.map (·.rename ν) := by
      refine List.map_congr_left fun f hf => ?_
      rw [Field.rename, Field.rename, h.rename_eq (he f.ty (List.mem_map_of_mem hf))]
    rw [Shape.rename, Shape.rename, RecordEntry.rename, RecordEntry.rename, hfields]
  | array e =>
    have helement : e.element.map (·.rename ν') = e.element.map (·.rename ν) := by
      refine Option.map_congr fun t ht => h.rename_eq (he t ?_)
      rw [Shape.types, Option.mem_toList]
      exact ht
    rw [Shape.rename, Shape.rename, ArrayEntry.rename, ArrayEntry.rename, helement]

/-- Types with one new name are one type. -/
theorem Fits.rename_inj (h : ν.Fits a n) (hs : a.Has s) (ht : a.Has t)
    (heq : s.rename ν = t.rename ν) : s = t := by
  cases s with
  | record i =>
    cases t with
    | record j =>
      obtain ⟨i⟩ := i
      obtain ⟨j⟩ := j
      simp only [Ty.rename, Ty.record.injEq, RecordId.mk.injEq] at heq
      rw [h.record_inj i hs j ht heq]
    | _ => cases heq
  | array i =>
    cases t with
    | array j =>
      obtain ⟨i⟩ := i
      obtain ⟨j⟩ := j
      simp only [Ty.rename, Ty.array.injEq, ArrayId.mk.injEq] at heq
      rw [h.array_inj i hs j ht heq]
    | _ => cases heq
  | _ => cases t <;> first | exact heq | cases heq

end Renaming

namespace Arena

/-- A type without an entry has none under a new name either, if its handle is in the arena. -/
theorem shape_rename_eq_none (ht : a.Has t) (h : a.shape t = none) (b : Arena) :
    b.shape (t.rename ν) = none := by
  cases t with
  | record id =>
    rw [shape_record_of_has ht] at h
    cases h
  | array id =>
    rw [shape_array_of_has ht] at h
    cases h
  | _ => rfl

namespace Embeds

theorem shape_rename (h : a.Embeds ν b) (ht : a.Has t) :
    b.shape (t.rename ν) = (a.shape t).map (·.rename ν) := by
  cases hs : a.shape t with
  | none => exact shape_rename_eq_none ht hs b
  | some s => exact h t s hs

theorem element?_rename (h : a.Embeds ν b) (ht : a.Has t) :
    b.element? (t.rename ν) = (a.element? t).map (·.rename ν) := by
  rw [element?, element?, h.shape_rename ht]
  cases a.shape t with
  | none => rfl
  | some s => cases s <;> rfl

theorem record?_rename (h : a.Embeds ν b) (ht : a.Has t) :
    b.record? (t.rename ν) = (a.record? t).map (·.rename ν) := by
  rw [record?, record?, h.shape_rename ht]
  cases a.shape t with
  | none => rfl
  | some s => cases s <;> rfl

/-- What is found in an arena under new names is found of each earlier state of the arena. -/
theorem mono (h : a'.Embeds ν' b) (hag : ν.Agrees ν' a) (ha : a.Closed)
    (hle : ∀ t s, a.shape t = some s → a'.shape t = some s) : a.Embeds ν b := by
  intro t s hs
  rw [← hag.rename_eq (has_of_shape hs), ← hag.shape_eq (ha t s hs)]
  exact h t s (hle t s hs)

/-- **Two types are the same under new names exactly if they are the same.** -/
theorem same_iff (h : a.Embeds ν b) (hν : ν.Fits a n) (ha : a.Closed) (hs : a.Has s) (ht : a.Has t) :
    b.Same (s.rename ν) (t.rename ν) ↔ a.Same s t := by
  constructor
  · rintro ⟨R, hR, hstep⟩
    refine ⟨fun u v => a.Has u ∧ a.Has v ∧ R (u.rename ν) (v.rename ν), ⟨hs, ht, hR⟩, ?_⟩
    rintro u v ⟨hu, hv, huv⟩
    have hcases := hstep _ _ huv
    generalize hu' : u.rename ν = u' at hcases
    generalize hv' : v.rename ν = v' at hcases
    cases hcases with
    | refl =>
      rw [hν.rename_inj hu hv (hu'.trans hv'.symm)]
      exact .refl v
    | elements he hf hr =>
      rw [← hu', h.element?_rename hu] at he
      rw [← hv', h.element?_rename hv] at hf
      obtain ⟨x, hx, rfl⟩ := Option.map_eq_some_iff.mp he
      obtain ⟨y, hy, rfl⟩ := Option.map_eq_some_iff.mp hf
      exact .elements hx hy ⟨has_element? ha hx, has_element? ha hy, hr⟩
  · rintro ⟨R, hR, hstep⟩
    refine ⟨fun u v => ∃ x y, a.Has x ∧ a.Has y ∧ R x y ∧ u = x.rename ν ∧ v = y.rename ν,
      ⟨s, t, hs, ht, hR, rfl, rfl⟩, ?_⟩
    rintro _ _ ⟨x, y, hx, hy, hxy, rfl, rfl⟩
    cases hstep x y hxy with
    | refl => exact .refl _
    | @elements _ x' y' he hf hr =>
      have he' : b.element? (x.rename ν) = some (x'.rename ν) := by
        rw [h.element?_rename hx, he]
        rfl
      have hf' : b.element? (y.rename ν) = some (y'.rename ν) := by
        rw [h.element?_rename hy, hf]
        rfl
      exact .elements he' hf' ⟨x', y', has_element? ha he, has_element? ha hf, hr, rfl, rfl⟩

/-- **Two types match under new names exactly if they match.** -/
theorem matches_iff (h : a.Embeds ν b) (hν : ν.Fits a n) (ha : a.Closed) (hs : a.Has s)
    (ht : a.Has t) : b.Matches (s.rename ν) (t.rename ν) ↔ a.Matches s t := by
  have hfields : (∃ e f, b.shape (s.rename ν) = some (.record e) ∧
        b.shape (t.rename ν) = some (.record f) ∧
        List.Forall₂ (fun x y => b.Same x.ty y.ty) e.fields f.fields) ↔
      ∃ e f, a.shape s = some (.record e) ∧ a.shape t = some (.record f) ∧
        List.Forall₂ (fun x y => a.Same x.ty y.ty) e.fields f.fields := by
    have hsame : ∀ e f : RecordEntry, a.shape s = some (.record e) → a.shape t = some (.record f) →
        (List.Forall₂ (fun x y => b.Same x.ty y.ty) (e.rename ν).fields (f.rename ν).fields ↔
          List.Forall₂ (fun x y => a.Same x.ty y.ty) e.fields f.fields) := by
      intro e f he hf
      rw [RecordEntry.rename, RecordEntry.rename, List.forall₂_map_left_iff,
        List.forall₂_map_right_iff, List.forall₂_iff_zip, List.forall₂_iff_zip]
      refine and_congr_right fun _ => forall_congr' fun x => forall_congr' fun y =>
        forall_congr' fun hxy => ?_
      have hx := ha s _ he x.ty (List.mem_map_of_mem (List.of_mem_zip hxy).1)
      have hy := ha t _ hf y.ty (List.mem_map_of_mem (List.of_mem_zip hxy).2)
      exact h.same_iff hν ha hx hy
    constructor
    · rintro ⟨e', f', he', hf', hall⟩
      rw [h.shape_rename hs] at he'
      rw [h.shape_rename ht] at hf'
      obtain ⟨e, he, hee⟩ := Option.map_eq_some_iff.mp he'
      obtain ⟨f, hf, hff⟩ := Option.map_eq_some_iff.mp hf'
      cases e with
      | array e => cases hee
      | record e =>
        cases f with
        | array f => cases hff
        | record f =>
          cases hee
          cases hff
          exact ⟨e, f, he, hf, (hsame e f he hf).mp hall⟩
    · rintro ⟨e, f, he, hf, hall⟩
      exact ⟨e.rename ν, f.rename ν, h s _ he, h t _ hf, (hsame e f he hf).mpr hall⟩
  rw [Matches, Matches, hfields, h.same_iff hν ha hs ht]
  simp only [Ty.rename_eq_nil_iff, Ty.isRecord_rename]

end Embeds

/-- The entries of a table can be moved to different places below a bound. -/
theorem exists_moved {α : Type} (xs : Array α) {f : ℕ → ℕ} {n : ℕ} (hlt : ∀ i < xs.size, f i < n)
    (hinj : ∀ i < xs.size, ∀ j < xs.size, f i = f j → i = j) (g : α → α) (filler : α) :
    ∃ ys : Array α, ∀ i x, xs[i]? = some x → ys[f i]? = some (g x) := by
  classical
  let moved : Fin n → α := fun k =>
    if h : ∃ i x, xs[i]? = some x ∧ f i = k then g h.choose_spec.choose else filler
  refine ⟨Array.ofFn moved, fun i x hx => ?_⟩
  obtain ⟨hi, -⟩ := Array.getElem?_eq_some_iff.mp hx
  have hk := hlt i hi
  rw [Array.getElem?_ofFn, dif_pos hk]
  have hex : ∃ j y, xs[j]? = some y ∧ f j = f i := ⟨i, x, hx, rfl⟩
  obtain ⟨hy, hj⟩ := hex.choose_spec.choose_spec
  obtain ⟨hjlt, -⟩ := Array.getElem?_eq_some_iff.mp hy
  have hji := hinj _ hjlt i hi hj
  have hyx : ∀ j y, j = i → xs[j]? = some y → y = x := by
    rintro j y rfl hjy
    exact Option.some.inj (hjy.symm.trans hx)
  have hmoved : moved ⟨f i, hk⟩ = g hex.choose_spec.choose := dif_pos hex
  rw [hmoved, hyx _ _ hji hy]

/-- **There is an arena with the new names.** -/
theorem exists_embeds (hν : ν.Fits a n) : ∃ b, a.Embeds ν b := by
  obtain ⟨records, hrecords⟩ := exists_moved a.records hν.record_lt hν.record_inj
    (·.rename ν) ⟨"", []⟩
  obtain ⟨arrays, harrays⟩ := exists_moved a.arrays hν.array_lt hν.array_inj
    (·.rename ν) ⟨"", none⟩
  refine ⟨⟨records, arrays⟩, fun t s hs => ?_⟩
  cases s with
  | record e =>
    obtain ⟨id, rfl, he⟩ := shape_eq_record_iff.mp hs
    exact shape_eq_record_iff.mpr ⟨_, rfl, hrecords id.index e he⟩
  | array e =>
    obtain ⟨id, rfl, he⟩ := shape_eq_array_iff.mp hs
    exact shape_eq_array_iff.mpr ⟨_, rfl, harrays id.index e he⟩

end Arena

end TigerCheck
