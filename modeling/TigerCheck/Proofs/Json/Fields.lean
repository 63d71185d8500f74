import TigerCheck.Proofs.Json.Structure

/-!
# Reading structures field by field

A reader finds exactly those of which a value is a way to write them, as long as the value is not nested too deeply.
If that holds of the readers of the parts, it holds of the reader of the structure.

* `Json.Reads`: what a reader finds. `Json.Reads.scalar`, `Json.Reads.items`: strings and numbers, and lists.
* `Json.FieldRead`: a part of a structure and what it takes to read it. `Json.FieldRead.required`,
  `Json.FieldRead.nullable`: parts that have to be there, and parts that a structure may lack.
* **`Json.structure_read`**: a structure is read part by part.
-/

namespace TigerCheck

namespace Json

variable {α : Type} {d : ℕ}

/-- Unless a value is nested too deeply, the reader finds what it is a way to write. What is found is fresh. -/
def Reads (f : Json → Option α) (fresh : α → Prop) (presents : α → Json → Prop) (d : ℕ) : Prop :=
  ∀ j, j.depth ≤ d → ∀ a, f j = some a ↔ fresh a ∧ presents a j

/-- A part of a structure, what it takes to read it from a field, and whether what is read is fresh. -/
structure FieldRead (d : ℕ) where
  part : Part
  Reads : Option Json → Prop
  Fresh : Prop
  iff : ∀ v : Option Json, (∀ j ∈ v, j.depth ≤ d) → (Reads v ↔ Fresh ∧ part.Takes v)

namespace FieldRead

/-- A part that has to be there. -/
def required {f : Json → Option α} {fresh : α → Prop} {presents : α → Json → Prop} (name : String)
    (h : Json.Reads f fresh presents d) (a : α) : FieldRead d where
  part := .required name (presents a)
  Reads v := v.bind f = some a
  Fresh := fresh a
  iff v hv := by
    cases v with
    | none => exact ⟨nofun, fun h => h.2.elim⟩
    | some j => exact h j (hv j rfl) a

/-- A part that the structure may lack. -/
def nullable {f : Json → Option α} {fresh : α → Prop} {presents : α → Json → Prop} (name : String)
    (h : Json.Reads f fresh presents d) (hnull : ∀ a, ¬presents a .null) (a : Option α) : FieldRead d where
  part := .nullable name (a.map presents)
  Reads v := optional? f v = some a
  Fresh := ∀ b ∈ a, fresh b
  iff v hv := by
    cases v with
    | none => cases a <;> simp [optional?, Part.nullable, Part.Takes]
    | some j =>
      by_cases hj : j = .null
      · subst hj
        cases a <;> simp [optional?, Part.nullable, Part.Takes, hnull]
      · have hoptional : optional? f (some j) = some <$> f j := by
          cases j with
          | null => exact absurd rfl hj
          | _ => rfl
        rw [hoptional]
        cases a with
        | none => simp [Part.nullable, Part.Takes, hj]
        | some a => simpa [Part.nullable, Part.Takes] using h j (hv j rfl) a

end FieldRead

/-- Conditions on the fields of a structure, one for each. -/
def Meets (conditions : List (Option Json → Prop)) (vs : List (Option Json)) : Prop :=
  List.Forall₂ (fun C v => C v) conditions vs

@[simp] theorem meets_nil {vs : List (Option Json)} : Meets [] vs ↔ vs = [] := List.forall₂_nil_left_iff

@[simp] theorem meets_cons {C : Option Json → Prop} {Cs : List (Option Json → Prop)} {vs : List (Option Json)} :
    Meets (C :: Cs) vs ↔ ∃ v ws, C v ∧ Meets Cs ws ∧ vs = v :: ws :=
  List.forall₂_cons_left_iff

theorem meets_iff (fs : List (FieldRead d)) {vs : List (Option Json)} (hvs : ∀ v ∈ vs, ∀ j ∈ v, j.depth ≤ d) :
    Meets (fs.map (·.Reads)) vs ↔ (∀ f ∈ fs, f.Fresh) ∧ List.Forall₂ Part.Takes (fs.map (·.part)) vs := by
  simp only [Meets, List.forall₂_map_left_iff]
  induction fs generalizing vs with
  | nil => simp
  | cons f fs ih =>
    cases vs with
    | nil => simp
    | cons v vs =>
      obtain ⟨hv, hvs⟩ := List.forall_mem_cons.mp hvs
      rw [List.forall₂_cons, List.forall₂_cons, List.forall_mem_cons, f.iff v hv, ih hvs, and_and_and_comm]

/-- **A structure is read part by part.** -/
theorem structure_read {j : Json} (names : List String) (fs : List (FieldRead d))
    (h : (fs.map (·.part)).map (·.name) = names) (hnames : names.Nodup) (hj : j.depth ≤ d + 1) :
    (∃ vs, j.fields? names = some vs ∧ Meets (fs.map (·.Reads)) vs) ↔
      (∀ f ∈ fs, f.Fresh) ∧ Structure (fs.map (·.part)) j := by
  have hshallow : ∀ vs, j.fields? names = some vs → ∀ v ∈ vs, ∀ w ∈ v, w.depth ≤ d := fun vs hvs v hv w hw => by
    have := depth_of_fields hvs v hv w hw
    omega
  rw [structure_iff h hnames]
  constructor
  · rintro ⟨vs, hvs, hmeets⟩
    obtain ⟨hfresh, htakes⟩ := (meets_iff fs (hshallow vs hvs)).mp hmeets
    exact ⟨hfresh, vs, hvs, htakes⟩
  · rintro ⟨hfresh, vs, hvs, htakes⟩
    exact ⟨vs, hvs, (meets_iff fs (hshallow vs hvs)).mpr ⟨hfresh, htakes⟩⟩

theorem Structure.ne_null {parts : List Part} : ¬Structure parts .null := nofun

/-- A structure is nested. -/
theorem Structure.depth_pos {parts : List Part} {j : Json} (h : Structure parts j) : 0 < j.depth := by
  cases h <;> exact Nat.succ_pos _

/-- Where something nested is to be read and nothing may be nested, nothing is found. -/
theorem Reads.of_pos {f : ℕ → Json → Option α} {fresh : α → Prop} {presents : α → Json → Prop}
    (hzero : ∀ j, f 0 j = none) (hpos : ∀ a j, presents a j → 0 < j.depth)
    (hsucc : ∀ d', d = d' + 1 → Reads (f (d' + 1)) fresh presents (d' + 1)) : Reads (f d) fresh presents d := by
  cases d with
  | zero =>
    intro j hj a
    rw [hzero]
    exact ⟨nofun, fun h => absurd (hpos a j h.2) (by omega)⟩
  | succ d => exact hsucc d rfl

/-! ## Strings, numbers and lists -/

/-- A reader of values without parts. -/
theorem Reads.scalar {f : Json → Option α} {write : α → Json} (h : ∀ j a, f j = some a ↔ j = write a) (d : ℕ) :
    Reads f (fun _ => True) (fun a j => j = write a) d :=
  fun j _ a => (h j a).trans (true_and _).symm.to_iff

theorem text?_eq_some (j : Json) (s : String) : j.text? = some s ↔ j = .str s := by
  cases j <;> simp [text?]

theorem word32?_eq_some (j : Json) (w : UInt32) : j.word32? = some w ↔ j = .nat w.toNat := by
  cases j with
  | int n =>
    rw [word32?, nat, int.injEq]
    constructor
    · intro h
      split_ifs at h with hn
      cases h
      obtain ⟨hle, hlt⟩ := hn
      rw [UInt32.toNat_ofNat_of_lt' (by omega), Int.toNat_of_nonneg hle]
    · rintro rfl
      rw [if_pos ⟨Int.natCast_nonneg _, Int.ofNat_lt.mpr w.toNat_lt⟩, Int.toNat_natCast, UInt32.ofNat_toNat]
  | null | bool | decimal | str | unpaired | arr | obj => simp [word32?, nat]

theorem word64?_eq_some (j : Json) (n : Int64) : j.word64? = some n ↔ j = .int n.toInt := by
  cases j with
  | int m =>
    rw [word64?, int.injEq]
    constructor
    · intro h
      split_ifs at h with hm
      cases h
      exact (Int64.toInt_ofInt_of_le hm.1 (Int.lt_of_le_of_lt hm.2 (by decide))).symm
    · rintro rfl
      rw [if_pos ⟨n.minValue_le_toInt, n.toInt_le⟩, Int64.ofInt_toInt]
  | null | bool | decimal | str | unpaired | arr | obj => simp [word64?]

theorem items_arr {presents : α → Json → Prop} {l : List α} {vs : List Json} :
    Items (l.map presents) (.arr vs) ↔ List.Forall₂ presents l vs := by
  rw [← List.forall₂_map_left_iff (R := fun (P : Json → Prop) v => P v) (f := presents)]
  constructor
  · rintro ⟨_, ⟨⟩, hvs⟩
    exact hvs
  · exact fun hvs => ⟨vs, rfl, hvs⟩

theorem Reads.mapM {f : Json → Option α} {fresh : α → Prop} {presents : α → Json → Prop}
    (h : Reads f fresh presents d) {vs : List Json} (hvs : depths vs ≤ d) (l : List α) :
    vs.mapM f = some l ↔ (∀ a ∈ l, fresh a) ∧ Items (l.map presents) (.arr vs) := by
  rw [mapM_eq_some_iff, items_arr]
  induction vs generalizing l with
  | nil => cases l <;> simp
  | cons v vs ih =>
    rw [depths, Nat.max_le] at hvs
    cases l with
    | nil => simp
    | cons a l =>
      rw [List.forall₂_cons, List.forall₂_cons, List.forall_mem_cons, and_and_and_comm]
      exact and_congr (h v hvs.1 a) (ih hvs.2 l)

/-- A list is read item by item. -/
theorem Reads.items {f : ℕ → Json → Option α} {g : ℕ → Json → Option (List α)} {fresh : α → Prop}
    {presents : α → Json → Prop}
    (hg : ∀ d j l, g d j = some l ↔ ∃ k vs, d = k + 1 ∧ j = .arr vs ∧ vs.mapM (f k) = some l)
    (h : ∀ k < d, Reads (f k) fresh presents k) :
    Reads (g d) (fun l => ∀ a ∈ l, fresh a) (fun l => Items (l.map presents)) d := by
  intro j hj l
  rw [hg]
  constructor
  · rintro ⟨k, vs, rfl, rfl, hl⟩
    exact ((h k (Nat.lt_succ_self k)).mapM (Nat.le_of_succ_le_succ hj) l).mp hl
  · rintro ⟨hfresh, hl⟩
    obtain ⟨vs, rfl, -⟩ := id hl
    obtain ⟨k, rfl⟩ : ∃ k, d = k + 1 := ⟨d - 1, by rw [depth] at hj; omega⟩
    exact ⟨k, vs, rfl, rfl, ((h k (Nat.lt_succ_self k)).mapM (Nat.le_of_succ_le_succ hj) l).mpr ⟨hfresh, hl⟩⟩

end Json

end TigerCheck
