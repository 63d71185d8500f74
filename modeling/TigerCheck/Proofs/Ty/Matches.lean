import TigerCheck.Proofs.Ty.Unfolding

/-!
# Matching types are interchangeable

Away from `nil`, two types match if they are the same or are records of one layout. Since types are the
same only for one reason each, this is an equivalence relation, and what is read out of a type, the
element of an array or a field of a record, is of the same type for two types that match. `nil` matches
every record and nothing else, so it has no place in the equivalence relation: through `nil`, any record
would match any other.

* `Arena.Interchangeable`: what matching comes to for types other than `nil`.
* `Arena.Interchangeable.symm`, `Arena.Interchangeable.trans`, `Arena.Matches.symm`.
* **`Arena.isMatch_lawful`**: the laws of the comparison that the checker makes.
-/

namespace TigerCheck

namespace Arena

variable {a : Arena} {s t u : Ty} {e f g : RecordEntry}

/-! ## Layouts -/

/-- Two records whose fields have the same types, position by position. -/
def Laid (a : Arena) (e f : RecordEntry) : Prop :=
  List.Forall₂ (fun x y => a.Same x.ty y.ty) e.fields f.fields

theorem Laid.refl (a : Arena) (e : RecordEntry) : a.Laid e e :=
  List.forall₂_same.mpr fun x _ => Same.refl a x.ty

theorem Laid.symm (h : a.Laid e f) : a.Laid f e :=
  (h.imp fun _ _ hxy => Same.symm hxy).flip

theorem laid_iff_getElem : a.Laid e f ↔ e.fields.length = f.fields.length ∧
    ∀ i (he : i < e.fields.length) (hf : i < f.fields.length),
      a.Same e.fields[i].ty f.fields[i].ty :=
  List.forall₂_iff_get

theorem Laid.trans (hef : a.Laid e f) (hfg : a.Laid f g) : a.Laid e g := by
  rw [laid_iff_getElem] at hef hfg ⊢
  refine ⟨hef.1.trans hfg.1, fun i he hg => ?_⟩
  have hf : i < f.fields.length := hef.1 ▸ he
  exact (hef.2 i he hf).trans (hfg.2 i hf hg)

/-! ## Matching away from `nil` -/

/-- Only an array is the same as a type other than itself. -/
theorem Same.eq_of_isArray (h : a.Same s t) (hs : s.isArray = false) : s = t := by
  cases h.step with
  | refl => rfl
  | elements hs' _ _ =>
    rw [isArray_of_element? hs'] at hs
    cases hs

/-- The same type, or two records of one layout. -/
def Interchangeable (a : Arena) (s t : Ty) : Prop :=
  a.Same s t ∨ ∃ e f, a.record? s = some e ∧ a.record? t = some f ∧ a.Laid e f

theorem isRecord_of_record? (h : a.record? t = some e) : ∃ id, t = .record id :=
  let ⟨id, hid, _⟩ := shape_eq_record_iff.mp (record?_eq_some_iff.mp h)
  ⟨id, hid⟩

/-- A record is the same as itself only. -/
theorem Same.eq_of_record? (h : a.Same s t) (hs : a.record? s = some e) : s = t := by
  obtain ⟨id, rfl⟩ := isRecord_of_record? hs
  exact h.eq_of_isArray rfl

theorem Interchangeable.refl (a : Arena) (t : Ty) : a.Interchangeable t t := Or.inl (Same.refl a t)

theorem Interchangeable.symm (h : a.Interchangeable s t) : a.Interchangeable t s := by
  rcases h with h | ⟨e, f, he, hf, hl⟩
  · exact Or.inl h.symm
  · exact Or.inr ⟨f, e, hf, he, hl.symm⟩

/-- A type between two records of one layout is a record of that layout, and a type between a record and
the same type is that record. -/
theorem Interchangeable.trans (hst : a.Interchangeable s t) (htu : a.Interchangeable t u) :
    a.Interchangeable s u := by
  rcases hst with hst | ⟨e, f, he, hf, hef⟩
  · rcases htu with htu | ⟨e, f, he, hf, hef⟩
    · exact Or.inl (hst.trans htu)
    · exact Or.inr ⟨e, f, hst.symm.eq_of_record? he ▸ he, hf, hef⟩
  · rcases htu with htu | ⟨f', g, hf', hg, hfg⟩
    · exact Or.inr ⟨e, f, he, htu.eq_of_record? hf ▸ hf, hef⟩
    · rw [hf, Option.some.injEq] at hf'
      subst hf'
      exact Or.inr ⟨e, g, he, hg, hef.trans hfg⟩

theorem matches_iff_interchangeable (hs : s ≠ .nil) (ht : t ≠ .nil) :
    a.Matches s t ↔ a.Interchangeable s t := by
  simp only [Matches, Interchangeable, Laid, record?_eq_some_iff, hs, ht, false_and, and_false,
    not_false_eq_true, true_and, false_or]

/-- Between arrays, which are no records, matching is being the same. -/
theorem interchangeable_array_iff {x y : ArrayId} :
    a.Interchangeable (.array x) (.array y) ↔ a.Same (.array x) (.array y) := by
  refine ⟨fun h => h.resolve_right ?_, Or.inl⟩
  rintro ⟨e, f, he, -, -⟩
  obtain ⟨id, hid⟩ := isRecord_of_record? he
  cases hid

/-- Between records, matching is having one layout. -/
theorem interchangeable_record_iff (hs : a.record? s = some e) (ht : a.record? t = some f) :
    a.Interchangeable s t ↔ a.Laid e f := by
  refine ⟨?_, fun h => Or.inr ⟨e, f, hs, ht, h⟩⟩
  rintro (h | ⟨e', f', he', hf', hl⟩)
  · obtain rfl := h.eq_of_record? hs
    rw [hs, Option.some.injEq] at ht
    exact ht ▸ Laid.refl a e
  · rw [hs, Option.some.injEq] at he'
    rw [ht, Option.some.injEq] at hf'
    exact he' ▸ hf' ▸ hl

/-! ## Matching with `nil` -/

theorem matches_nil_iff : a.Matches .nil t ↔ t.isRecord = true := by
  have hsame : a.Same .nil t ↔ t = .nil :=
    ⟨fun h => (h.eq_of_isArray rfl).symm, fun h => h ▸ Same.refl a _⟩
  cases t <;> simp [Matches, hsame, Ty.isRecord, shape]

theorem Matches.symm (h : a.Matches s t) : a.Matches t s := by
  obtain ⟨hnil, h⟩ := h
  refine ⟨fun h' => hnil h'.symm, ?_⟩
  rcases h with h | ⟨hs, ht⟩ | ⟨hs, ht⟩ | ⟨e, f, he, hf, hl⟩
  · exact Or.inl h.symm
  · exact Or.inr (Or.inr (Or.inl ⟨ht, hs⟩))
  · exact Or.inr (Or.inl ⟨ht, hs⟩)
  · exact Or.inr (Or.inr (Or.inr ⟨f, e, hf, he, Laid.symm hl⟩))

/-! ## The comparison -/

theorem Closed.isMatch_eq_true_iff (ha : a.Closed) (hs : a.Has s) (ht : a.Has t) :
    a.isMatch (some s) (some t) = .ok true ↔ a.Matches s t := by
  obtain ⟨b, hb, hiff⟩ := isMatch_spec ha hs ht
  rw [hb, Except.ok.injEq, hiff]

theorem isMatch_none_right (a : Arena) (t : Option Ty) : a.isMatch t none = .ok false := by
  cases t <;> rfl

/-- Comparisons with one meaning have one answer. -/
theorem Closed.isMatch_comm (ha : a.Closed) (hs : a.Has s) (ht : a.Has t) :
    a.isMatch (some s) (some t) = a.isMatch (some t) (some s) := by
  obtain ⟨b, hb, hiff⟩ := isMatch_spec ha hs ht
  obtain ⟨b', hb', hiff'⟩ := isMatch_spec ha ht hs
  rw [hb, hb', Bool.eq_iff_iff.mpr (hiff.trans ((⟨Matches.symm, Matches.symm⟩ : _ ↔ _).trans hiff'.symm))]

theorem Closed.isMatch_nil (ha : a.Closed) (ht : a.Has t) :
    a.isMatch (some .nil) (some t) = .ok t.isRecord := by
  obtain ⟨b, hb, hiff⟩ := isMatch_spec (s := .nil) ha trivial ht
  rw [hb, Bool.eq_iff_iff.mpr (hiff.trans matches_nil_iff)]

theorem Closed.isMatch_iff_interchangeable (ha : a.Closed) (hs : a.Has s) (ht : a.Has t)
    (hsn : s ≠ .nil) (htn : t ≠ .nil) :
    a.isMatch (some s) (some t) = .ok true ↔ a.Interchangeable s t :=
  (ha.isMatch_eq_true_iff hs ht).trans (matches_iff_interchangeable hsn htn)

/-- **Matching is a lawful comparison.** In an arena with all its handles in range, and for types whose
handles are in it: the comparison has an answer and does not depend on the order of its sides; a type
that could not be found matches nothing, and `nil` matches just the records; among the other types it
is an equivalence relation that holds of the same types; arrays that have elements match just if the
elements are the same; and records match just if they have the same number of fields, of the same type
at every position. -/
theorem isMatch_lawful (a : Arena) (ha : a.Closed) :
    (∀ s t : Option Ty, (∀ v ∈ s, a.Has v) → (∀ v ∈ t, a.Has v) → ∃ b, a.isMatch s t = .ok b) ∧
    (∀ s t : Option Ty, (∀ v ∈ s, a.Has v) → (∀ v ∈ t, a.Has v) → a.isMatch s t = a.isMatch t s) ∧
    (∀ t, a.isMatch none t = .ok false ∧ a.isMatch t none = .ok false) ∧
    (∀ t, a.Has t → a.isMatch (some .nil) (some t) = .ok t.isRecord) ∧
    ((∀ t, a.Has t → t ≠ .nil → a.isMatch (some t) (some t) = .ok true) ∧
      (∀ s t u, a.Has s → a.Has t → a.Has u → s ≠ .nil → t ≠ .nil → u ≠ .nil →
        a.isMatch (some s) (some t) = .ok true → a.isMatch (some t) (some u) = .ok true →
        a.isMatch (some s) (some u) = .ok true) ∧
      ∀ s t, a.Has s → a.Has t → s ≠ .nil → a.sameType s t = .ok true →
        a.isMatch (some s) (some t) = .ok true) ∧
    (∀ x y s t, a.element? (.array x) = some s → a.element? (.array y) = some t →
      (a.isMatch (some (.array x)) (some (.array y)) = .ok true ↔ a.sameType s t = .ok true)) ∧
    ∀ s t e f, a.record? s = some e → a.record? t = some f →
      (a.isMatch (some s) (some t) = .ok true ↔ e.fields.length = f.fields.length ∧
        ∀ i (he : i < e.fields.length) (hf : i < f.fields.length),
          a.sameType e.fields[i].ty f.fields[i].ty = .ok true) := by
  refine ⟨?_, ?_, fun t => ⟨rfl, isMatch_none_right a t⟩, fun t ht => ha.isMatch_nil ht,
    ⟨?_, ?_, ?_⟩, ?_, ?_⟩
  · intro s t hs ht
    cases s with
    | none => exact ⟨false, rfl⟩
    | some s =>
      cases t with
      | none => exact ⟨false, rfl⟩
      | some t =>
        obtain ⟨b, hb, -⟩ := isMatch_spec ha (hs s rfl) (ht t rfl)
        exact ⟨b, hb⟩
  · intro s t hs ht
    cases s with
    | none => exact (isMatch_none_right a t).symm
    | some s =>
      cases t with
      | none => rfl
      | some t => exact ha.isMatch_comm (hs s rfl) (ht t rfl)
  · exact fun t ht htn => (ha.isMatch_iff_interchangeable ht ht htn htn).mpr (.refl a t)
  · intro s t u hs ht hu hsn htn hun hst htu
    rw [ha.isMatch_iff_interchangeable hs ht hsn htn] at hst
    rw [ha.isMatch_iff_interchangeable ht hu htn hun] at htu
    exact (ha.isMatch_iff_interchangeable hs hu hsn hun).mpr (hst.trans htu)
  · intro s t hs ht hsn hst
    rw [ha.linked.sameType_eq_true_iff hs ht] at hst
    exact (ha.isMatch_eq_true_iff hs ht).mpr ⟨fun h => hsn h.1, Or.inl hst⟩
  · intro x y s t hx hy
    rw [ha.isMatch_iff_interchangeable (has_of_element? hx) (has_of_element? hy) nofun nofun,
      interchangeable_array_iff, same_iff_same_elements hx hy,
      ha.linked.sameType_eq_true_iff (has_element? ha hx) (has_element? ha hy)]
  · intro s t e f he hf
    have hfield : ∀ {v : Ty} {g : RecordEntry}, a.record? v = some g → ∀ x ∈ g.fields, a.Has x.ty :=
      fun hg x hx => ha _ _ (record?_eq_some_iff.mp hg) x.ty (List.mem_map_of_mem hx)
    obtain ⟨x, rfl⟩ := isRecord_of_record? he
    obtain ⟨y, rfl⟩ := isRecord_of_record? hf
    rw [ha.isMatch_iff_interchangeable (has_of_shape (record?_eq_some_iff.mp he))
      (has_of_shape (record?_eq_some_iff.mp hf)) nofun nofun, interchangeable_record_iff he hf,
      laid_iff_getElem]
    refine and_congr_right fun _ => forall₃_congr fun i hi hi' => ?_
    exact (ha.linked.sameType_eq_true_iff (hfield he _ (List.getElem_mem hi))
      (hfield hf _ (List.getElem_mem hi'))).symm

theorem closed_of_entries (hr : ∀ e ∈ a.records, ∀ f ∈ e.fields, a.Has f.ty)
    (ha : ∀ e ∈ a.arrays, ∀ u ∈ e.element, a.Has u) : a.Closed := by
  rintro t (e | e) he u hu
  · obtain ⟨id, -, hid⟩ := shape_eq_record_iff.mp he
    obtain ⟨f, hf, rfl⟩ := List.mem_map.mp hu
    exact hr e (Array.mem_of_getElem? hid) f hf
  · obtain ⟨id, -, hid⟩ := shape_eq_array_iff.mp he
    exact ha e (Array.mem_of_getElem? hid) u (Option.mem_toList.mp hu)

/-- Three records that hold an array out of two circles, each under a name of its own, and one that
holds an integer. -/
def holders : Arena :=
  { circles with
    records := #[⟨"even", [⟨"row", .array ⟨0⟩⟩]⟩, ⟨"first", [⟨"line", .array ⟨2⟩⟩]⟩,
      ⟨"second", [⟨"column", .array ⟨3⟩⟩]⟩, ⟨"point", [⟨"x", .int⟩]⟩] }

/-- The first three of the records match one another by way of the second, since the arrays in them have
one unfolding; the last matches none of them, though `nil` matches all. -/
theorem holders_match : holders.Closed ∧
    holders.isMatch (some (.record ⟨0⟩)) (some (.record ⟨2⟩)) = .ok true ∧
    holders.isMatch (some (.record ⟨2⟩)) (some (.record ⟨0⟩)) = .ok true ∧
    holders.isMatch (some .nil) (some (.record ⟨3⟩)) = .ok true ∧
    holders.isMatch (some (.record ⟨0⟩)) (some (.record ⟨3⟩)) ≠ .ok true := by
  have hc : holders.Closed := closed_of_entries (by decide) (by decide)
  obtain ⟨-, hsymm, -, hnil, ⟨-, htrans, -⟩, -, hrecord⟩ := isMatch_lawful holders hc
  have h : holders.isMatch (some (.record ⟨0⟩)) (some (.record ⟨2⟩)) = .ok true :=
    htrans _ (.record ⟨1⟩) _ (by decide) (by decide) (by decide) nofun nofun nofun
      (by decide) (by decide)
  refine ⟨hc, h, ?_, hnil _ (by decide), fun hne => ?_⟩
  · rw [← h]
    exact hsymm _ _ (by decide) (by decide)
  · have hfield := ((hrecord _ _ _ _ rfl rfl).mp hne).2 0 (by decide) (by decide)
    exact absurd hfield (by decide)

end Arena

end TigerCheck
