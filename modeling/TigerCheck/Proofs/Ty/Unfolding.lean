import TigerCheck.Proofs.Ty.Same

/-!
# Equal types have equal unfoldings

An array type unfolds into its element, and again if that is an array: an infinite list of types for
a chain of arrays that runs into a circle. The comparison of types tells whether two unfoldings go
different ways at some depth. It is an equivalence relation, also in an arena where some array has no
element yet.

* `Arena.Same.symm`, `Arena.Same.trans`, `Arena.same_iff_sameStep`: being the same is an equivalence
  relation, and is settled by one step.
* `Arena.peel`: two types after their elements were taken a number of times. `Ty.Alike`: what a step of
  the comparison sees.
* **`Arena.sameType_unfolding`**: the comparison always has an answer, is an equivalence relation, and
  says whether all that is left of two types at any depth is alike.
-/

namespace TigerCheck

/-- Two arrays, or one type that is not an array. -/
def Ty.Alike (s t : Ty) : Prop :=
  s.isArray = true ∧ t.isArray = true ∨ s.isArray = false ∧ s = t

theorem Ty.Alike.refl (t : Ty) : t.Alike t := by
  cases h : t.isArray with
  | true => exact Or.inl ⟨h, h⟩
  | false => exact Or.inr ⟨h, rfl⟩

namespace Arena

variable {a : Arena} {s t u s' t' : Ty}

/-! ## One step of the relation -/

/-- The same types are related by one step into the same types. -/
theorem Same.step (h : a.Same s t) : SameStep a a.Same s t := by
  obtain ⟨R, hst, hR⟩ := h
  exact (hR s t hst).mono fun u v huv => ⟨R, huv, hR⟩

theorem same_iff_sameStep : a.Same s t ↔ SameStep a a.Same s t := by
  refine ⟨Same.step, fun h => ⟨fun u v => SameStep a a.Same u v, h, fun u v huv => ?_⟩⟩
  exact huv.mono fun _ _ => Same.step

theorem Same.symm (h : a.Same s t) : a.Same t s := by
  refine ⟨fun u v => a.Same v u, h, fun u v huv => ?_⟩
  cases huv.step with
  | refl => exact .refl _
  | elements hv hu hr => exact .elements hu hv hr

/-- The relation that leads from one type to another by way of a third is closed under steps, since an
array has one element. -/
theorem Same.trans (hst : a.Same s t) (htu : a.Same t u) : a.Same s u := by
  refine ⟨fun v w => ∃ m, a.Same v m ∧ a.Same m w, ⟨t, hst, htu⟩, ?_⟩
  rintro v w ⟨m, hvm, hmw⟩
  cases hvm.step with
  | refl => exact hmw.step.mono fun x y hxy => ⟨x, Same.refl a x, hxy⟩
  | elements hv hm hr =>
    cases hmw.step with
    | refl => exact .elements hv hm ⟨_, hr, Same.refl a _⟩
    | elements hm' hw hr' =>
      rw [hm, Option.some.injEq] at hm'
      subst hm'
      exact .elements hv hw ⟨_, hr, hr'⟩

/-- Arrays are the same just if their elements are. -/
theorem same_iff_same_elements (hs : a.element? s = some s') (ht : a.element? t = some t') :
    a.Same s t ↔ a.Same s' t' := by
  constructor
  · intro h
    cases h.step with
    | refl =>
      rw [hs, Option.some.injEq] at ht
      exact ht ▸ Same.refl a s'
    | elements hs₁ ht₁ hr =>
      rw [hs, Option.some.injEq] at hs₁
      rw [ht, Option.some.injEq] at ht₁
      rwa [hs₁, ht₁]
  · exact fun h => same_iff_sameStep.mpr (.elements hs ht h)

/-! ## Unfolding two types side by side -/

/-- Two types after the element of each was taken `n` times, or fewer if one of them came to have
none. -/
def peel (a : Arena) : Nat → Ty → Ty → Ty × Ty
  | 0, s, t => (s, t)
  | n + 1, s, t =>
    match a.element? s, a.element? t with
    | some s', some t' => a.peel n s' t'
    | _, _ => (s, t)

/-- What is left of two types at every depth is alike. -/
def Unfold (a : Arena) (s t : Ty) : Prop := ∀ n, (a.peel n s t).1.Alike (a.peel n s t).2

theorem peel_succ_of_elements (n : Nat) (hs : a.element? s = some s') (ht : a.element? t = some t') :
    a.peel (n + 1) s t = a.peel n s' t' := by
  rw [peel, hs, ht]

theorem peel_self (a : Arena) (n : Nat) (t : Ty) : (a.peel n t t).1 = (a.peel n t t).2 := by
  induction n generalizing t with
  | zero => rfl
  | succ n ih =>
    cases ht : a.element? t with
    | none => simp only [peel, ht]
    | some t' => rw [peel_succ_of_elements n ht ht, ih]

theorem isArray_of_element? (h : a.element? t = some u) : t.isArray = true := by
  cases t with
  | array id => rfl
  | _ => simp [element?, shape] at h

/-- The unfoldings of the same types never part. -/
theorem Same.peel_alike (n : Nat) : ∀ {s t : Ty}, a.Same s t → (a.peel n s t).1.Alike (a.peel n s t).2 := by
  induction n with
  | zero =>
    intro s t h
    cases h.step with
    | refl => exact Ty.Alike.refl s
    | elements hs ht _ => exact Or.inl ⟨isArray_of_element? hs, isArray_of_element? ht⟩
  | succ n ih =>
    intro s t h
    cases h.step with
    | refl => rw [← peel_self]; exact Ty.Alike.refl _
    | elements hs ht hr => rw [peel_succ_of_elements n hs ht]; exact ih hr

theorem has_of_element? (h : a.element? t = some u) : a.Has t := by
  cases ht : a.shape t with
  | none => simp [element?, ht] at h
  | some s => exact has_of_shape ht

theorem linked_of_elements (h : ∀ e ∈ a.arrays, ∀ u ∈ e.element, a.Has u) : a.Linked := by
  intro t u hu
  obtain ⟨x, rfl⟩ := Ty.isArray_iff.mp (isArray_of_element? hu)
  have hx : x.index < a.arrays.size := has_of_element? hu
  rw [element?_array (Array.getElem?_eq_getElem hx)] at hu
  exact h _ (Array.getElem_mem hx) u hu

/-- Every array of the arena has its element. -/
def Filled (a : Arena) : Prop := ∀ e ∈ a.arrays, e.element.isSome

instance : Decidable a.Filled :=
  inferInstanceAs (Decidable (∀ e ∈ a.arrays, e.element.isSome))

theorem Filled.exists_element? (h : a.Filled) {id : ArrayId} (hid : a.Has (.array id)) :
    ∃ u, a.element? (.array id) = some u := by
  obtain ⟨u, hu⟩ := Option.isSome_iff_exists.mp (h _ (Array.getElem_mem hid))
  exact ⟨u, (element?_array (Array.getElem?_eq_getElem hid)).trans hu⟩

/-- Where every array has its element, types are the same as soon as their unfoldings never part: that
their unfoldings do not is a relation that is closed under steps. -/
theorem same_iff_unfold (ha : a.Linked) (hf : a.Filled) (hs : a.Has s) (ht : a.Has t) :
    a.Same s t ↔ a.Unfold s t := by
  refine ⟨fun h n => h.peel_alike n, fun h => ?_⟩
  refine ⟨fun u v => a.Has u ∧ a.Has v ∧ a.Unfold u v, ⟨hs, ht, h⟩, ?_⟩
  rintro u v ⟨hu, hv, huv⟩
  rcases huv 0 with ⟨hua, hva⟩ | ⟨-, heq⟩
  · obtain ⟨x, rfl⟩ := Ty.isArray_iff.mp hua
    obtain ⟨y, rfl⟩ := Ty.isArray_iff.mp hva
    obtain ⟨u', hu'⟩ := hf.exists_element? hu
    obtain ⟨v', hv'⟩ := hf.exists_element? hv
    refine .elements hu' hv' ⟨ha _ _ hu', ha _ _ hv', fun n => ?_⟩
    rw [← peel_succ_of_elements n hu' hv']
    exact huv (n + 1)
  · rw [show u = v from heq]
    exact .refl v

/-! ## The comparison -/

theorem Linked.sameType_eq_true_iff (ha : a.Linked) (hs : a.Has s) (ht : a.Has t) :
    a.sameType s t = .ok true ↔ a.Same s t := by
  obtain ⟨b, hb, hiff⟩ := ha.sameType_spec hs ht
  rw [hb, Except.ok.injEq, hiff]

/-- Comparisons with one meaning have one answer. -/
theorem Linked.sameType_congr (ha : a.Linked) (hs : a.Has s) (ht : a.Has t) (hs' : a.Has s')
    (ht' : a.Has t') (h : a.Same s t ↔ a.Same s' t') : a.sameType s t = a.sameType s' t' := by
  obtain ⟨b, hb, hiff⟩ := ha.sameType_spec hs ht
  obtain ⟨b', hb', hiff'⟩ := ha.sameType_spec hs' ht'
  rw [hb, hb', Bool.eq_iff_iff.mpr (hiff.trans (h.trans hiff'.symm))]

/-- **The comparison of types decides whether their unfoldings are equal.** In an arena in which the
elements of arrays are in range, it has an answer for all types in range, which makes it an equivalence
relation. If no array lacks its element, the answer is `true` just if taking the elements of both types
any number of times leaves two arrays or twice one type that is not an array, and two arrays compare as
their elements do. -/
theorem sameType_unfolding (a : Arena) (ha : ∀ e ∈ a.arrays, ∀ u ∈ e.element, a.Has u) :
    (∀ s t, a.Has s → a.Has t → ∃ b, a.sameType s t = .ok b) ∧
      (∀ t, a.Has t → a.sameType t t = .ok true) ∧
      (∀ s t, a.Has s → a.Has t → a.sameType s t = a.sameType t s) ∧
      (∀ s t u, a.Has s → a.Has t → a.Has u → a.sameType s t = .ok true →
        a.sameType t u = .ok true → a.sameType s u = .ok true) ∧
      (a.Filled →
        (∀ s t, a.Has s → a.Has t → (a.sameType s t = .ok true ↔ a.Unfold s t)) ∧
        ∀ x y s t, a.element? (.array x) = some s → a.element? (.array y) = some t →
          a.sameType (.array x) (.array y) = a.sameType s t) := by
  have hl : a.Linked := linked_of_elements ha
  refine ⟨?_, ?_, ?_, ?_, fun hf => ⟨?_, ?_⟩⟩
  · intro s t hs ht
    obtain ⟨b, hb, -⟩ := hl.sameType_spec hs ht
    exact ⟨b, hb⟩
  · exact fun t ht => (hl.sameType_eq_true_iff ht ht).mpr (Same.refl a t)
  · exact fun s t hs ht => hl.sameType_congr hs ht ht hs ⟨Same.symm, Same.symm⟩
  · intro s t u hs ht hu hst htu
    rw [hl.sameType_eq_true_iff hs ht] at hst
    rw [hl.sameType_eq_true_iff ht hu] at htu
    exact (hl.sameType_eq_true_iff hs hu).mpr (hst.trans htu)
  · exact fun s t hs ht => (hl.sameType_eq_true_iff hs ht).trans (same_iff_unfold hl hf hs ht)
  · intro x y s t hx hy
    exact hl.sameType_congr (has_of_element? hx) (has_of_element? hy) (hl _ _ hx) (hl _ _ hy)
      (same_iff_same_elements hx hy)

/-- A circle of two arrays, a circle of three, and an array of an array of integers. -/
def circles : Arena where
  records := #[]
  arrays := #[⟨"even", some (.array ⟨1⟩)⟩, ⟨"odd", some (.array ⟨0⟩)⟩,
    ⟨"first", some (.array ⟨3⟩)⟩, ⟨"second", some (.array ⟨4⟩)⟩, ⟨"third", some (.array ⟨2⟩)⟩,
    ⟨"row", some .int⟩, ⟨"grid", some (.array ⟨5⟩)⟩]

/-- Circles of different lengths have the same unfoldings, and no finite chain has them. -/
theorem circles_unfold : circles.Filled ∧ circles.Unfold (.array ⟨0⟩) (.array ⟨3⟩) ∧
    ¬ circles.Unfold (.array ⟨0⟩) (.array ⟨6⟩) := by
  have hf : circles.Filled := by decide
  obtain ⟨-, -, -, -, hfull⟩ := sameType_unfolding circles (by decide)
  have hiff := (hfull hf).1
  refine ⟨hf, ?_, ?_⟩
  · exact (hiff _ _ (by decide) (by decide)).mp (by decide)
  · exact fun h => absurd ((hiff _ _ (by decide) (by decide)).mpr h) (by decide)

end Arena

end TigerCheck
