import Mathlib.Data.Finset.Prod
import Mathlib.Data.Finset.Card
import TigerCheck.Proofs.Ty.Shape
import TigerCheck.Ty.Matching

/-!
# What it means for types to be the same, and to match

Two types are the same if some relation holds between them under which related types are equal or are
arrays with related elements. The comparison of two types always ends, and finds out just that: the
pairs of arrays that it takes for granted are such a relation once the comparison succeeds.

* `Arena.SameStep`, `Arena.Same`: the same types.
* `Arena.Linked`: the arenas in which types can be compared.
* `Arena.Matches`: types of which one may stand for the other.
* **`Arena.sameType_spec`**, **`Arena.isMatch_spec`**: in a closed arena both comparisons have an
  answer, and which.
-/

namespace TigerCheck

namespace Arena

variable {a : Arena} {s t : Ty}

theorem element?_array {x : ArrayId} {e : ArrayEntry} (h : a.arrays[x.index]? = some e) :
    a.element? (.array x) = e.element := by
  simp [element?, h]

/-- The element of every array that has one is in the arena. -/
def Linked (a : Arena) : Prop := ∀ t u, a.element? t = some u → a.Has u

theorem has_element? (ha : a.Closed) (h : a.element? t = some s) : a.Has s := by
  unfold element? at h
  split at h
  · next e he => exact ha t _ he s (by simp [Shape.types, h])
  · cases h

theorem Closed.linked (ha : a.Closed) : a.Linked := fun _ _ => has_element? ha

/-- Two types that are equal, or arrays whose elements are related. -/
inductive SameStep (a : Arena) (R : Ty → Ty → Prop) : Ty → Ty → Prop where
  | refl (t : Ty) : SameStep a R t t
  | elements {s t s' t' : Ty} : a.element? s = some s' → a.element? t = some t' → R s' t' →
      SameStep a R s t

theorem SameStep.mono {R S : Ty → Ty → Prop} (hRS : ∀ u v, R u v → S u v)
    (h : SameStep a R s t) : SameStep a S s t := by
  cases h with
  | refl => exact .refl _
  | elements hs ht hr => exact .elements hs ht (hRS _ _ hr)

/-- **The same type**: the greatest relation between types that are equal or have elements in the
relation again. -/
def Same (a : Arena) (s t : Ty) : Prop :=
  ∃ R : Ty → Ty → Prop, R s t ∧ ∀ u v, R u v → SameStep a R u v

theorem Same.refl (a : Arena) (t : Ty) : a.Same t t :=
  ⟨Eq, rfl, fun u _ h => h ▸ .refl u⟩

/-- Types that match: the same types, `nil` and a record, and two records whose fields have the same
types. `nil` does not match `nil`. -/
def Matches (a : Arena) (s t : Ty) : Prop :=
  ¬ (s = .nil ∧ t = .nil) ∧
    (a.Same s t ∨ (s = .nil ∧ t.isRecord) ∨ (s.isRecord ∧ t = .nil) ∨
      ∃ e f, a.shape s = some (.record e) ∧ a.shape t = some (.record f) ∧
        List.Forall₂ (fun x y => a.Same x.ty y.ty) e.fields f.fields)

/-! ## The comparison ends -/

/-- Both ends of a pair are arrays of the arena. -/
def HasPair (a : Arena) (p : ArrayId × ArrayId) : Prop :=
  p.1.index < a.arrays.size ∧ p.2.index < a.arrays.size

/-- There are only so many pairs of arrays. -/
theorem length_le_of_hasPair {ps : List (ArrayId × ArrayId)} (hd : ps.Nodup)
    (hp : ∀ p ∈ ps, a.HasPair p) : ps.length ≤ a.arrays.size * a.arrays.size := by
  have hinj : Function.Injective fun p : ArrayId × ArrayId => (p.1.index, p.2.index) := by
    rintro ⟨⟨i⟩, ⟨j⟩⟩ ⟨⟨i'⟩, ⟨j'⟩⟩ h
    simpa using h
  have hsub : (ps.map fun p => (p.1.index, p.2.index)).toFinset ⊆
      Finset.range a.arrays.size ×ˢ Finset.range a.arrays.size := by
    intro q hq
    obtain ⟨p, hp', rfl⟩ := List.mem_map.mp (List.mem_toFinset.mp hq)
    have := hp p hp'
    simp [this.1, this.2]
  have hcard := Finset.card_le_card hsub
  rwa [List.toFinset_card_of_nodup (hd.map hinj), List.length_map, Finset.card_product,
    Finset.card_range] at hcard

theorem sameTypeUnder_array (n : Nat) (ps : List (ArrayId × ArrayId)) (x y : ArrayId) :
    a.sameTypeUnder (n + 1) ps (.array x) (.array y) =
      if x = y ∨ (x, y) ∈ ps then .ok true
      else (do
        let left ← a.array x
        let right ← a.array y
        match left.element, right.element with
        | some s, some t => a.sameTypeUnder n ((x, y) :: ps) s t
        | _, _ => .ok false) := rfl

theorem sameTypeUnder_of_not_array (n : Nat) (ps : List (ArrayId × ArrayId))
    (h : ¬ (s.isArray = true ∧ t.isArray = true)) :
    a.sameTypeUnder (n + 1) ps s t = .ok (s == t) := by
  cases s <;> cases t <;> first | rfl | exact absurd ⟨rfl, rfl⟩ h

/-- Comparing two arrays is comparing their elements, unless their pair is known already. -/
theorem sameTypeUnder_array_of_has (n : Nat) {ps : List (ArrayId × ArrayId)} {x y : ArrayId}
    (hx : a.Has (.array x)) (hy : a.Has (.array y)) :
    a.sameTypeUnder (n + 1) ps (.array x) (.array y) =
      if x = y ∨ (x, y) ∈ ps then .ok true
      else match a.element? (.array x), a.element? (.array y) with
        | some s, some t => a.sameTypeUnder n ((x, y) :: ps) s t
        | _, _ => .ok false := by
  rw [sameTypeUnder_array, array, array, entry_of_lt hx, entry_of_lt hy,
    element?_array (Array.getElem?_eq_getElem hx), element?_array (Array.getElem?_eq_getElem hy)]
  rfl

/-- **A comparison with enough steps for the pairs that are left has an answer.** -/
theorem sameTypeUnder_total (ha : a.Linked) (n : Nat) :
    ∀ {ps : List (ArrayId × ArrayId)} {s t : Ty}, a.Has s → a.Has t → ps.Nodup →
      (∀ p ∈ ps, a.HasPair p) → a.arrays.size * a.arrays.size < n + ps.length →
      ∃ b, a.sameTypeUnder n ps s t = .ok b := by
  induction n with
  | zero =>
    intro ps s t _ _ hd hp hn
    have := length_le_of_hasPair hd hp
    omega
  | succ n ih =>
    intro ps s t hs ht hd hp hn
    by_cases harr : s.isArray = true ∧ t.isArray = true
    · obtain ⟨x, rfl⟩ := Ty.isArray_iff.mp harr.1
      obtain ⟨y, rfl⟩ := Ty.isArray_iff.mp harr.2
      rw [sameTypeUnder_array_of_has n hs ht]
      split
      · exact ⟨true, rfl⟩
      · next hxy =>
        split
        · next s' t' hs' ht' =>
          rw [not_or] at hxy
          refine ih (ha _ _ hs') (ha _ _ ht') (List.nodup_cons.mpr ⟨hxy.2, hd⟩) ?_
            (by simp only [List.length_cons]; omega)
          exact List.forall_mem_cons.mpr ⟨⟨hs, ht⟩, hp⟩
        · exact ⟨false, rfl⟩
    · exact ⟨_, sameTypeUnder_of_not_array n ps harr⟩

/-! ## The comparison is right -/

/-- Two arrays whose comparison has begun. -/
def Assumed (ps : List (ArrayId × ArrayId)) (s t : Ty) : Prop :=
  ∃ x y, s = .array x ∧ t = .array y ∧ (x, y) ∈ ps

/-- A comparison that succeeds leaves a relation that is closed but for the pairs that were assumed
at its start. -/
theorem related_of_sameTypeUnder (n : Nat) :
    ∀ {ps : List (ArrayId × ArrayId)} {s t : Ty}, a.sameTypeUnder n ps s t = .ok true →
      a.Linked → a.Has s → a.Has t →
      ∃ S : Ty → Ty → Prop, (S s t ∨ Assumed ps s t) ∧
        ∀ u v, S u v → SameStep a (fun u v => S u v ∨ Assumed ps u v) u v := by
  induction n with
  | zero => intro ps s t h; cases h
  | succ n ih =>
    intro ps s t h ha hs ht
    by_cases harr : s.isArray = true ∧ t.isArray = true
    · obtain ⟨x, rfl⟩ := Ty.isArray_iff.mp harr.1
      obtain ⟨y, rfl⟩ := Ty.isArray_iff.mp harr.2
      rw [sameTypeUnder_array_of_has n hs ht] at h
      split at h
      · next hxy =>
        rcases hxy with rfl | hmem
        · exact ⟨Eq, Or.inl rfl, fun u v huv => huv ▸ .refl u⟩
        · exact ⟨fun _ _ => False, Or.inr ⟨x, y, rfl, rfl, hmem⟩, fun _ _ h => h.elim⟩
      · split at h
        · next s' t' hs' ht' =>
          obtain ⟨S, hS, hcl⟩ := ih h ha (ha _ _ hs') (ha _ _ ht')
          have hins : ∀ u v, S u v ∨ Assumed ((x, y) :: ps) u v →
              (S u v ∨ (u = .array x ∧ v = .array y)) ∨ Assumed ps u v := by
            rintro u v (huv | ⟨x', y', rfl, rfl, hmem⟩)
            · exact Or.inl (Or.inl huv)
            · rcases List.mem_cons.mp hmem with heq | hmem
              · cases heq; exact Or.inl (Or.inr ⟨rfl, rfl⟩)
              · exact Or.inr ⟨x', y', rfl, rfl, hmem⟩
          refine ⟨fun u v => S u v ∨ (u = .array x ∧ v = .array y), Or.inl (Or.inr ⟨rfl, rfl⟩), ?_⟩
          rintro u v (huv | ⟨rfl, rfl⟩)
          · exact (hcl u v huv).mono hins
          · exact .elements hs' ht' (hins s' t' hS)
        · cases h
    · rw [sameTypeUnder_of_not_array n ps harr] at h
      have heq : s = t := by simpa using h
      exact ⟨Eq, Or.inl heq, fun u v huv => huv ▸ .refl u⟩

/-- A comparison of the same types does not fail. -/
theorem sameTypeUnder_of_related {R : Ty → Ty → Prop} (hR : ∀ u v, R u v → SameStep a R u v)
    (ha : a.Linked) (n : Nat) :
    ∀ {ps : List (ArrayId × ArrayId)} {s t : Ty}, R s t → a.Has s → a.Has t →
      ∀ {b : Bool}, a.sameTypeUnder n ps s t = .ok b → b = true := by
  induction n with
  | zero => intro ps s t _ _ _ b h; cases h
  | succ n ih =>
    intro ps s t hst hs ht b h
    by_cases harr : s.isArray = true ∧ t.isArray = true
    · obtain ⟨x, rfl⟩ := Ty.isArray_iff.mp harr.1
      obtain ⟨y, rfl⟩ := Ty.isArray_iff.mp harr.2
      rw [sameTypeUnder_array_of_has n hs ht] at h
      split at h
      · cases h; rfl
      · next hxy =>
        cases hR _ _ hst with
        | refl => exact absurd (Or.inl rfl) hxy
        | elements hs' ht' hr =>
          rw [hs', ht'] at h
          exact ih hr (ha _ _ hs') (ha _ _ ht') h
    · rw [sameTypeUnder_of_not_array n ps harr] at h
      cases hR _ _ hst with
      | refl => simpa using h.symm
      | elements hs' ht' _ =>
        -- only arrays have elements, so this case is that of two arrays again
        cases s with
        | array x => cases t with
          | array y => exact absurd ⟨rfl, rfl⟩ harr
          | _ => simp [element?, shape] at ht'
        | _ => simp [element?, shape] at hs'

/-- **The comparison of two types finds out whether they are the same.** -/
theorem Linked.sameType_spec (ha : a.Linked) (hs : a.Has s) (ht : a.Has t) :
    ∃ b, a.sameType s t = .ok b ∧ (b = true ↔ a.Same s t) := by
  obtain ⟨b, hb⟩ := sameTypeUnder_total ha (a.arrays.size * a.arrays.size + 1) hs ht
    List.nodup_nil (by simp) (by simp)
  refine ⟨b, hb, ?_, ?_⟩
  · rintro rfl
    obtain ⟨S, hS, hcl⟩ := related_of_sameTypeUnder _ hb ha hs ht
    have hnil : ∀ u v, ¬ Assumed [] u v := by rintro u v ⟨x, y, -, -, h⟩; cases h
    exact ⟨S, hS.resolve_right (hnil s t), fun u v huv =>
      (hcl u v huv).mono fun _ _ h => h.resolve_right (hnil _ _)⟩
  · rintro ⟨R, hst, hR⟩
    exact sameTypeUnder_of_related hR ha _ hst hs ht hb

/-- In a closed arena the comparison of two types finds out whether they are the same. -/
theorem sameType_spec (ha : a.Closed) (hs : a.Has s) (ht : a.Has t) :
    ∃ b, a.sameType s t = .ok b ∧ (b = true ↔ a.Same s t) :=
  ha.linked.sameType_spec hs ht

/-! ## Matching types -/

theorem sameFieldTypes_spec (ha : a.Closed) :
    ∀ {fs gs : List Field}, fs.length = gs.length → (∀ f ∈ fs, a.Has f.ty) → (∀ g ∈ gs, a.Has g.ty) →
      ∃ b, a.sameFieldTypes fs gs = .ok b ∧
        (b = true ↔ List.Forall₂ (fun x y => a.Same x.ty y.ty) fs gs)
  | [], [], _, _, _ => ⟨true, rfl, by simp⟩
  | f :: fs, g :: gs, hlen, hfs, hgs => by
    obtain ⟨b, hb, hiff⟩ := sameType_spec ha (hfs f List.mem_cons_self) (hgs g List.mem_cons_self)
    obtain ⟨b', hb', hiff'⟩ := sameFieldTypes_spec ha (Nat.succ.inj hlen)
      (fun x hx => hfs x (List.mem_cons_of_mem _ hx)) (fun x hx => hgs x (List.mem_cons_of_mem _ hx))
    have hstep : a.sameFieldTypes (f :: fs) (g :: gs) = .ok (b && b') := by
      rw [sameFieldTypes, hb]
      cases b with
      | true => exact hb'
      | false => rfl
    exact ⟨b && b', hstep, by rw [Bool.and_eq_true, hiff, hiff', List.forall₂_cons]⟩

theorem sameLayout_spec (ha : a.Closed) {x y : RecordId} (hx : a.Has (.record x))
    (hy : a.Has (.record y)) :
    ∃ b, a.sameLayout x y = .ok b ∧
      (b = true ↔ List.Forall₂ (fun f g => a.Same f.ty g.ty) a.records[x.index].fields
        a.records[y.index].fields) := by
  have hread : a.sameLayout x y =
      if a.records[x.index].fields.length = a.records[y.index].fields.length then
        a.sameFieldTypes a.records[x.index].fields a.records[y.index].fields
      else .ok false := by
    rw [sameLayout, record, record, entry_of_lt hx, entry_of_lt hy]
    rfl
  have hfields : ∀ {z : RecordId} (hz : a.Has (.record z)), ∀ f ∈ a.records[z.index].fields,
      a.Has f.ty := fun hz f hf =>
    ha _ _ (shape_record_of_has hz) f.ty (List.mem_map_of_mem hf)
  rw [hread]
  split
  · next hlen => exact sameFieldTypes_spec ha hlen (hfields hx) (hfields hy)
  · next hlen => exact ⟨false, rfl, by simpa using fun h => hlen h.length_eq⟩

theorem matchDistinct_spec (ha : a.Closed) (hs : a.Has s) (ht : a.Has t)
    (hne : ¬ (s = .nil ∧ t = .nil)) (hsame : ¬ a.Same s t) :
    ∃ b, a.matchDistinct s t = .ok b ∧ (b = true ↔ a.Matches s t) := by
  have key : a.Matches s t ↔ (s = .nil ∧ t.isRecord) ∨ (s.isRecord ∧ t = .nil) ∨
      ∃ e f, a.shape s = some (.record e) ∧ a.shape t = some (.record f) ∧
        List.Forall₂ (fun x y => a.Same x.ty y.ty) e.fields f.fields := by
    simp [Matches, hne, hsame]
  rw [key]
  cases s with
  | record x =>
    cases t with
    | record y =>
      obtain ⟨b, hb, hiff⟩ := sameLayout_spec ha hs ht
      refine ⟨b, hb, hiff.trans ?_⟩
      rw [shape_record_of_has hs, shape_record_of_has ht]
      simp
    | _ => exact ⟨_, rfl, by simp [Ty.isRecord, shape]⟩
  | _ => cases t <;> exact ⟨_, rfl, by simp [Ty.isRecord, shape]⟩

/-- **In a closed arena the comparison of two types finds out whether they match.** -/
theorem isMatch_spec (ha : a.Closed) (hs : a.Has s) (ht : a.Has t) :
    ∃ b, a.isMatch (some s) (some t) = .ok b ∧ (b = true ↔ a.Matches s t) := by
  by_cases hnil : s = .nil ∧ t = .nil
  · obtain ⟨rfl, rfl⟩ := hnil
    exact ⟨false, rfl, by simp [Matches]⟩
  · have hcond : (s.isNil && t.isNil) = false := by
      rw [Bool.eq_false_iff, ne_eq, Bool.and_eq_true, Ty.isNil_iff, Ty.isNil_iff]
      exact hnil
    obtain ⟨b, hb, hiff⟩ := sameType_spec ha hs ht
    have hstep : a.isMatch (some s) (some t) = if b then .ok true else a.matchDistinct s t := by
      rw [isMatch, hcond, hb]
      cases b <;> rfl
    rw [hstep]
    cases b with
    | true => exact ⟨true, rfl, by simp [Matches, hnil, hiff.mp rfl]⟩
    | false =>
      exact matchDistinct_spec ha hs ht hnil fun h => Bool.noConfusion (hiff.mpr h)

end Arena

end TigerCheck
