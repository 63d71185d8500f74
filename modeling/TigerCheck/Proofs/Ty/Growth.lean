import TigerCheck.Proofs.Operations
import TigerCheck.Proofs.Ty.Matches

/-!
# Verdicts about types are lasting

An arena is changed in four ways: a record or an array is added, with or without contents, and a record or
an array is completed. Whatever is changed, an array keeps the first element that it has, so that two types
which were found to be the same stay the same. That two types are not the same can be due to an array
without an element; where there is none on the way, that verdict lasts as well.

* `Arena.Edit`, `Arena.edit`: the changes. `Arena.Admits`: those whose handles are in range.
* `Arena.Edited`: what changes leave behind. `Arena.FilledFrom`: no element is missing on the way.
* **`Arena.edited_edit`**: one change.
* `Arena.Same.edited`, `Arena.Same.of_edited`: the same types before and after.
* **`Arena.edits_keep_verdicts`**: verdicts, elements and names outlive every sequence of changes.
-/

namespace TigerCheck

open Relation

/-- The name of the declaration that an entry belongs to. -/
def Shape.name : Shape → String
  | record e => e.name
  | array e => e.name

namespace Arena

/-- One change of an arena. -/
inductive Edit where
  | newRecord (name : String) (fields : List Field)
  | newArray (name : String) (element : Option Ty)
  | setFields (id : RecordId) (fields : List Field)
  | setElement (id : ArrayId) (element : Ty)

/-- The handles that a change mentions are in the arena. -/
def Admits (a : Arena) : Edit → Prop
  | .newRecord _ fields => ∀ f ∈ fields, a.Has f.ty
  | .newArray _ element => ∀ u ∈ element, a.Has u
  | .setFields id fields => a.Has (.record id) ∧ ∀ f ∈ fields, a.Has f.ty
  | .setElement id element => a.Has (.array id) ∧ a.Has element

/-- The arena after a change. -/
def edit (a : Arena) : Edit → Except Breach Arena
  | .newRecord name fields => .ok (a.newRecord name fields).2
  | .newArray name element => .ok (a.newArray name element).2
  | .setFields id fields => a.setFields id fields
  | .setElement id element => a.setElement id element

instance (a : Arena) : (e : Edit) → Decidable (a.Admits e)
  | .newRecord _ fields => inferInstanceAs (Decidable (∀ f ∈ fields, a.Has f.ty))
  | .newArray _ element => inferInstanceAs (Decidable (∀ u ∈ element, a.Has u))
  | .setFields id fields =>
    inferInstanceAs (Decidable (a.Has (.record id) ∧ ∀ f ∈ fields, a.Has f.ty))
  | .setElement id element => inferInstanceAs (Decidable (a.Has (.array id) ∧ a.Has element))

/-- The element that a change offers to an array. -/
def Edit.offered (id : ArrayId) : Edit → Option Ty
  | .setElement target element => if target = id then some element else none
  | _ => none

variable {a b d : Arena} {s t u : Ty} {e : Edit} {es : List Edit} {id : ArrayId}

/-! ## What changes leave behind -/

theorem display_of_shape {sh : Shape} (h : a.shape t = some sh) : a.display t = .ok sh.name := by
  cases sh with
  | record e =>
    obtain ⟨id, rfl, hid⟩ := shape_eq_record_iff.mp h
    rw [display, record, entry_eq_ok_iff.mpr hid]
    rfl
  | array e =>
    obtain ⟨id, rfl, hid⟩ := shape_eq_array_iff.mp h
    rw [display, array, entry_eq_ok_iff.mpr hid]
    rfl

theorem element?_congr (h : b.shape t = a.shape t) : b.element? t = a.element? t := by
  rw [element?, h, element?]

/-- What changes leave behind: no handle leads out of the arena, entries stay and keep their names, and an
array without an element takes the first that it is offered. -/
structure Edited (a : Arena) (es : List Edit) (b : Arena) : Prop where
  closed : b.Closed
  entries : ∀ t s, a.shape t = some s → ∃ s', b.shape t = some s' ∧ s'.name = s.name
  element : ∀ id, a.Has (.array id) →
    b.element? (.array id) = (a.element? (.array id) <|> es.findSome? (·.offered id))

theorem Edited.has (h : a.Edited es b) (ht : a.Has t) : b.Has t := by
  rcases shape_or_plain ht with ⟨s, hs⟩ | hplain
  · obtain ⟨s', hs', -⟩ := h.entries t s hs
    exact has_of_shape hs'
  · exact hplain b

theorem Edited.display_eq (h : a.Edited es b) (ht : a.Has t) : b.display t = a.display t := by
  rcases shape_or_plain ht with ⟨s, hs⟩ | hplain
  · obtain ⟨s', hs', hname⟩ := h.entries t s hs
    rw [display_of_shape hs', display_of_shape hs, hname]
  · cases t with
    | array id => exact absurd (hplain {}) (Nat.not_lt_zero _)
    | record id => exact absurd (hplain {}) (Nat.not_lt_zero _)
    | _ => rfl

/-- An element that is there stays. -/
theorem Edited.element_of_some (h : a.Edited es b) (ht : a.element? t = some u) :
    b.element? t = some u := by
  obtain ⟨id, rfl⟩ := Ty.isArray_iff.mp (isArray_of_element? ht)
  rw [h.element id (has_of_element? ht), ht]
  rfl

theorem Edited.refl (ha : a.Closed) : a.Edited [] a :=
  ⟨ha, fun _ s hs => ⟨s, hs, rfl⟩, fun id _ => by simp⟩

theorem Edited.cons (h : a.Edited [e] b) (h' : b.Edited es d) : a.Edited (e :: es) d where
  closed := h'.closed
  entries t s hs := by
    obtain ⟨s₁, hs₁, hn₁⟩ := h.entries t s hs
    obtain ⟨s₂, hs₂, hn₂⟩ := h'.entries t s₁ hs₁
    exact ⟨s₂, hs₂, hn₂.trans hn₁⟩
  element id hid := by
    rw [h'.element id (h.has hid), h.element id hid]
    cases a.element? (.array id) with
    | some u => rfl
    | none => cases ho : e.offered id <;> simp [ho]

/-- A type gets a shape with the name that it has, if it has one, and with the element that it has or is
offered, if it is an array. -/
theorem Puts.edited {sh : Shape} (h : a.Puts t sh b) (ha : a.Closed) (hsh : ∀ u ∈ sh.types, a.Has u)
    (hname : ∀ s, a.shape t = some s → sh.name = s.name)
    (hself : ∀ id, t = .array id → a.Has (.array id) →
      b.element? (.array id) = (a.element? (.array id) <|> e.offered id))
    (hother : ∀ id, t ≠ .array id → e.offered id = none) : a.Edited [e] b where
  closed := h.closed ha hsh
  entries u s hs := by
    by_cases hut : u = t
    · subst hut
      exact ⟨sh, h.shape_eq, hname s hs⟩
    · exact ⟨s, (h.shape_ne u hut).trans hs, rfl⟩
  element id hid := by
    rw [List.findSome?_singleton]
    by_cases ht : t = .array id
    · exact hself id ht hid
    · rw [element?_congr (h.shape_ne _ (Ne.symm ht)), hother id ht]
      simp

/-- **A change can be made**, and does what changes do. -/
theorem edited_edit (ha : a.Closed) (he : a.Admits e) : ∃ b, a.edit e = .ok b ∧ a.Edited [e] b := by
  cases e with
  | newRecord name fields =>
    refine ⟨_, rfl, (puts_newRecord name fields).edited ha ?_ ?_ nofun fun _ _ => rfl⟩
    · exact List.forall_mem_map.mpr he
    · exact fun s hs => absurd ((shape_newRecord_self name fields).symm.trans hs) nofun
  | newArray name element =>
    refine ⟨_, rfl, (puts_newArray name element).edited ha ?_ ?_ ?_ fun _ _ => rfl⟩
    · exact fun u hu => he u (Option.mem_toList.mp hu)
    · exact fun s hs => absurd ((shape_newArray_self name element).symm.trans hs) nofun
    · -- the handle of a new array is the first one out of range
      rintro id ⟨⟩ hid
      exact absurd hid (Nat.lt_irrefl _)
  | setFields id fields =>
    obtain ⟨b, hb, hputs⟩ := puts_setFields fields (shape_record_of_has he.1)
    refine ⟨b, hb, hputs.edited ha ?_ ?_ nofun fun _ _ => rfl⟩
    · exact List.forall_mem_map.mpr he.2
    · intro s hs
      rw [shape_record_of_has he.1, Option.some.injEq] at hs
      exact hs ▸ rfl
  | setElement id element =>
    obtain ⟨old, hold⟩ : ∃ old, a.shape (.array id) = some (.array old) := ⟨_, shape_array_of_has he.1⟩
    obtain ⟨b, hb, hputs⟩ := puts_setElement element hold
    refine ⟨b, hb, hputs.edited ha ?_ ?_ ?_ ?_⟩
    · intro u hu
      rw [Shape.types, ArrayEntry.offer, Option.mem_toList] at hu
      cases ho : old.element with
      | none =>
        rw [ho] at hu
        cases hu
        exact he.2
      | some w =>
        rw [ho] at hu
        cases hu
        exact ha _ _ hold u (by rw [Shape.types, ho]; exact List.mem_singleton_self u)
    · intro s hs
      rw [hold, Option.some.injEq] at hs
      exact hs ▸ rfl
    · rintro _ ⟨⟩ -
      simp only [element?, hputs.shape_eq, hold, ArrayEntry.offer, Edit.offered, if_pos]
    · exact fun target ht => if_neg fun (heq : id = target) => ht (congrArg Ty.array heq)

/-! ## The same types before and after -/

/-- Types that are the same stay the same, since what was said of their elements is still true. -/
theorem Same.edited (hed : a.Edited es b) (h : a.Same s t) : b.Same s t := by
  obtain ⟨R, hst, hR⟩ := h
  refine ⟨R, hst, fun u v huv => ?_⟩
  cases hR u v huv with
  | refl => exact .refl _
  | elements hu hv hr => exact .elements (hed.element_of_some hu) (hed.element_of_some hv) hr

/-- Every array that is come to by taking elements has an element. -/
def FilledFrom (a : Arena) (t : Ty) : Prop :=
  ∀ id, ReflTransGen (fun u v => a.element? u = some v) t (.array id) →
    ∃ u, a.element? (.array id) = some u

theorem FilledFrom.element (h : a.FilledFrom t) (ht : a.element? t = some u) : a.FilledFrom u :=
  fun id hid => h id (.head ht hid)

/-- What is the same type after changes was so before, if no element was missing: an element that was there
before is the one that is there now. -/
theorem Same.of_edited (hed : a.Edited es b) (hs : a.FilledFrom s) (ht : a.FilledFrom t)
    (h : b.Same s t) : a.Same s t := by
  have hold : ∀ {u u' : Ty}, a.FilledFrom u → b.element? u = some u' → a.element? u = some u' := by
    intro u u' hu hu'
    obtain ⟨id, rfl⟩ := Ty.isArray_iff.mp (isArray_of_element? hu')
    obtain ⟨w, hw⟩ := hu id .refl
    rw [hed.element_of_some hw] at hu'
    rw [hw, hu']
  refine ⟨fun u v => b.Same u v ∧ a.FilledFrom u ∧ a.FilledFrom v, ⟨h, hs, ht⟩, ?_⟩
  rintro u v ⟨huv, hu, hv⟩
  cases huv.step with
  | refl => exact .refl u
  | elements hu' hv' hr =>
    have hau := hold hu hu'
    have hav := hold hv hv'
    exact .elements hau hav ⟨hr, hu.element hau, hv.element hav⟩

theorem Linked.sameType_eq_false_iff (ha : a.Linked) (hs : a.Has s) (ht : a.Has t) :
    a.sameType s t = .ok false ↔ ¬ a.Same s t := by
  obtain ⟨b, hb, hiff⟩ := ha.sameType_spec hs ht
  rw [hb, Except.ok.injEq, ← hiff, Bool.not_eq_true]

/-- **Verdicts about types outlive every change of the arena.** Let records and arrays be added and
completed in any order, with handles that are in range when their turn comes, in an arena in which all
handles are in range. Then all of it can be done, and afterwards: types that were the same are the same;
types that were not are not, if from neither of them elements lead to an array without one; an array has
the element that it had, or else the first one that it was offered; and every handle denotes an entry of
its name. -/
theorem edits_keep_verdicts (a : Arena) (ha : a.Closed) (es : List Edit)
    (hes : Permitted edit Admits a es) :
    ∃ b, es.foldlM edit a = .ok b ∧ b.Closed ∧
      (∀ s t, a.Has s → a.Has t → a.sameType s t = .ok true → b.sameType s t = .ok true) ∧
      (∀ s t, a.Has s → a.Has t → a.FilledFrom s → a.FilledFrom t →
        a.sameType s t = .ok false → b.sameType s t = .ok false) ∧
      (∀ id, a.Has (.array id) →
        b.element? (.array id) = (a.element? (.array id) <|> es.findSome? (·.offered id))) ∧
      ∀ t, a.Has t → b.Has t ∧ ∃ name, a.display t = .ok name ∧ b.display t = .ok name := by
  have hstep : ∀ a e, Closed a → a.Admits e → ∃ b, a.edit e = .ok b ∧ b.Closed ∧
      ∀ es d, b.Edited es d → a.Edited (e :: es) d := fun a e ha he =>
    let ⟨b, hb, hed⟩ := edited_edit ha he
    ⟨b, hb, hed.closed, fun _ _ => hed.cons⟩
  obtain ⟨b, hb, hclosed, hed⟩ := hes.exists_foldlM (fun _ => Edited.refl) hstep ha
  refine ⟨b, hb, hclosed, fun s t hs ht hst => ?_, fun s t hs ht hfs hft hst => ?_, hed.element,
    fun t ht => ?_⟩
  · rw [ha.linked.sameType_eq_true_iff hs ht] at hst
    exact (hclosed.linked.sameType_eq_true_iff (hed.has hs) (hed.has ht)).mpr (hst.edited hed)
  · rw [ha.linked.sameType_eq_false_iff hs ht] at hst
    exact (hclosed.linked.sameType_eq_false_iff (hed.has hs) (hed.has ht)).mpr
      fun h => hst (h.of_edited hed hfs hft)
  · obtain ⟨name, hname⟩ := display_total ht
    exact ⟨hed.has ht, name, hname, (hed.display_eq ht).trans hname⟩

/-- Two arrays of integers, one of strings, and one that is not complete yet. -/
def halfBuilt : Arena where
  records := #[⟨"point", []⟩]
  arrays := #[⟨"row", some .int⟩, ⟨"line", some .int⟩, ⟨"words", some .string⟩, ⟨"grid", none⟩]

/-- The incomplete array is completed twice, a complete one is offered another element, an array that is
added holds one of them, and the record gets its fields. -/
def completion : List Edit := [
  .setElement ⟨3⟩ (.array ⟨0⟩), .setElement ⟨3⟩ .string, .setElement ⟨1⟩ .string,
  .newArray "board" (some (.array ⟨3⟩)), .setFields ⟨0⟩ [⟨"cells", .array ⟨4⟩⟩]]

/-- The first element wins, so that rows and lines are one type in the end as well, and words another. -/
theorem halfBuilt_keeps_verdicts : halfBuilt.Closed ∧ Permitted edit Admits halfBuilt completion ∧
    ∃ b, completion.foldlM edit halfBuilt = .ok b ∧
      b.sameType (.array ⟨0⟩) (.array ⟨1⟩) = .ok true ∧
      b.sameType (.array ⟨0⟩) (.array ⟨2⟩) = .ok false ∧
      b.element? (.array ⟨3⟩) = some (.array ⟨0⟩) ∧ b.display (.record ⟨0⟩) = .ok "point" := by
  have hc : halfBuilt.Closed := closed_of_entries (by decide) (by decide)
  have hadmits : Permitted edit Admits halfBuilt completion := by decide
  obtain ⟨b, hb, -, htrue, hfalse, helement, hname⟩ := edits_keep_verdicts halfBuilt hc completion hadmits
  have hfilled : ∀ {i : ArrayId} {t : Ty}, halfBuilt.element? (.array i) = some t → t.isArray = false →
      halfBuilt.FilledFrom (.array i) := by
    intro i t hi ht id hid
    rcases ReflTransGen.cases_head hid with heq | ⟨u, hu, hrest⟩
    · exact ⟨t, heq ▸ hi⟩
    · -- behind the element there is nothing, since it is no array
      rw [hi, Option.some.injEq] at hu
      subst hu
      rcases ReflTransGen.cases_head hrest with heq | ⟨w, hw, -⟩
      · rw [heq] at ht
        cases ht
      · rw [isArray_of_element? hw] at ht
        cases ht
  refine ⟨hc, hadmits, b, hb, htrue _ _ (by decide) (by decide) (by decide),
    hfalse _ _ (by decide) (by decide) (hfilled rfl rfl) (hfilled rfl rfl) (by decide),
    helement ⟨3⟩ (by decide), ?_⟩
  obtain ⟨-, name, hold, hnew⟩ := hname (.record ⟨0⟩) (by decide)
  exact hnew.trans hold.symm

end Arena

end TigerCheck
