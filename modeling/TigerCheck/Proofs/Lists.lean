import Mathlib.Data.List.Forall2

/-!
# Lists side by side

* `mapM_eq_some_iff`: the answers to the items of a list.
* `exists_mem_of_forall₂`, `forall_mem_of_forall₂`, `forall₂_imp_mem`: from one of two related lists to the other.
* `exists_eq_map_of_forall₂`: originals of a list of images.
-/

namespace TigerCheck

/-- All answers are found exactly if they are found one by one. -/
theorem mapM_eq_some_iff {α β : Type} {f : α → Option β} {l : List α} {l' : List β} :
    l.mapM f = some l' ↔ List.Forall₂ (fun a b => f a = some b) l l' := by
  induction l generalizing l' with
  | nil =>
    rw [List.mapM_nil, List.forall₂_nil_left_iff]
    exact ⟨fun h => (Option.some.inj h).symm, fun h => congrArg some h.symm⟩
  | cons a l ih =>
    rw [List.mapM_cons, List.forall₂_cons_left_iff]
    constructor
    · intro h
      obtain ⟨b, hb, h⟩ := Option.bind_eq_some_iff.mp h
      obtain ⟨bs, hbs, h⟩ := Option.bind_eq_some_iff.mp h
      exact ⟨b, bs, hb, ih.mp hbs, (Option.some.inj h).symm⟩
    · rintro ⟨b, bs, hb, hbs, rfl⟩
      rw [hb, ih.mpr hbs]
      rfl

theorem exists_mem_of_forall₂ {α β : Type} {R : α → β → Prop} {l : List α} {l' : List β}
    (h : List.Forall₂ R l l') {a : α} (ha : a ∈ l) : ∃ b ∈ l', R a b := by
  induction h with
  | nil => cases ha
  | @cons x y l l' hxy _ ih =>
    rcases List.mem_cons.mp ha with rfl | ha
    · exact ⟨y, List.mem_cons_self, hxy⟩
    · obtain ⟨b, hb, hab⟩ := ih ha
      exact ⟨b, List.mem_cons_of_mem _ hb, hab⟩

theorem forall_mem_of_forall₂ {α β : Type} {R : α → β → Prop} {P : β → Prop} {l : List α}
    {l' : List β} (h : List.Forall₂ R l l') (hR : ∀ a b, R a b → P b) : ∀ b ∈ l', P b := by
  induction h with
  | nil => simp
  | cons hab _ ih => exact List.forall_mem_cons.mpr ⟨hR _ _ hab, ih⟩

theorem forall₂_imp_mem {α β : Type} {R S : α → β → Prop} {l : List α} {l' : List β}
    (h : List.Forall₂ R l l') (hRS : ∀ a ∈ l, ∀ b, R a b → S a b) : List.Forall₂ S l l' := by
  induction h with
  | nil => exact .nil
  | cons hab _ ih =>
    obtain ⟨h₁, h₂⟩ := List.forall_mem_cons.mp hRS
    exact .cons (h₁ _ hab) (ih h₂)

/-- A list of images has a list of originals. -/
theorem exists_eq_map_of_forall₂ {α β γ : Type} {P : α → β → Prop} {f : β → γ} {l : List α}
    {us : List γ} (h : List.Forall₂ (fun a u => ∃ t, P a t ∧ f t = u) l us) :
    ∃ ts, List.Forall₂ P l ts ∧ us = ts.map f := by
  induction h with
  | nil => exact ⟨[], .nil, rfl⟩
  | cons hp _ ih =>
    obtain ⟨t, ht, rfl⟩ := hp
    obtain ⟨ts, hts, rfl⟩ := ih
    exact ⟨t :: ts, .cons ht hts, rfl⟩

end TigerCheck
