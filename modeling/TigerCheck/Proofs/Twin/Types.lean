import Mathlib.Data.List.Forall2
import Mathlib.Data.Option.Basic
import TigerCheck.Proofs.Ty.Same

/-!
# Types of one arena that stand for types of another

Two runs of the checker number their records and arrays differently. What is compared between them is
therefore not the types themselves but how they are paired: which type of the one run stands for which
type of the other. A pairing is faithful if it takes different types to different types, and entries to
entries with paired types in them. Then everything that the checker asks about types has the same answer
on both sides.

* `Pairing`, `Shape.Paired`: which types, and which entries, stand for each other.
* `Arena.Mirrors`: a faithful pairing between two arenas.
* **`Arena.Mirrors.same_iff`**, **`Arena.Mirrors.matches_iff`**: the comparisons have the same answers.
* `Pairing.also`, **`Arena.Mirrors.create`**, **`Arena.Mirrors.complete`**: an entry on both sides.
* `Arena.Shifted`: old types as they are paired, and new ones in the order in which they were created.
-/

namespace TigerCheck

/-- Which types of one arena stand for which types of another. -/
abbrev Pairing := Ty → Ty → Prop

/-- Two fields of one name, with paired types. -/
structure Field.Paired (ρ : Pairing) (f g : Field) : Prop where
  name_eq : f.name = g.name
  ty : ρ f.ty g.ty

/-- Two entries of one kind with paired types in them. -/
inductive Shape.Paired (ρ : Pairing) : Shape → Shape → Prop where
  | record {e f : RecordEntry} : List.Forall₂ (Field.Paired ρ) e.fields f.fields →
      Shape.Paired ρ (.record e) (.record f)
  | array {e f : ArrayEntry} : Option.Rel ρ e.element f.element →
      Shape.Paired ρ (.array e) (.array f)

/-- Two signatures with paired types. -/
structure Signature.Paired (ρ : Pairing) (s t : Signature) : Prop where
  params : List.Forall₂ ρ s.params t.params
  result : ρ s.result t.result

variable {ρ ρ' : Pairing}

section

variable {α β : Type} {R S : α → β → Prop} {o : Option α} {o' : Option β}

theorem rel_imp (h : Option.Rel R o o') (hRS : ∀ a b, R a b → S a b) : Option.Rel S o o' := by
  cases h with
  | some h => exact .some (hRS _ _ h)
  | none => exact .none

theorem rel_flip (h : Option.Rel R o o') : Option.Rel (fun b a => R a b) o' o := by
  cases h with
  | some h => exact .some h
  | none => exact .none

theorem exists_of_rel {a : α} (h : Option.Rel R o o') (ho : o = some a) : ∃ b, o' = some b ∧ R a b := by
  cases h with
  | some h =>
    cases ho
    exact ⟨_, rfl, h⟩
  | none => cases ho

theorem isSome_eq_of_rel (h : Option.Rel R o o') : o.isSome = o'.isSome := by
  cases h <;> rfl

end

theorem Shape.Paired.imp {x y : Shape} (h : x.Paired ρ y) (hρ : ∀ s t, ρ s t → ρ' s t) :
    x.Paired ρ' y := by
  cases h with
  | record h => exact .record (h.imp fun _ _ hf => ⟨hf.name_eq, hρ _ _ hf.ty⟩)
  | array h => exact .array (rel_imp h hρ)

theorem Shape.Paired.flip {x y : Shape} (h : x.Paired ρ y) : y.Paired (fun t s => ρ s t) x := by
  cases h with
  | record h => exact .record (h.flip.imp fun _ _ hf => ⟨hf.name_eq.symm, hf.ty⟩)
  | array h => exact .array (rel_flip h)

theorem Signature.Paired.imp {s t : Signature} (h : s.Paired ρ t) (hρ : ∀ s t, ρ s t → ρ' s t) :
    s.Paired ρ' t := ⟨h.params.imp hρ, hρ _ _ h.result⟩

namespace Arena

/-- A faithful pairing between two arenas: types without an entry stand for themselves, different types
for different types, and what is in an entry for what is in the entry on the other side. -/
structure Mirrors (a : Arena) (ρ : Pairing) (b : Arena) : Prop where
  int : ρ .int .int
  string : ρ .string .string
  nil : ρ .nil .nil
  void : ρ .void .void
  has : ∀ s t, ρ s t → a.Has s ∧ b.Has t
  shape : ∀ s t, ρ s t → Option.Rel (Shape.Paired ρ) (a.shape s) (b.shape t)
  unique : ∀ s t s' t', ρ s t → ρ s' t' → (s = s' ↔ t = t')

variable {a a' b b' : Arena} {s s' t t' : Ty} {x y : Shape}

namespace Mirrors

theorem flip (h : a.Mirrors ρ b) : b.Mirrors (fun t s => ρ s t) a where
  int := h.int
  string := h.string
  nil := h.nil
  void := h.void
  has s t hst := (h.has t s hst).symm
  shape s t hst := rel_imp (rel_flip (h.shape t s hst)) fun _ _ hp => hp.flip
  unique s t s' t' hst hst' := (h.unique t s t' s' hst hst').symm

/-! ## Kinds of types -/

theorem eq_int_iff (h : a.Mirrors ρ b) (hst : ρ s t) : s = .int ↔ t = .int :=
  h.unique _ _ _ _ hst h.int

theorem eq_nil_iff (h : a.Mirrors ρ b) (hst : ρ s t) : s = .nil ↔ t = .nil :=
  h.unique _ _ _ _ hst h.nil

theorem eq_void_iff (h : a.Mirrors ρ b) (hst : ρ s t) : s = .void ↔ t = .void :=
  h.unique _ _ _ _ hst h.void

theorem isInt_eq (h : a.Mirrors ρ b) (hst : ρ s t) : s.isInt = t.isInt := by
  rw [Bool.eq_iff_iff, Ty.isInt_iff, Ty.isInt_iff, h.eq_int_iff hst]

theorem isNil_eq (h : a.Mirrors ρ b) (hst : ρ s t) : s.isNil = t.isNil := by
  rw [Bool.eq_iff_iff, Ty.isNil_iff, Ty.isNil_iff, h.eq_nil_iff hst]

theorem isVoid_eq (h : a.Mirrors ρ b) (hst : ρ s t) : s.isVoid = t.isVoid := by
  rw [Bool.eq_iff_iff, Ty.isVoid_iff, Ty.isVoid_iff, h.eq_void_iff hst]

theorem isRecord_of_isRecord (h : a.Mirrors ρ b) (hst : ρ s t) (hs : s.isRecord = true) :
    t.isRecord = true := by
  obtain ⟨id, rfl⟩ := Ty.isRecord_iff.mp hs
  obtain ⟨x, hx, hp⟩ := exists_of_rel (h.shape _ _ hst) (shape_record_of_has (h.has _ _ hst).1)
  cases hp with
  | record =>
    obtain ⟨id', rfl, -⟩ := shape_eq_record_iff.mp hx
    rfl

theorem isArray_of_isArray (h : a.Mirrors ρ b) (hst : ρ s t) (hs : s.isArray = true) :
    t.isArray = true := by
  obtain ⟨id, rfl⟩ := Ty.isArray_iff.mp hs
  obtain ⟨x, hx, hp⟩ := exists_of_rel (h.shape _ _ hst) (shape_array_of_has (h.has _ _ hst).1)
  cases hp with
  | array =>
    obtain ⟨id', rfl, -⟩ := shape_eq_array_iff.mp hx
    rfl

theorem isRecord_eq (h : a.Mirrors ρ b) (hst : ρ s t) : s.isRecord = t.isRecord :=
  Bool.eq_iff_iff.mpr ⟨h.isRecord_of_isRecord hst, h.flip.isRecord_of_isRecord hst⟩

theorem isArray_eq (h : a.Mirrors ρ b) (hst : ρ s t) : s.isArray = t.isArray :=
  Bool.eq_iff_iff.mpr ⟨h.isArray_of_isArray hst, h.flip.isArray_of_isArray hst⟩

/-! ## Entries -/

theorem element? (h : a.Mirrors ρ b) (hst : ρ s t) :
    Option.Rel ρ (a.element? s) (b.element? t) := by
  have hshape := h.shape _ _ hst
  unfold Arena.element?
  generalize a.shape s = o at hshape
  generalize b.shape t = o' at hshape
  cases hshape with
  | none => exact .none
  | some hp =>
    cases hp with
    | record => exact .none
    | array he => exact he

theorem record? (h : a.Mirrors ρ b) (hst : ρ s t) :
    Option.Rel (fun e f : RecordEntry => List.Forall₂ (Field.Paired ρ) e.fields f.fields)
      (a.record? s) (b.record? t) := by
  have hshape := h.shape _ _ hst
  unfold Arena.record?
  generalize a.shape s = o at hshape
  generalize b.shape t = o' at hshape
  cases hshape with
  | none => exact .none
  | some hp =>
    cases hp with
    | record hf => exact .some hf
    | array => exact .none

/-! ## The comparisons -/

theorem same_of_same (h : a.Mirrors ρ b) (hs : ρ s t) (ht : ρ s' t') (hsame : a.Same s s') :
    b.Same t t' := by
  obtain ⟨R, hR, hstep⟩ := hsame
  refine ⟨fun u v => ∃ x y, ρ x u ∧ ρ y v ∧ R x y, ⟨s, s', hs, ht, hR⟩, ?_⟩
  rintro u v ⟨x, y, hx, hy, hxy⟩
  cases hstep x y hxy with
  | refl =>
    rw [(h.unique _ _ _ _ hx hy).mp rfl]
    exact .refl v
  | elements he hf hr =>
    obtain ⟨_, hu, hpu⟩ := exists_of_rel (h.element? hx) he
    obtain ⟨_, hv, hpv⟩ := exists_of_rel (h.element? hy) hf
    exact .elements hu hv ⟨_, _, hpu, hpv, hr⟩

/-- **Types are the same exactly if those that they stand for are.** -/
theorem same_iff (h : a.Mirrors ρ b) (hs : ρ s t) (ht : ρ s' t') : a.Same s s' ↔ b.Same t t' :=
  ⟨h.same_of_same hs ht, h.flip.same_of_same hs ht⟩

theorem forall₂_same {fs gs fs' gs' : List Field} (h : a.Mirrors ρ b)
    (hf : List.Forall₂ (Field.Paired ρ) fs fs') : List.Forall₂ (Field.Paired ρ) gs gs' →
    List.Forall₂ (fun x y => a.Same x.ty y.ty) fs gs →
    List.Forall₂ (fun x y => b.Same x.ty y.ty) fs' gs' := by
  induction hf generalizing gs gs' with
  | nil =>
    intro hg hall
    cases hall
    cases hg
    exact .nil
  | cons hx _ ih =>
    intro hg hall
    cases hall with
    | cons hsame hall =>
      cases hg with
      | cons hy hg => exact .cons (h.same_of_same hx.ty hy.ty hsame) (ih hg hall)

theorem matches_of_matches (h : a.Mirrors ρ b) (hs : ρ s t) (ht : ρ s' t') (hm : a.Matches s s') :
    b.Matches t t' := by
  obtain ⟨hnil, hm⟩ := hm
  refine ⟨fun hn => hnil ⟨(h.eq_nil_iff hs).mpr hn.1, (h.eq_nil_iff ht).mpr hn.2⟩, ?_⟩
  rcases hm with hsame | ⟨hn, hr⟩ | ⟨hr, hn⟩ | ⟨e, f, he, hf, hall⟩
  · exact Or.inl (h.same_of_same hs ht hsame)
  · exact Or.inr (Or.inl ⟨(h.eq_nil_iff hs).mp hn, h.isRecord_of_isRecord ht hr⟩)
  · exact Or.inr (Or.inr (Or.inl ⟨h.isRecord_of_isRecord hs hr, (h.eq_nil_iff ht).mp hn⟩))
  · obtain ⟨x, hx, hp⟩ := exists_of_rel (h.shape _ _ hs) he
    obtain ⟨y, hy, hq⟩ := exists_of_rel (h.shape _ _ ht) hf
    cases hp with
    | record hp =>
      cases hq with
      | record hq => exact Or.inr (Or.inr (Or.inr ⟨_, _, hx, hy, h.forall₂_same hp hq hall⟩))

/-- **Types match exactly if those that they stand for do.** -/
theorem matches_iff (h : a.Mirrors ρ b) (hs : ρ s t) (ht : ρ s' t') : a.Matches s s' ↔ b.Matches t t' :=
  ⟨h.matches_of_matches hs ht, h.flip.matches_of_matches hs ht⟩

end Mirrors

/-! ## Arenas that grow -/

/-- A type of an arena has the shape that it had, where shapes are kept. -/
theorem shape_eq_of_kept (hkeep : ∀ t s, a.shape t = some s → a'.shape t = some s) (ht : a.Has t) :
    a'.shape t = a.shape t := by
  cases t with
  | record id =>
    rw [shape_record_of_has ht]
    exact hkeep _ _ (shape_record_of_has ht)
  | array id =>
    rw [shape_array_of_has ht]
    exact hkeep _ _ (shape_array_of_has ht)
  | _ => rfl

theorem has_of_kept (hkeep : ∀ t s, a.shape t = some s → a'.shape t = some s) (ht : a.Has t) :
    a'.Has t := by
  rcases shape_or_plain ht with ⟨s, hs⟩ | hplain
  · exact has_of_shape (hkeep t s hs)
  · exact hplain _

/-- A pairing stays faithful where entries are added that it does not mention. -/
theorem Mirrors.kept (h : a.Mirrors ρ b) (ha : ∀ t s, a.shape t = some s → a'.shape t = some s)
    (hb : ∀ t s, b.shape t = some s → b'.shape t = some s) : a'.Mirrors ρ b' where
  int := h.int
  string := h.string
  nil := h.nil
  void := h.void
  has s t hst := ⟨has_of_kept ha (h.has s t hst).1, has_of_kept hb (h.has s t hst).2⟩
  shape s t hst := by
    rw [shape_eq_of_kept ha (h.has s t hst).1, shape_eq_of_kept hb (h.has s t hst).2]
    exact h.shape s t hst
  unique := h.unique

end Arena

/-- One more pair of types. -/
def Pairing.also (ρ : Pairing) (s t : Ty) : Pairing := fun u v => ρ u v ∨ (u = s ∧ v = t)

theorem Pairing.also_self (ρ : Pairing) (s t : Ty) : ρ.also s t s t := Or.inr ⟨rfl, rfl⟩

namespace Arena

variable {a a' b b' : Arena} {s t : Ty} {x y : Shape}

/-- **An entry is created on both sides**, with paired types in it, and the two stand for each other. -/
theorem Mirrors.create (h : a.Mirrors ρ b) (hs : ¬ a.Has s) (ht : ¬ b.Has t) (hx : a.Puts s x a')
    (hy : b.Puts t y b') (hxy : x.Paired ρ y) : a'.Mirrors (ρ.also s t) b' where
  int := Or.inl h.int
  string := Or.inl h.string
  nil := Or.inl h.nil
  void := Or.inl h.void
  has u v := by
    rintro (huv | ⟨rfl, rfl⟩)
    · exact ⟨hx.has (h.has _ _ huv).1, hy.has (h.has _ _ huv).2⟩
    · exact ⟨hx.has_self, hy.has_self⟩
  shape u v := by
    rintro (huv | ⟨rfl, rfl⟩)
    · obtain ⟨hu, hv⟩ := h.has _ _ huv
      rw [hx.shape_ne u fun heq => hs (heq ▸ hu), hy.shape_ne v fun heq => ht (heq ▸ hv)]
      exact rel_imp (h.shape _ _ huv) fun _ _ hp => hp.imp fun _ _ => Or.inl
    · rw [hx.shape_eq, hy.shape_eq]
      exact .some (hxy.imp fun _ _ => Or.inl)
  unique u v u' v' := by
    rintro (huv | ⟨rfl, rfl⟩) (huv' | ⟨rfl, rfl⟩)
    · exact h.unique _ _ _ _ huv huv'
    · exact iff_of_false (fun heq => hs (heq ▸ (h.has _ _ huv).1)) fun heq => ht (heq ▸ (h.has _ _ huv).2)
    · exact iff_of_false (fun heq => hs (heq ▸ (h.has _ _ huv').1)) fun heq => ht (heq ▸ (h.has _ _ huv').2)
    · exact iff_of_true rfl rfl

/-- **An entry is completed on both sides** with paired types. -/
theorem Mirrors.complete (h : a.Mirrors ρ b) (hst : ρ s t) (hx : a.Puts s x a') (hy : b.Puts t y b')
    (hxy : x.Paired ρ y) : a'.Mirrors ρ b' where
  int := h.int
  string := h.string
  nil := h.nil
  void := h.void
  has u v huv := ⟨hx.has (h.has _ _ huv).1, hy.has (h.has _ _ huv).2⟩
  shape u v huv := by
    have hiff := h.unique _ _ _ _ huv hst
    by_cases hus : u = s
    · rw [hus, hiff.mp hus, hx.shape_eq, hy.shape_eq]
      exact .some hxy
    · rw [hx.shape_ne u hus, hy.shape_ne v (mt hiff.mpr hus)]
      exact h.shape u v huv
  unique := h.unique

/-! ## Numbering -/

/-- Old types are paired as they were, and new ones in the order in which they were created. -/
inductive Shifted (a : Arena) (ρ : Pairing) (b : Arena) : Ty → Ty → Prop where
  | old {s t : Ty} : ρ s t → Shifted a ρ b s t
  | record (i : ℕ) : Shifted a ρ b (.record ⟨a.records.size + i⟩) (.record ⟨b.records.size + i⟩)
  | array (i : ℕ) : Shifted a ρ b (.array ⟨a.arrays.size + i⟩) (.array ⟨b.arrays.size + i⟩)

/-- The two sides are numbered alike from a later state on if they have grown by the same numbers of
entries. -/
theorem Shifted.trans {m n : ℕ} (ha : a'.records.size = a.records.size + m)
    (hb : b'.records.size = b.records.size + m) (ha' : a'.arrays.size = a.arrays.size + n)
    (hb' : b'.arrays.size = b.arrays.size + n) (hρ : ∀ s t, ρ' s t → a.Shifted ρ b s t)
    (h : a'.Shifted ρ' b' s t) : a.Shifted ρ b s t := by
  cases h with
  | old h => exact hρ _ _ h
  | record i =>
    rw [ha, hb, Nat.add_assoc, Nat.add_assoc]
    exact .record _
  | array i =>
    rw [ha', hb', Nat.add_assoc, Nat.add_assoc]
    exact .array _

end Arena

end TigerCheck
