import TigerCheck.Proofs.Twin.Rule

/-!
# Resolving a run of types in two runs

The type names of a run are bound in the same order on both sides, so those of the one side stand for those
of the other by their place in the run; type names from before the run are settled. Every step of a
resolution is then the same on both sides, and so are the entries that it creates, in their order.

* `NamedType.Paired`: two declarations that are resolved equally far.
* `SameName`: type names that stand for each other during a run.
* `Midway`: two states in the middle of the run. `Resolves`: a step of both runs.
* `Check.both_handOut`, `Check.both_meetAgain`, `Check.both_complete`, …: the parts of a resolution.
* **`Check.both_resolve`**, **`Check.both_typeAt`**: a declaration is resolved on both sides.
-/

namespace TigerCheck

open Check

/-- Two declarations that are resolved equally far. -/
inductive NamedType.Paired (ρ : Pairing) : NamedType → NamedType → Prop where
  | pending (dec : TypeDec) {o o' : Option Ty} : Option.Rel ρ o o' →
      NamedType.Paired ρ (.pending dec o) (.pending dec o')
  | resolved {s t : Ty} : ρ s t → NamedType.Paired ρ (.resolved s) (.resolved t)
  | poisoned : NamedType.Paired ρ .poisoned .poisoned

theorem NamedType.Paired.imp {ρ ρ' : Pairing} {s t : NamedType} (h : s.Paired ρ t)
    (hρ : ∀ s t, ρ s t → ρ' s t) : s.Paired ρ' t := by
  cases h with
  | pending dec h => exact .pending dec (rel_imp h hρ)
  | resolved h => exact .resolved (hρ _ _ h)
  | poisoned => exact .poisoned

/-- The types that two type names stand for if they are settled. -/
def NamedType.answer : NamedType → Option Ty
  | .resolved t => some t
  | _ => none

variable {free : Prop} {ρ₀ ρ ρ₁ ρ' : Pairing} {c d x y x₁ y₁ x' y' : Checker} {i j : NamedTypeId}

/-- Type names that stand for each other during a run: settled ones from before the run, and those of the run
by their place in it. -/
inductive SameName (c : Checker) (ρ : Pairing) (d : Checker) : NamedTypeId → NamedTypeId → Prop where
  | settled {i j : NamedTypeId} {s t : NamedType} : c.status i = some s → d.status j = some t →
      s.Paired ρ t → (∀ dec o, s ≠ .pending dec o) → SameName c ρ d i j
  | declared (k : ℕ) : SameName c ρ d ⟨c.namedTypes.size + k⟩ ⟨d.namedTypes.size + k⟩

/-- Two states in the middle of a run of types that was opened in two other states. -/
structure Midway (c : Checker) (ρ₀ : Pairing) (d x : Checker) (ρ : Pairing) (y : Checker) : Prop where
  mirrors : x.types.Mirrors ρ y.types
  le : ∀ s t, ρ₀ s t → ρ s t
  size : ∃ r, x.namedTypes.size = c.namedTypes.size + r ∧ y.namedTypes.size = d.namedTypes.size + r
  kept : ∀ i s, c.status i = some s → x.status i = some s
  kept' : ∀ j t, d.status j = some t → y.status j = some t
  declared : ∀ k, Option.Rel (NamedType.Paired ρ) (x.status ⟨c.namedTypes.size + k⟩)
    (y.status ⟨d.namedTypes.size + k⟩)
  names : ∀ name, Option.Rel (SameName c ρ₀ d) (x.typeNames.lookup name) (y.typeNames.lookup name)

/-- A step of both runs, with answers that stand for each other. -/
def Resolves (free : Prop) (c : Checker) (ρ₀ : Pairing) (d x : Checker) (ρ : Pairing) (y : Checker)
    {α β : Type} (R : Pairing → α → β → Prop) (a : α) (b : β) (x' y' : Checker) : Prop :=
  ∃ ρ', Grows free ρ x y ρ' x' y' ∧ Midway c ρ₀ d x' ρ' y' ∧ R ρ' a b

namespace Midway

theorem status (h : Midway c ρ₀ d x ρ y) (hij : SameName c ρ₀ d i j) :
    Option.Rel (NamedType.Paired ρ) (x.status i) (y.status j) := by
  cases hij with
  | settled hs ht hp _ =>
    rw [h.kept _ _ hs, h.kept' _ _ ht]
    exact .some (hp.imp h.le)
  | declared k => exact h.declared k

/-- What is not settled is one of the run. -/
theorem place_of_pending (h : Midway c ρ₀ d x ρ y) (hij : SameName c ρ₀ d i j) {dec : TypeDec}
    {o : Option Ty} (hs : x.status i = some (.pending dec o)) :
    ∃ k, i = ⟨c.namedTypes.size + k⟩ ∧ j = ⟨d.namedTypes.size + k⟩ := by
  cases hij with
  | settled hs' _ _ hn =>
    rw [h.kept _ _ hs'] at hs
    cases hs
    exact absurd rfl (hn dec o)
  | declared k => exact ⟨k, rfl, rfl⟩

/-- The tables of types and of type names matter only. -/
theorem congr (h : Midway c ρ₀ d x ρ y) (htypes : x'.types = x.types) (htypes' : y'.types = y.types)
    (hnamed : x'.namedTypes = x.namedTypes) (hnamed' : y'.namedTypes = y.namedTypes)
    (hnames : x'.typeNames = x.typeNames) (hnames' : y'.typeNames = y.typeNames) :
    Midway c ρ₀ d x' ρ y' where
  mirrors := by rw [htypes, htypes']; exact h.mirrors
  le := h.le
  size := by rw [hnamed, hnamed']; exact h.size
  kept i s hs := by rw [Checker.status, hnamed]; exact h.kept i s hs
  kept' j t ht := by rw [Checker.status, hnamed']; exact h.kept' j t ht
  declared k := by rw [Checker.status, Checker.status, hnamed, hnamed']; exact h.declared k
  names name := by rw [hnames, hnames']; exact h.names name

/-- The arenas may grow alike. -/
theorem withTypes (h : Midway c ρ₀ d x ρ y) {a b : Arena} (hm : a.Mirrors ρ' b)
    (hle : ∀ s t, ρ s t → ρ' s t) : Midway c ρ₀ d { x with types := a } ρ' { y with types := b } where
  mirrors := hm
  le s t hst := hle s t (h.le s t hst)
  size := h.size
  kept := h.kept
  kept' := h.kept'
  declared k := rel_imp (h.declared k) fun _ _ hp => hp.imp hle
  names := h.names

/-- A type name of the run gets as far on both sides. -/
theorem mark (h : Midway c ρ₀ d x ρ y) (k : ℕ) {s t : NamedType} (hst : s.Paired ρ t)
    (hlt : c.namedTypes.size + k < x.namedTypes.size) (hlt' : d.namedTypes.size + k < y.namedTypes.size) :
    Midway c ρ₀ d (x.mark ⟨c.namedTypes.size + k⟩ s) ρ (y.mark ⟨d.namedTypes.size + k⟩ t) where
  mirrors := h.mirrors
  le := h.le
  size := by simpa [Checker.mark] using h.size
  kept i r hr := by
    have hlt := Checker.lt_of_status hr
    rw [Checker.status_mark_ne (by rintro rfl; dsimp only at hlt; omega)]
    exact h.kept i r hr
  kept' j r hr := by
    have hlt := Checker.lt_of_status hr
    rw [Checker.status_mark_ne (by rintro rfl; dsimp only at hlt; omega)]
    exact h.kept' j r hr
  declared l := by
    by_cases hl : l = k
    · subst hl
      rw [Checker.status_mark_self (Array.getElem?_eq_getElem hlt),
        Checker.status_mark_self (Array.getElem?_eq_getElem hlt')]
      exact .some hst
    · rw [Checker.status_mark_ne (by simp [hl]), Checker.status_mark_ne (by simp [hl])]
      exact h.declared l
  names := h.names

end Midway

namespace Resolves

variable {α β : Type} {R : Pairing → α → β → Prop} {a : α} {b : β}

theorem still (h : Midway c ρ₀ d x ρ y) (hR : R ρ a b) : Resolves free c ρ₀ d x ρ y R a b x y :=
  ⟨ρ, .same h.mirrors (.refl x) (.refl y), h, hR⟩

/-- A step after another one. -/
theorem after (hg : Grows free ρ x y ρ₁ x₁ y₁) (h : Resolves free c ρ₀ d x₁ ρ₁ y₁ R a b x' y') :
    Resolves free c ρ₀ d x ρ y R a b x' y' := by
  obtain ⟨ρ', hg', hm, hR⟩ := h
  exact ⟨ρ', hg.trans hg', hm, hR⟩

end Resolves

/-- The types and the reports that a step adds. -/
theorem Checker.gains_types {c : Checker} {a : Arena} {r n : ℕ} (hr : a.records.size = c.types.records.size + r)
    (hn : a.arrays.size = c.types.arrays.size + n) : c.Gains ⟨[], r, n, 0, 0, 0⟩ { c with types := a } :=
  ⟨(List.append_nil _).symm, hr, hn, rfl, rfl, rfl⟩

theorem Arena.size_of_setFields {a b : Arena} {id : RecordId} {fields : List Field}
    (h : a.setFields id fields = .ok b) :
    b.records.size = a.records.size ∧ b.arrays.size = a.arrays.size := by
  unfold Arena.setFields at h
  split at h
  · cases h
    exact ⟨by simp, rfl⟩
  · cases h

theorem Arena.size_of_setElement {a b : Arena} {id : ArrayId} {element : Ty}
    (h : a.setElement id element = .ok b) :
    b.records.size = a.records.size ∧ b.arrays.size = a.arrays.size := by
  unfold Arena.setElement at h
  split at h
  · cases h
    exact ⟨rfl, by simp⟩
  · cases h

namespace Check

variable {α α' β β' : Type} {R : Pairing → α → α' → Prop} {R' : Pairing → β → β' → Prop}

/-- **One step after another.** -/
theorem Both.andThen {m : Check α} {m' : Check α'} {f : α → Check β} {f' : α' → Check β'}
    (h : Both m m' x y (Resolves free c ρ₀ d x ρ y R))
    (hf : ∀ ρ₁ a b x₁ y₁, Midway c ρ₀ d x₁ ρ₁ y₁ → (∀ s t, ρ s t → ρ₁ s t) → R ρ₁ a b →
      Both (f a) (f' b) x₁ y₁ (Resolves free c ρ₀ d x₁ ρ₁ y₁ R')) :
    Both (m >>= f) (m' >>= f') x y (Resolves free c ρ₀ d x ρ y R') := by
  refine h.bind ?_
  rintro a b x₁ y₁ ⟨ρ₁, hg, hm, hR⟩
  exact (hf ρ₁ a b x₁ y₁ hm hg.le hR).mono fun _ _ _ _ h' => h'.after hg

/-- A name of the run on either side, with the states that the two are in. -/
theorem both_namedType (h : Midway c ρ₀ d x ρ y) (hij : SameName c ρ₀ d i j) :
    Both (namedType i) (namedType j) x y fun s t x' y' =>
      s.Paired ρ t ∧ x.status i = some s ∧ x' = x ∧ y' = y := by
  intro s x' t y' hs ht
  obtain ⟨s, hs', rfl, rfl⟩ := yields_namedType.mp (yields_of_run hs)
  obtain ⟨t, ht', rfl, rfl⟩ := yields_namedType.mp (yields_of_run ht)
  have hstatus := h.status hij
  rw [Checker.status, Checker.status, hs', ht'] at hstatus
  cases hstatus with
  | some hp => exact ⟨hp, hs', rfl, rfl⟩

theorem both_setNamedType (h : Midway c ρ₀ d x ρ y) (k : ℕ) {s t : NamedType} (hst : s.Paired ρ t) :
    Both (setNamedType ⟨c.namedTypes.size + k⟩ s) (setNamedType ⟨d.namedTypes.size + k⟩ t) x y
      (Resolves free c ρ₀ d x ρ y fun _ _ _ => True) := by
  rintro _ x' _ y' hs ht
  obtain ⟨hlt, -, rfl⟩ := yields_setNamedType.mp (yields_of_run hs)
  obtain ⟨hlt', -, rfl⟩ := yields_setNamedType.mp (yields_of_run ht)
  exact ⟨ρ, .same h.mirrors (.none rfl rfl rfl) (.none rfl rfl rfl), h.mark k hst hlt hlt', trivial⟩

/-! ## Entries -/

theorem both_newRecord (h : Midway c ρ₀ d x ρ y) (name : String) {fs gs : List Field}
    (hf : List.Forall₂ (Field.Paired ρ) fs gs) :
    Both (newRecord name fs) (newRecord name gs) x y (Resolves free c ρ₀ d x ρ y fun ρ' s t => ρ' s t) := by
  rintro s x' t y' hs ht
  obtain ⟨rfl, rfl⟩ := yields_newRecord.mp (yields_of_run hs)
  obtain ⟨rfl, rfl⟩ := yields_newRecord.mp (yields_of_run ht)
  have hnew : ∀ {a : Arena} {fs : List Field}, ¬ a.Has (a.newRecord name fs).1 := fun hhas =>
    Nat.lt_irrefl _ hhas
  have hm := h.mirrors.create hnew hnew (Arena.puts_newRecord name fs) (Arena.puts_newRecord name gs) (.record hf)
  have hsize : ∀ {a : Arena} {fs : List Field}, (a.newRecord name fs).2.records.size = a.records.size + 1 :=
    Array.size_push _
  refine ⟨_, ⟨⟨_, _, Checker.gains_types (n := 0) hsize rfl, Checker.gains_types hsize rfl, .refl free _⟩, hm,
    fun _ _ => Or.inl, ?_⟩, h.withTypes hm fun _ _ => Or.inl, Pairing.also_self ..⟩
  rintro u v (huv | ⟨rfl, rfl⟩)
  · exact .old huv
  · exact .record 0

theorem both_newArray (h : Midway c ρ₀ d x ρ y) (name : String) {o o' : Option Ty} (ho : Option.Rel ρ o o') :
    Both (newArray name o) (newArray name o') x y (Resolves free c ρ₀ d x ρ y fun ρ' s t => ρ' s t) := by
  rintro s x' t y' hs ht
  obtain ⟨rfl, rfl⟩ := yields_newArray.mp (yields_of_run hs)
  obtain ⟨rfl, rfl⟩ := yields_newArray.mp (yields_of_run ht)
  have hnew : ∀ {a : Arena} {o : Option Ty}, ¬ a.Has (a.newArray name o).1 := fun hhas =>
    Nat.lt_irrefl _ hhas
  have hm := h.mirrors.create hnew hnew (Arena.puts_newArray name o) (Arena.puts_newArray name o') (.array ho)
  have hsize : ∀ {a : Arena} {o : Option Ty}, (a.newArray name o).2.arrays.size = a.arrays.size + 1 :=
    Array.size_push _
  refine ⟨_, ⟨⟨_, _, Checker.gains_types (r := 0) rfl hsize, Checker.gains_types rfl hsize, .refl free _⟩, hm,
    fun _ _ => Or.inl, ?_⟩, h.withTypes hm fun _ _ => Or.inl, Pairing.also_self ..⟩
  rintro u v (huv | ⟨rfl, rfl⟩)
  · exact .old huv
  · exact .array 0

theorem both_setFields (h : Midway c ρ₀ d x ρ y) {r r' : RecordId} (hr : ρ (.record r) (.record r'))
    {fs gs : List Field} (hf : List.Forall₂ (Field.Paired ρ) fs gs) :
    Both (setFields r fs) (setFields r' gs) x y (Resolves free c ρ₀ d x ρ y fun ρ' _ _ => ρ' = ρ) := by
  rintro _ x' _ y' hs ht
  obtain ⟨a, ha, -, rfl⟩ := yields_setFields.mp (yields_of_run hs)
  obtain ⟨b, hb, -, rfl⟩ := yields_setFields.mp (yields_of_run ht)
  obtain ⟨hhas, hhas'⟩ := h.mirrors.has _ _ hr
  obtain ⟨_, ha', hputs⟩ := Arena.puts_setFields fs (Arena.shape_record_of_has hhas)
  obtain ⟨_, hb', hputs'⟩ := Arena.puts_setFields gs (Arena.shape_record_of_has hhas')
  cases ha.symm.trans ha'
  cases hb.symm.trans hb'
  have hm := h.mirrors.complete hr hputs hputs' (.record hf)
  obtain ⟨hsize, hsize'⟩ := Arena.size_of_setFields ha
  obtain ⟨ksize, ksize'⟩ := Arena.size_of_setFields hb
  exact ⟨ρ, .same hm (Checker.gains_types (r := 0) (n := 0) hsize hsize') (Checker.gains_types ksize ksize'),
    h.withTypes hm fun _ _ h => h, rfl⟩

theorem both_setElement (h : Midway c ρ₀ d x ρ y) {r r' : ArrayId} (hr : ρ (.array r) (.array r'))
    {s t : Ty} (hst : ρ s t) :
    Both (setElement r s) (setElement r' t) x y (Resolves free c ρ₀ d x ρ y fun ρ' _ _ => ρ' = ρ) := by
  rintro _ x' _ y' hs ht
  obtain ⟨a, ha, -, rfl⟩ := yields_setElement.mp (yields_of_run hs)
  obtain ⟨b, hb, -, rfl⟩ := yields_setElement.mp (yields_of_run ht)
  obtain ⟨hhas, hhas'⟩ := h.mirrors.has _ _ hr
  have hshape := h.mirrors.shape _ _ hr
  rw [Arena.shape_array_of_has hhas, Arena.shape_array_of_has hhas'] at hshape
  obtain ⟨_, ha', hputs⟩ := Arena.puts_setElement s (Arena.shape_array_of_has hhas)
  obtain ⟨_, hb', hputs'⟩ := Arena.puts_setElement t (Arena.shape_array_of_has hhas')
  cases ha.symm.trans ha'
  cases hb.symm.trans hb'
  generalize x.types.arrays[r.index] = e at hshape hputs
  generalize y.types.arrays[r'.index] = f at hshape hputs'
  have hoffer : Option.Rel ρ (e.offer s).element (f.offer t).element := by
    cases hshape with
    | some hp =>
      obtain ⟨n, o⟩ := e
      obtain ⟨n', o'⟩ := f
      cases hp with
      | array he =>
        dsimp only at he
        cases he with
        | none => exact .some hst
        | some he => exact .some he
  have hm := h.mirrors.complete hr hputs hputs' (.array hoffer)
  obtain ⟨hsize, hsize'⟩ := Arena.size_of_setElement ha
  obtain ⟨ksize, ksize'⟩ := Arena.size_of_setElement hb
  exact ⟨ρ, .same hm (Checker.gains_types (r := 0) (n := 0) hsize hsize') (Checker.gains_types ksize ksize'),
    h.withTypes hm fun _ _ h => h, rfl⟩

/-! ## Chains -/

/-- A declaration of the run gets a new entry on both sides. -/
theorem both_newHandOut (h : Midway c ρ₀ d x ρ y) (k : ℕ) (dec : TypeDec) : Both
    (do
      let ty ← match dec.body with
        | .array _ => newArray dec.name.name none
        | _ => newRecord dec.name.name []
      setNamedType ⟨c.namedTypes.size + k⟩ (.pending dec (some ty))
      return ty)
    (do
      let ty ← match dec.body with
        | .array _ => newArray dec.name.name none
        | _ => newRecord dec.name.name []
      setNamedType ⟨d.namedTypes.size + k⟩ (.pending dec (some ty))
      return ty) x y (Resolves free c ρ₀ d x ρ y fun ρ' s t => ρ' s t) := by
  have hmark : ∀ {m m' : Check Ty}, Both m m' x y (Resolves free c ρ₀ d x ρ y fun ρ' s t => ρ' s t) →
      Both
        (do
          let ty ← m
          setNamedType ⟨c.namedTypes.size + k⟩ (.pending dec (some ty))
          return ty)
        (do
          let ty ← m'
          setNamedType ⟨d.namedTypes.size + k⟩ (.pending dec (some ty))
          return ty) x y (Resolves free c ρ₀ d x ρ y fun ρ' s t => ρ' s t) := fun hm => by
    refine hm.andThen fun ρ₁ s t x₁ y₁ h₁ _ hst => ?_
    refine (both_setNamedType h₁ k (.pending dec (.some hst))).andThen fun ρ₂ _ _ x₂ y₂ h₂ hle _ => ?_
    exact both_pure (.still h₂ (hle _ _ hst))
  cases dec.body with
  | array => exact hmark (both_newArray h _ .none)
  | record => exact hmark (both_newRecord h _ .nil)
  | synonym => exact hmark (both_newRecord h _ .nil)

/-- A declaration of the run gets an entry on both sides, or has one on both sides. -/
theorem both_handOut (h : Midway c ρ₀ d x ρ y) (k : ℕ) (dec : TypeDec) :
    Both (handOut ⟨c.namedTypes.size + k⟩ dec) (handOut ⟨d.namedTypes.size + k⟩ dec) x y
      (Resolves free c ρ₀ d x ρ y fun ρ' s t => ρ' s t) := by
  unfold handOut
  refine (both_namedType h (.declared k)).bind ?_
  rintro s t _ _ ⟨hst, -, rfl, rfl⟩
  cases hst with
  | pending dec' ho =>
    cases ho with
    | none => exact both_newHandOut h k dec
    | some ho => exact both_pure (.still h ho)
  | resolved => exact both_newHandOut h k dec
  | poisoned => exact both_newHandOut h k dec

end Check

/-- The type names of a run at one place in it. -/
def SamePlace (c d : Checker) (i j : NamedTypeId) : Prop :=
  ∃ k, i = ⟨c.namedTypes.size + k⟩ ∧ j = ⟨d.namedTypes.size + k⟩

theorem SamePlace.eq_iff {i' j' : NamedTypeId} (h : SamePlace c d i j) (h' : SamePlace c d i' j') :
    i = i' ↔ j = j' := by
  obtain ⟨k, rfl, rfl⟩ := h
  obtain ⟨k', rfl, rfl⟩ := h'
  simp

section

variable {ids ids' : List NamedTypeId}

theorem mem_iff_of_samePlace (h : SamePlace c d i j) (hids : List.Forall₂ (SamePlace c d) ids ids') :
    i ∈ ids ↔ j ∈ ids' := by
  induction hids with
  | nil => simp
  | cons hk _ ih => rw [List.mem_cons, List.mem_cons, ih, h.eq_iff hk]

theorem after_samePlace (h : SamePlace c d i j) (hids : List.Forall₂ (SamePlace c d) ids ids') :
    List.Forall₂ (SamePlace c d) (after i ids) (after j ids') := by
  induction hids with
  | nil => exact .nil
  | @cons k l ids ids' hk hids ih =>
    have hiff := hk.eq_iff h
    unfold Check.after
    by_cases hki : k = i
    · rw [List.dropWhile_cons_of_neg (by simpa using hki), List.dropWhile_cons_of_neg (by simpa using hiff.mp hki)]
      exact hids
    · rw [List.dropWhile_cons_of_pos (by simpa using hki),
        List.dropWhile_cons_of_pos (by simpa using mt hiff.mpr hki)]
      exact ih

end

namespace Check

variable {ids ids' chain chain' : List NamedTypeId}

/-- The first record or array along a chain is at the same place on both sides. -/
theorem both_firstConstructed (h : Midway c ρ₀ d x ρ y) (hids : List.Forall₂ (SamePlace c d) ids ids') :
    Both (firstConstructed ids) (firstConstructed ids') x y fun r r' x' y' => x' = x ∧ y' = y ∧
      Option.Rel (fun p q => SamePlace c d p.1 q.1 ∧ p.2 = q.2) r r' := by
  induction hids with
  | nil => exact both_pure ⟨rfl, rfl, .none⟩
  | cons hk _ ih =>
    obtain ⟨k, rfl, rfl⟩ := hk
    rw [firstConstructed, firstConstructed]
    refine (both_namedType h (.declared k)).bind ?_
    rintro s t _ _ ⟨hst, -, rfl, rfl⟩
    cases hst with
    | pending dec =>
      exact both_ite Iff.rfl (fun _ _ => ih) fun _ _ => both_pure ⟨rfl, rfl, .some ⟨⟨k, rfl, rfl⟩, rfl⟩⟩
    | resolved => exact ih
    | poisoned => exact ih

/-- A report on both sides. -/
theorem both_reported {fault : Fault} {loc : Location} (h : Midway c ρ₀ d x ρ y) :
    Both (report fault loc) (report fault loc) x y (Resolves free c ρ₀ d x ρ y fun _ _ _ => True) :=
  both_report ⟨ρ, .same h.mirrors (Checker.gains_reported ..) (Checker.gains_reported ..),
    h.congr rfl rfl rfl rfl rfl rfl, trivial⟩

theorem both_failed {α α' : Type} {R : Pairing → Option α → Option α' → Prop} {fault : Fault} {loc : Location}
    (h : Midway c ρ₀ d x ρ y) (hR : R ρ none none) :
    Both (fail fault loc) (fail fault loc) x y (Resolves free c ρ₀ d x ρ y R) :=
  both_fail ⟨ρ, .same h.mirrors (Checker.gains_reported ..) (Checker.gains_reported ..),
    h.congr rfl rfl rfl rfl rfl rfl, hR⟩

/-- A type that is found is an answer. -/
theorem Both.found {m m' : Check Ty} (h : Both m m' x y (Resolves free c ρ₀ d x ρ y fun ρ' s t => ρ' s t)) :
    Both (some <$> m) (some <$> m') x y (Resolves free c ρ₀ d x ρ y fun ρ' => Option.Rel ρ') := by
  rw [map_eq_pure_bind, map_eq_pure_bind]
  exact h.andThen fun ρ₁ s t x₁ y₁ h₁ _ hst => both_pure (.still h₁ (.some hst))

theorem both_meetAgain (h : Midway c ρ₀ d x ρ y) (k : ℕ) (dec : TypeDec)
    (hchain : List.Forall₂ (SamePlace c d) chain chain') :
    Both (meetAgain ⟨c.namedTypes.size + k⟩ dec chain) (meetAgain ⟨d.namedTypes.size + k⟩ dec chain') x y
      (Resolves free c ρ₀ d x ρ y fun ρ' => Option.Rel ρ') := by
  unfold meetAgain
  refine both_ite Iff.rfl (fun _ _ => ?_) fun _ _ => (both_handOut h k dec).found
  refine (both_firstConstructed h (after_samePlace ⟨k, rfl, rfl⟩ hchain)).bind ?_
  rintro r r' _ _ ⟨rfl, rfl, hr⟩
  cases hr with
  | none => exact both_failed h .none
  | @some p q hpq =>
    obtain ⟨i, dec'⟩ := p
    obtain ⟨j, dec''⟩ := q
    obtain ⟨⟨l, rfl, rfl⟩, rfl⟩ := hpq
    exact (both_handOut h l dec').found

/-! ## Right-hand sides -/

/-- Names are found alike on both sides, whatever was resolved so far. -/
def FindsAlike (free : Prop) (c : Checker) (ρ₀ : Pairing) (d : Checker) {α : Type}
    (find find' : α → Check (Option Ty)) (R : α → α → Prop) : Prop :=
  ∀ ⦃a b : α⦄ ⦃x y : Checker⦄ ⦃ρ : Pairing⦄, R a b → Midway c ρ₀ d x ρ y →
    Both (find a) (find' b) x y (Resolves free c ρ₀ d x ρ y fun ρ' => Option.Rel ρ')

theorem both_resolveFields {find find' : Ident → Check (Option Ty)}
    (hfind : FindsAlike free c ρ₀ d find find' Eq) : ∀ {fs : List TypedName} {x y : Checker} {ρ : Pairing},
    Midway c ρ₀ d x ρ y → Both (resolveFields find fs) (resolveFields find' fs) x y
      (Resolves free c ρ₀ d x ρ y fun ρ' => Option.Rel (List.Forall₂ (Field.Paired ρ')))
  | [], _, _, _, h => both_pure (.still h (.some .nil))
  | f :: fs, x, y, ρ, h => by
    rw [resolveFields, resolveFields]
    refine (hfind rfl h).andThen fun ρ₁ o o' x₁ y₁ h₁ _ ho => ?_
    refine (both_resolveFields hfind h₁).andThen fun ρ₂ r r' x₂ y₂ h₂ hle hr => ?_
    refine both_pure (.still h₂ ?_)
    cases ho with
    | none => exact .none
    | some ho =>
      cases hr with
      | none => exact .none
      | some hr => exact .some (.cons ⟨rfl, hle _ _ ho⟩ hr)

theorem both_completeRecord (h : Midway c ρ₀ d x ρ y) (k : ℕ) (name : String) {fs gs : List Field}
    (hf : List.Forall₂ (Field.Paired ρ) fs gs) :
    Both (completeRecord ⟨c.namedTypes.size + k⟩ name fs) (completeRecord ⟨d.namedTypes.size + k⟩ name gs) x y
      (Resolves free c ρ₀ d x ρ y fun ρ' s t => ρ' s t) := by
  unfold completeRecord
  refine (both_namedType h (.declared k)).bind ?_
  rintro s t _ _ ⟨hst, -, rfl, rfl⟩
  cases hst with
  | resolved => exact both_newRecord h name hf
  | poisoned => exact both_newRecord h name hf
  | pending dec ho =>
    cases ho with
    | none => exact both_newRecord h name hf
    | @some u v huv =>
      have hrec := h.mirrors.isRecord_eq huv
      split
      · next r heq =>
        cases heq
        obtain ⟨r', rfl⟩ := Ty.isRecord_iff.mp hrec.symm
        exact (both_setFields h huv hf).andThen fun ρ₁ _ _ x₁ y₁ h₁ hle _ => both_pure (.still h₁ (hle _ _ huv))
      · next hne =>
        split
        · next r heq =>
          cases heq
          obtain ⟨r', rfl⟩ := Ty.isRecord_iff.mp hrec
          exact absurd rfl (hne _ _)
        · exact both_newRecord h name hf

theorem both_completeArray (h : Midway c ρ₀ d x ρ y) (k : ℕ) (name : String) {s t : Ty} (hst : ρ s t) :
    Both (completeArray ⟨c.namedTypes.size + k⟩ name s) (completeArray ⟨d.namedTypes.size + k⟩ name t) x y
      (Resolves free c ρ₀ d x ρ y fun ρ' s t => ρ' s t) := by
  unfold completeArray
  refine (both_namedType h (.declared k)).bind ?_
  rintro s t _ _ ⟨hstatus, -, rfl, rfl⟩
  cases hstatus with
  | resolved => exact both_newArray h name (.some hst)
  | poisoned => exact both_newArray h name (.some hst)
  | pending dec ho =>
    cases ho with
    | none => exact both_newArray h name (.some hst)
    | @some u v huv =>
      have harr := h.mirrors.isArray_eq huv
      split
      · next r heq =>
        cases heq
        obtain ⟨r', rfl⟩ := Ty.isArray_iff.mp harr.symm
        exact (both_setElement h huv hst).andThen fun ρ₁ _ _ x₁ y₁ h₁ hle _ => both_pure (.still h₁ (hle _ _ huv))
      · next hne =>
        split
        · next r heq =>
          cases heq
          obtain ⟨r', rfl⟩ := Ty.isArray_iff.mp harr
          exact absurd rfl (hne _ _)
        · exact both_newArray h name (.some hst)

theorem both_complete {find find' : Ident → Check (Option Ty)}
    (hfind : FindsAlike free c ρ₀ d find find' Eq) (h : Midway c ρ₀ d x ρ y) (k : ℕ) (dec : TypeDec) :
    Both (complete find ⟨c.namedTypes.size + k⟩ dec) (complete find' ⟨d.namedTypes.size + k⟩ dec) x y
      (Resolves free c ρ₀ d x ρ y fun ρ' => Option.Rel ρ') := by
  unfold complete
  cases dec.body with
  | synonym target => exact hfind rfl h
  | record fields =>
    refine (both_resolveFields hfind h).andThen fun ρ₁ r r' x₁ y₁ h₁ _ hr => ?_
    cases hr with
    | none => exact both_pure (.still h₁ .none)
    | some hr => exact (both_completeRecord h₁ k _ hr).found
  | array element =>
    refine (hfind rfl h).andThen fun ρ₁ r r' x₁ y₁ h₁ _ hr => ?_
    cases hr with
    | none => exact both_pure (.still h₁ .none)
    | some hr => exact (both_completeArray h₁ k _ hr).found

theorem both_settle (h : Midway c ρ₀ d x ρ y) (k : ℕ) (name : String) {o o' : Option Ty}
    (ho : Option.Rel ρ o o') :
    Both (settle ⟨c.namedTypes.size + k⟩ name o) (settle ⟨d.namedTypes.size + k⟩ name o') x y
      (Resolves free c ρ₀ d x ρ y fun _ _ _ => True) := by
  cases ho with
  | none => exact both_setNamedType h k .poisoned
  | some ho =>
    refine Both.bind (R := fun _ _ x' y' => x' = x ∧ y' = y) (both_get ⟨rfl, rfl⟩) ?_
    rintro _ _ x y ⟨rfl, rfl⟩
    refine Both.bind (R := fun _ _ x' y' => x' = x ∧ y' = y) (both_lift fun _ _ _ _ => ⟨rfl, rfl⟩) ?_
    rintro _ _ x y ⟨rfl, rfl⟩
    refine Both.andThen (R := fun _ _ _ => True) (both_log ⟨ρ, .same h.mirrors (.none rfl rfl rfl) (.none rfl rfl rfl),
      h.congr rfl rfl rfl rfl rfl rfl, trivial⟩) fun ρ₁ _ _ x₁ y₁ h₁ hle _ => ?_
    exact both_setNamedType h₁ k (.resolved (hle _ _ ho))

/-! ## Names -/

theorem findsAlike_findWith {resolve resolve' : NamedTypeId → Check (Option Ty)}
    (hres : FindsAlike free c ρ₀ d resolve resolve' (SameName c ρ₀ d)) :
    FindsAlike free c ρ₀ d (findWith resolve) (findWith resolve') Eq := by
  rintro name _ x y ρ rfl h
  unfold findWith
  refine Both.bind (R := fun a b x' y' => a = x ∧ b = y ∧ x' = x ∧ y' = y) (both_get ⟨rfl, rfl, rfl, rfl⟩) ?_
  rintro _ _ a b ⟨rfl, rfl, rfl, rfl⟩
  have hname := h.names name.name
  generalize a.typeNames.lookup name.name = o at hname
  generalize b.typeNames.lookup name.name = o' at hname
  cases hname with
  | none => exact both_failed h .none
  | some hij => exact hres hij h

/-- **A declaration is resolved on both sides**, however many steps there are left on either side. -/
theorem both_resolve : ∀ (steps steps' : ℕ) {chain chain' : List NamedTypeId},
    List.Forall₂ (SamePlace c d) chain chain' →
    FindsAlike free c ρ₀ d (resolve steps chain) (resolve steps' chain') (SameName c ρ₀ d)
  | 0, _, _, _, _ => fun _ _ _ _ _ _ _ => both_throw
  | _ + 1, 0, _, _, _ => fun _ _ _ _ _ _ _ _ _ _ _ _ hm => by cases hm
  | steps + 1, steps' + 1, chain, chain', hchain => by
    intro i j x y ρ hij h
    simp only [resolve]
    refine (both_namedType h hij).bind ?_
    rintro s t _ _ ⟨hst, hs, rfl, rfl⟩
    cases hst with
    | resolved hst => exact both_pure (.still h (.some hst))
    | poisoned => exact both_pure (.still h .none)
    | pending dec =>
      obtain ⟨k, rfl, rfl⟩ := h.place_of_pending hij hs
      refine both_ite (mem_iff_of_samePlace ⟨k, rfl, rfl⟩ hchain) (fun _ _ => both_meetAgain h k dec hchain)
        fun _ _ => ?_
      have hchain' := List.rel_append hchain (.cons ⟨k, rfl, rfl⟩ .nil)
      have hfind := findsAlike_findWith (both_resolve steps steps' hchain')
      refine (both_complete hfind h k dec).andThen fun ρ₁ o o' x₁ y₁ h₁ _ ho => ?_
      refine (both_settle h₁ k _ ho).andThen fun ρ₂ _ _ x₂ y₂ h₂ hle _ => ?_
      exact both_pure (.still h₂ (rel_imp ho hle))

/-- **A declared name is resolved on both sides.** -/
theorem both_typeAt : FindsAlike free c ρ₀ d typeAt typeAt (SameName c ρ₀ d) := by
  intro i j x y ρ hij h
  unfold typeAt
  refine Both.bind (R := fun a b x' y' => a = x ∧ b = y ∧ x' = x ∧ y' = y) (both_get ⟨rfl, rfl, rfl, rfl⟩) ?_
  rintro _ _ _ _ ⟨rfl, rfl, rfl, rfl⟩
  exact both_resolve _ _ .nil hij h

end Check

end TigerCheck
