import Mathlib.Data.List.Perm.Basic
import TigerCheck.Json.Fields
import TigerCheck.Proofs.Json.Nesting
import TigerCheck.Proofs.Lists

/-!
# Ways to write structures, choices and lists

What it means that a value is a way to write a structure, without reference to the reader: an object whose
known keys stand in any order among others, or a list of the parts in their order. A part may be left out
if it has the value that is taken in its stead, from a list only at the end.

* `Json.Part`: a part of a structure. `Json.Part.required`, `Json.Part.nullable`.
* **`Json.Structure`**: the ways to write a structure. `Json.Choice`, `Json.Items`: choices and lists.
* **`Json.structure_iff`**: the fields of a value are the parts of the structure that it is a way to write.
* `Json.depth_of_fields`: they are nested less deeply than the value.
-/

namespace TigerCheck

namespace Json

/-- A part of a structure: its name, the ways to write it, and whether it may be left out. -/
structure Part where
  name : String
  Shows : Json → Prop
  Omits : Prop

namespace Part

/-- A part that is never left out. -/
def required (name : String) (shows : Json → Prop) : Part := ⟨name, shows, False⟩

/-- A part that the structure may lack: then it is `null`, or left out. -/
def nullable (name : String) (shows : Option (Json → Prop)) : Part := ⟨name, shows.getD (· = .null), shows = none⟩

/-- The field of a part: a way to write it, or nothing if it may be left out. -/
def Takes (p : Part) : Option Json → Prop
  | none => p.Omits
  | some v => p.Shows v

end Part

/-- Some parts of a structure as members of an object, each under its name, in the order of the parts. -/
inductive Members : List Part → List (String × Json) → Prop where
  | nil : Members [] []
  | shown {p : Part} {parts : List Part} {v : Json} {ms : List (String × Json)} : p.Shows v → Members parts ms →
      Members (p :: parts) ((p.name, v) :: ms)
  | omitted {p : Part} {parts : List Part} {ms : List (String × Json)} : p.Omits → Members parts ms →
      Members (p :: parts) ms

/-- The parts of a structure as items of a list, where some at the end may be missing. -/
inductive Positions : List Part → List Json → Prop where
  | rest {parts : List Part} : (∀ p ∈ parts, p.Omits) → Positions parts []
  | shown {p : Part} {parts : List Part} {v : Json} {vs : List Json} : p.Shows v → Positions parts vs →
      Positions (p :: parts) (v :: vs)

/-- **The ways to write a structure**: as an object with its parts among members with unknown keys, in any order, or
as the list of its parts. -/
inductive Structure (parts : List Part) : Json → Prop where
  | object {known unknown members : List (String × Json)} : Members parts known →
      (∀ m ∈ unknown, m.1 ∉ parts.map (·.name)) → members.Perm (known ++ unknown) → Structure parts (.obj members)
  | list {vs : List Json} : Positions parts vs → Structure parts (.arr vs)

/-- The ways to write a choice: its word with the content as an object with a single key, or the word alone if it may
stand alone. -/
inductive Choice (word : String) (content : Json → Prop) (alone : Prop) : Json → Prop where
  | tagged {v : Json} : content v → Choice word content alone (.obj [(word, v)])
  | bare : alone → Choice word content alone (.str word)

theorem depth_single (word : String) (v : Json) : (Json.obj [(word, v)]).depth = v.depth + 1 := by
  rw [depth, memberDepths, memberDepths, Nat.max_zero]

/-- A choice is nested if its word may not stand alone. -/
theorem Choice.depth_pos {word : String} {content : Json → Prop} {j : Json} (h : Choice word content False j) :
    0 < j.depth := by
  obtain _ | h := h
  · exact Nat.succ_pos _
  · exact h.elim

theorem Choice.exists_content {word : String} {content : Json → Prop} {j : Json} {d : ℕ}
    (h : Choice word content False j) (hj : j.depth ≤ d) :
    ∃ k v, d = k + 1 ∧ j = .obj [(word, v)] ∧ v.depth ≤ k ∧ content v := by
  obtain @⟨v, hv⟩ | h := h
  · rw [depth_single] at hj
    exact ⟨d - 1, v, by omega, rfl, by omega, hv⟩
  · exact h.elim

/-- The ways to write a list. -/
def Items (shows : List (Json → Prop)) (j : Json) : Prop :=
  ∃ vs, j = .arr vs ∧ List.Forall₂ (fun P v => P v) shows vs

theorem Structure.of_members {parts : List Part} {ms : List (String × Json)} (h : Members parts ms) :
    Structure parts (.obj ms) :=
  .object h (List.forall_mem_nil _) (by rw [List.append_nil])

/-! ## Keys -/

theorem member?_eq_none {ms : List (String × Json)} {name : String} :
    member? ms name = some none ↔ name ∉ ms.map (·.1) := by
  rw [List.mem_map, member?]
  constructor
  · rintro h ⟨m, hm, rfl⟩
    split at h
    · next hnone =>
      have hmem : m ∈ ms.filter (·.1 == m.1) := List.mem_filter.mpr ⟨hm, beq_self_eq_true _⟩
      rw [hnone] at hmem
      cases hmem
    · cases h
    · cases h
  · intro h
    rw [List.filter_eq_nil_iff.mpr fun m hm hname => h ⟨m, hm, beq_iff_eq.mp hname⟩]

theorem member?_eq_some {ms : List (String × Json)} {name : String} {v : Json} :
    member? ms name = some (some v) ↔ ∃ rest, ms.Perm ((name, v) :: rest) ∧ name ∉ rest.map (·.1) := by
  rw [member?]
  constructor
  · intro h
    split at h
    · cases h
    · next w x hone =>
      cases h
      have hname : w = name := by
        have hmem : (w, v) ∈ ms.filter (·.1 == name) := hone ▸ List.mem_singleton_self _
        exact beq_iff_eq.mp (List.mem_filter.mp hmem).2
      subst hname
      refine ⟨ms.filter fun m => !(m.1 == w), ?_, ?_⟩
      · rw [← List.singleton_append, ← hone]
        exact (List.filter_append_perm _ ms).symm
      · intro hmem
        obtain ⟨m, hm, rfl⟩ := List.mem_map.mp hmem
        have := (List.mem_filter.mp hm).2
        simp at this
    · cases h
  · rintro ⟨rest, hperm, hrest⟩
    have hfilter : ms.filter (·.1 == name) = [(name, v)] := by
      refine List.perm_singleton.mp ((hperm.filter _).trans (List.Perm.of_eq ?_))
      rw [List.filter_cons_of_pos (by simp), List.filter_eq_nil_iff.mpr]
      intro m hm hname
      exact hrest (List.mem_map.mpr ⟨m, hm, beq_iff_eq.mp hname⟩)
    rw [hfilter]

/-! ## Fields -/

theorem Members.keys {parts : List Part} {ms : List (String × Json)} (h : Members parts ms) :
    ∀ m ∈ ms, m.1 ∈ parts.map (·.name) := by
  induction h with
  | nil => exact List.forall_mem_nil _
  | shown _ _ ih => exact List.forall_mem_cons.mpr ⟨List.mem_cons_self, fun m hm => List.mem_cons_of_mem _ (ih m hm)⟩
  | omitted _ _ ih => exact fun m hm => List.mem_cons_of_mem _ (ih m hm)

/-- The members of an object that is a way to write a structure give its parts. -/
theorem Members.fields {parts : List Part} {known unknown members : List (String × Json)} (h : Members parts known)
    (hnames : (parts.map (·.name)).Nodup) (hunknown : ∀ m ∈ unknown, m.1 ∉ parts.map (·.name))
    (hperm : members.Perm (known ++ unknown)) :
    ∃ vs, List.Forall₂ (fun p v => member? members p.name = some v ∧ p.Takes v) parts vs := by
  induction h generalizing unknown with
  | nil => exact ⟨[], .nil⟩
  | @shown p parts v ms hv hms ih =>
    rw [List.map_cons, List.nodup_cons] at hnames
    obtain ⟨hname, hnames⟩ := hnames
    simp only [List.map_cons, List.mem_cons, not_or] at hunknown
    have hmember : member? members p.name = some (some v) := by
      refine member?_eq_some.mpr ⟨ms ++ unknown, hperm, ?_⟩
      rw [List.map_append, List.mem_append, List.mem_map, List.mem_map]
      rintro (⟨m, hm, hkey⟩ | ⟨m, hm, hkey⟩)
      · exact hname (hkey ▸ hms.keys m hm)
      · exact (hunknown m hm).1 hkey
    have hrest : ∀ m ∈ (p.name, v) :: unknown, m.1 ∉ parts.map (·.name) :=
      List.forall_mem_cons.mpr ⟨hname, fun m hm => (hunknown m hm).2⟩
    obtain ⟨vs, hvs⟩ := ih hnames hrest (hperm.trans List.perm_middle.symm)
    exact ⟨some v :: vs, .cons ⟨hmember, hv⟩ hvs⟩
  | @omitted p parts ms ho hms ih =>
    rw [List.map_cons, List.nodup_cons] at hnames
    obtain ⟨hname, hnames⟩ := hnames
    simp only [List.map_cons, List.mem_cons, not_or] at hunknown
    have hmember : member? members p.name = some none := by
      refine member?_eq_none.mpr fun hmem => ?_
      obtain ⟨m, hm, hkey⟩ := List.mem_map.mp hmem
      rcases List.mem_append.mp (hperm.subset hm) with hm | hm
      · exact hname (hkey ▸ hms.keys m hm)
      · exact (hunknown m hm).1 hkey
    obtain ⟨vs, hvs⟩ := ih hnames (fun m hm => (hunknown m hm).2) hperm
    exact ⟨none :: vs, .cons ⟨hmember, ho⟩ hvs⟩

/-- An object whose members give the parts of a structure is a way to write it. -/
theorem exists_members {parts : List Part} {members : List (String × Json)} {vs : List (Option Json)}
    (hnames : (parts.map (·.name)).Nodup)
    (h : List.Forall₂ (fun p v => member? members p.name = some v ∧ p.Takes v) parts vs) :
    ∃ known unknown, Members parts known ∧ (∀ m ∈ unknown, m.1 ∉ parts.map (·.name)) ∧
      members.Perm (known ++ unknown) := by
  induction h with
  | nil => exact ⟨[], members, .nil, fun _ _ => List.not_mem_nil, .refl _⟩
  | @cons p v parts vs hp _ ih =>
    obtain ⟨hmember, htakes⟩ := hp
    rw [List.map_cons, List.nodup_cons] at hnames
    obtain ⟨hname, hnames⟩ := hnames
    obtain ⟨known, unknown, hknown, hunknown, hperm⟩ := ih hnames
    have hother : ∀ m ∈ known, m.1 ≠ p.name := fun m hm heq => hname (heq ▸ hknown.keys m hm)
    cases v with
    | none =>
      refine ⟨known, unknown, .omitted htakes hknown, fun m hm => ?_, hperm⟩
      rw [List.map_cons, List.mem_cons, not_or]
      refine ⟨fun heq => member?_eq_none.mp hmember ?_, hunknown m hm⟩
      exact List.mem_map.mpr ⟨m, hperm.symm.subset (List.mem_append_right _ hm), heq⟩
    | some v =>
      obtain ⟨rest, hrest, hkey⟩ := member?_eq_some.mp hmember
      have hmem : (p.name, v) ∈ unknown := by
        rcases List.mem_append.mp (hperm.subset (hrest.symm.subset List.mem_cons_self)) with hm | hm
        · exact absurd rfl (hother _ hm)
        · exact hm
      obtain ⟨before, after, rfl⟩ := List.append_of_mem hmem
      have hothers : (before ++ (p.name, v) :: after).Perm ((p.name, v) :: (before ++ after)) := List.perm_middle
      have hsplit : members.Perm ((p.name, v) :: (known ++ (before ++ after))) :=
        (hperm.trans (hothers.append_left known)).trans List.perm_middle
      refine ⟨(p.name, v) :: known, before ++ after, .shown htakes hknown, fun m hm => ?_, hsplit⟩
      have hsubset := ((hrest.symm.trans hsplit).cons_inv).symm.subset (List.mem_append_right _ hm)
      rw [List.map_cons, List.mem_cons, not_or]
      exact ⟨fun heq => hkey (List.mem_map.mpr ⟨m, hsubset, heq⟩),
        hunknown m (hothers.symm.subset (List.mem_cons_of_mem _ hm))⟩

theorem positions_iff {parts : List Part} {vs : List Json} :
    Positions parts vs ↔ ∃ fs, positions? (parts.map (·.name)) vs = some fs ∧ List.Forall₂ Part.Takes parts fs := by
  induction parts generalizing vs with
  | nil =>
    constructor
    · rintro (_ | _)
      exact ⟨[], rfl, .nil⟩
    · rintro ⟨fs, hfs, -⟩
      cases vs with
      | nil => exact .rest (List.forall_mem_nil _)
      | cons => cases hfs
  | cons p parts ih =>
    simp only [List.map_cons, positions?, Option.map_eq_map, Option.map_eq_some_iff]
    constructor
    · rintro (hrest | ⟨hv, hvs⟩)
      · obtain ⟨hp, hparts⟩ := List.forall_mem_cons.mp hrest
        obtain ⟨fs, hfs, htakes⟩ := ih.mp (.rest hparts)
        exact ⟨_, ⟨fs, hfs, rfl⟩, .cons hp htakes⟩
      · obtain ⟨fs, hfs, htakes⟩ := ih.mp hvs
        exact ⟨_, ⟨fs, hfs, rfl⟩, .cons hv htakes⟩
    · rintro ⟨_, ⟨fs, hfs, rfl⟩, htakes⟩
      obtain ⟨hp, hparts⟩ := List.forall₂_cons.mp htakes
      have hpositions := ih.mpr ⟨fs, hfs, hparts⟩
      cases vs with
      | cons v vs => exact .shown hp hpositions
      | nil =>
        cases hpositions with
        | rest hrest => exact .rest (List.forall_mem_cons.mpr ⟨hp, hrest⟩)

/-- **The fields of a value are the parts of the structure that it is a way to write.** -/
theorem structure_iff {parts : List Part} {names : List String} (h : parts.map (·.name) = names)
    (hnames : names.Nodup) {j : Json} :
    Structure parts j ↔ ∃ vs, j.fields? names = some vs ∧ List.Forall₂ Part.Takes parts vs := by
  subst h
  constructor
  · rintro (⟨hknown, hunknown, hperm⟩ | hvs)
    · obtain ⟨vs, hfields⟩ := hknown.fields hnames hunknown hperm
      refine ⟨vs, ?_, hfields.imp fun _ _ h => h.2⟩
      rw [fields?, mapM_eq_some_iff, List.forall₂_map_left_iff]
      exact hfields.imp fun _ _ h => h.1
    · exact positions_iff.mp hvs
  · rintro ⟨vs, hvs, htakes⟩
    cases j with
    | obj members =>
      rw [fields?, mapM_eq_some_iff, List.forall₂_map_left_iff] at hvs
      obtain ⟨known, unknown, hknown, hunknown, hperm⟩ := exists_members hnames (.mp (fun _ _ => And.intro) hvs htakes)
      exact .object hknown hunknown hperm
    | arr items => exact .list (positions_iff.mpr ⟨vs, hvs, htakes⟩)
    | null | bool | int | decimal | str | unpaired => cases hvs

/-- The fields of a value are nested less deeply than the value. -/
theorem depth_of_fields {j : Json} {names : List String} {vs : List (Option Json)} (h : j.fields? names = some vs) :
    ∀ f ∈ vs, ∀ v ∈ f, v.depth + 1 ≤ j.depth := by
  cases j with
  | obj members =>
    rw [fields?, mapM_eq_some_iff] at h
    refine forall_mem_of_forall₂ h fun name f hf v hv => ?_
    rw [Option.mem_def.mp hv, member?_eq_some] at hf
    obtain ⟨rest, hperm, -⟩ := hf
    have hmem := List.mem_map_of_mem (f := (·.2)) (hperm.symm.subset List.mem_cons_self)
    rw [depth, memberDepths_eq]
    exact Nat.succ_le_succ (depth_le_of_mem hmem)
  | arr items =>
    rw [depth]
    refine fun f hf v hv => Nat.succ_le_succ (depth_le_of_mem ?_)
    rw [fields?] at h
    induction names generalizing items vs with
    | nil =>
      cases items with
      | nil =>
        cases h
        cases hf
      | cons => cases h
    | cons name names ih =>
      simp only [positions?, Option.map_eq_map, Option.map_eq_some_iff] at h
      obtain ⟨fs, hfs, rfl⟩ := h
      rcases List.mem_cons.mp hf with rfl | hf
      · exact List.mem_of_mem_head? hv
      · exact List.mem_of_mem_tail (ih items.tail hfs hf)
  | null | bool | int | decimal | str | unpaired => cases h

end Json

end TigerCheck
