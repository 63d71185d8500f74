import TigerCheck.Proofs.Judges
import TigerCheck.Proofs.TypeName.Total
import TigerCheck.Proofs.Walk.Run

/-!
# Runs of type declarations

Between runs every type name is settled. A run of type declarations binds its names first, except those
that occurred before in the run, and then resolves one declaration after another; at its end every type
name is settled again.

* `Checker.AtRest`, `Checker.typeNamed`: a state between runs, and the type that a name stands for.
* **`Check.yields_typeOf`**: between runs a name stands for its type, and nothing is resolved.
* `Checker.declare`, `BindsTypes`: binding one name, and binding the names of a run.
* **`Check.yields_bindTypes`**, **`Check.yields_typeBodies`**: the two halves of a run.
* **`BindsTypes.atRest`**: the state after a run.
-/

namespace TigerCheck

namespace Checker

variable {c c' : Checker} {id : NamedTypeId} {dec : TypeDec} {t : Ty} {name : String}

/-- A state between runs: names denote entries of the table, every type name is settled, and resolved
names have types of the arena. -/
structure AtRest (c : Checker) : Prop where
  closed : c.types.Closed
  known : ∀ name id, c.typeNames.lookup name = some id → ∃ s, c.status id = some s
  has : ∀ id t, c.status id = some (.resolved t) → c.types.Has t
  settled : ∀ id dec h, c.status id ≠ some (.pending dec h)

/-- Only the arena, the type names in scope and what they stand for matter. -/
theorem AtRest.congr (h : c.AtRest) (htypes : c'.types = c.types)
    (hlookup : c'.typeNames.lookup = c.typeNames.lookup) (hnamed : c'.namedTypes = c.namedTypes) :
    c'.AtRest where
  closed := htypes ▸ h.closed
  known name id hn := by
    rw [hlookup] at hn
    obtain ⟨s, hs⟩ := h.known name id hn
    exact ⟨s, by rwa [status, hnamed]⟩
  has id t hs := by
    rw [status, hnamed] at hs
    exact htypes ▸ h.has id t hs
  settled id dec o hs := by
    rw [status, hnamed] at hs
    exact h.settled id dec o hs

theorem AtRest.opened (h : c.AtRest) : c.Opened :=
  ⟨h.closed, h.known, h.has, fun id dec o hs => absurd hs (h.settled id dec o)⟩

/-- The type that a name stands for, if its declaration is resolved. -/
def typeNamed (c : Checker) (name : String) : Option Ty :=
  match c.typeNames.lookup name with
  | some id =>
    match c.status id with
    | some (.resolved t) => some t
    | _ => none
  | none => none

theorem typeNamed_eq_some_iff : c.typeNamed name = some t ↔
    ∃ id, c.typeNames.lookup name = some id ∧ c.status id = some (.resolved t) := by
  unfold typeNamed
  cases c.typeNames.lookup name with
  | none => simp
  | some id =>
    cases hs : c.status id with
    | none => simp [hs]
    | some s => cases s <;> simp [hs]

theorem AtRest.has_typeNamed (h : c.AtRest) (ht : c.typeNamed name = some t) : c.types.Has t := by
  obtain ⟨id, -, hs⟩ := typeNamed_eq_some_iff.mp ht
  exact h.has id t hs

/-- The state after a type name is bound. -/
def declare (c : Checker) (dec : TypeDec) : Checker :=
  { c with
    namedTypes := c.namedTypes.push (.pending dec none)
    typeNames := c.typeNames.bind dec.name.name ⟨c.namedTypes.size⟩ }

theorem status_declare (c : Checker) (dec : TypeDec) (id : NamedTypeId) :
    (c.declare dec).status id =
      if id.index = c.namedTypes.size then some (.pending dec none) else c.status id :=
  Array.getElem?_push

theorem status_declare_self (c : Checker) (dec : TypeDec) :
    (c.declare dec).status ⟨c.namedTypes.size⟩ = some (.pending dec none) := by
  rw [status_declare, if_pos rfl]

theorem status_declare_of_some {s : NamedType} (h : c.status id = some s) :
    (c.declare dec).status id = some s := by
  rw [status_declare, if_neg (Nat.ne_of_lt (lt_of_status h)), h]

theorem lookup_declare (c : Checker) (dec : TypeDec) (name : String) :
    (c.declare dec).typeNames.lookup name =
      if name = dec.name.name then some ⟨c.namedTypes.size⟩ else c.typeNames.lookup name :=
  Scopes.lookup_bind ..

theorem Opened.declare (h : c.Opened) (dec : TypeDec) : (c.declare dec).Opened where
  closed := h.closed
  known n id hn := by
    rw [lookup_declare] at hn
    split at hn
    · cases hn
      exact ⟨_, status_declare_self c dec⟩
    · obtain ⟨s, hs⟩ := h.known n id hn
      exact ⟨s, status_declare_of_some hs⟩
  has id t hs := by
    rw [status_declare] at hs
    split at hs
    · cases hs
    · exact h.has id t hs
  untouched id dec' o hs := by
    rw [status_declare] at hs
    split at hs
    · cases hs
      rfl
    · exact h.untouched id dec' o hs

theorem Opened.reported (h : c.Opened) (fault : Fault) (loc : Location) :
    (c.reported fault loc).Opened := ⟨h.closed, h.known, h.has, h.untouched⟩

end Checker

/-! ## Names between runs -/

namespace Check

variable {c : Checker}

/-- **Between runs a name stands for its type, and nothing is resolved.** A name that is not bound is
reported; one whose declaration failed was reported then. -/
theorem yields_typeOf (hc : c.AtRest) (m : Ident) :
    Yields (typeOf m) c (Judges c (fun t => c.typeNamed m.name = some t) (¬ c.Clean)) := by
  unfold typeOf findWith
  rw [yields_bind, yields_get]
  cases hl : c.typeNames.lookup m.name with
  | none => exact yields_fail.mpr (judges_fault _ _ (by simp [Checker.typeNamed, hl]))
  | some id =>
    obtain ⟨s, hs⟩ := hc.known m.name id hl
    simp only [typeAt, yields_bind, yields_get, resolve, yields_namedType]
    refine ⟨s, hs, ?_⟩
    cases s with
    | pending dec o => exact absurd hs (hc.settled id dec o)
    | resolved t => exact yields_pure.mpr (.found (by simp [Checker.typeNamed, hl, hs, eq_comm]))
    | poisoned =>
      exact yields_pure.mpr (.missing (fun hclean => hclean id hs) (by simp [Checker.typeNamed, hl, hs]))

/-- Between runs only a name that is not bound is reported. -/
theorem yields_typeOf_lookup (hc : c.AtRest) (m : Ident) :
    Yields (typeOf m) c fun ty c' => ty = c.typeNamed m.name ∧
      ((c.typeNames.lookup m.name = none ∧ c' = c.reported (.undefinedType m.name) m.loc) ∨
        (c.typeNames.lookup m.name ≠ none ∧ c' = c)) := by
  unfold typeOf findWith Checker.typeNamed
  rw [yields_bind, yields_get]
  cases hl : c.typeNames.lookup m.name with
  | none => exact yields_fail.mpr ⟨rfl, .inl ⟨rfl, rfl⟩⟩
  | some id =>
    obtain ⟨s, hs⟩ := hc.known m.name id hl
    simp only [typeAt, yields_bind, yields_get, resolve, yields_namedType]
    refine ⟨s, hs, ?_⟩
    rw [hs]
    cases s with
    | pending dec o => exact absurd hs (hc.settled id dec o)
    | resolved t => exact yields_pure.mpr ⟨rfl, .inr ⟨Option.some_ne_none _, rfl⟩⟩
    | poisoned => exact yields_pure.mpr ⟨rfl, .inr ⟨Option.some_ne_none _, rfl⟩⟩

end Check

/-! ## Binding the names of a run -/

/-- The names of a run are bound, except those that occurred before. The relation gives the plans, and
the declarations whose names are bound. -/
inductive BindsTypes : List String → List TypeDec → Checker → List Plan → List TypeDec → Checker →
    Prop where
  | nil {seen : List String} {c : Checker} : BindsTypes seen [] c [] [] c
  | dropped {seen : List String} {d : TypeDec} {ds kept : List TypeDec} {c c' : Checker}
      {plans : List Plan} : d.name.name ∈ seen →
      BindsTypes seen ds (c.reported (.duplicateDefinition d.name.name) d.name.loc) plans kept c' →
      BindsTypes seen (d :: ds) c (.dropped :: plans) kept c'
  | bound {seen : List String} {d : TypeDec} {ds kept : List TypeDec} {c c' : Checker}
      {plans : List Plan} : d.name.name ∉ seen →
      BindsTypes (d.name.name :: seen) ds (c.declare d) plans kept c' →
      BindsTypes seen (d :: ds) c (.typeBody ⟨c.namedTypes.size⟩ :: plans) (d :: kept) c'

/-- **The names of a run of types are bound.** -/
theorem Check.yields_bindTypes (ctx : Context) (ds : List TypeDec) :
    ∀ (seen : List String) (c : Checker), Yields (bindHeaders ctx seen (ds.map .type)) c
      fun plans c' => ∃ kept, BindsTypes seen ds c plans kept c' := by
  induction ds with
  | nil => exact fun seen c => yields_pure.mpr ⟨[], .nil⟩
  | cons d ds ih =>
    intro seen c
    rw [List.map_cons, bindHeaders]
    by_cases hseen : d.name.name ∈ seen
    · simp only [Dec.name, hseen, if_true, yields_bind, yields_report, yields_pure]
      refine (ih seen _).mono fun plans c' h => ?_
      obtain ⟨kept, h⟩ := h
      exact ⟨kept, .dropped hseen h⟩
    · simp only [Dec.name, hseen, if_false, yields_bind, yields_map, yields_pure]
      refine yields_modifyGet.mpr ((ih _ _).mono fun plans c' h => ?_)
      obtain ⟨kept, h⟩ := h
      exact ⟨d :: kept, .bound hseen h⟩

namespace BindsTypes

variable {seen : List String} {ds kept : List TypeDec} {c c' : Checker} {plans : List Plan}
  {name : String} {id : NamedTypeId}

theorem length_eq (h : BindsTypes seen ds c plans kept c') : plans.length = ds.length := by
  induction h with
  | nil => rfl
  | dropped _ _ ih => rw [List.length_cons, List.length_cons, ih]
  | bound _ _ ih => rw [List.length_cons, List.length_cons, ih]

theorem opened (h : BindsTypes seen ds c plans kept c') (hc : c.Opened) : c'.Opened := by
  induction h with
  | nil => exact hc
  | dropped _ _ ih => exact ih (hc.reported _ _)
  | bound _ _ ih => exact ih (hc.declare _)

/-- Binding type names touches nothing else. -/
theorem others_eq (h : BindsTypes seen ds c plans kept c') :
    c'.types = c.types ∧ c'.values = c.values ∧ c'.functions = c.functions ∧
      c'.frames = c.frames ∧ c'.mainFrame = c.mainFrame ∧
      c'.typeNames.outer = c.typeNames.outer := by
  induction h with
  | nil => exact ⟨rfl, rfl, rfl, rfl, rfl, rfl⟩
  | dropped _ _ ih => exact ih
  | bound _ _ ih => exact ih

theorem status_of_some {s : NamedType} (h : BindsTypes seen ds c plans kept c')
    (hs : c.status id = some s) : c'.status id = some s := by
  induction h with
  | nil => exact hs
  | dropped _ _ ih => exact ih hs
  | bound _ _ ih => exact ih (Checker.status_declare_of_some hs)

/-- The names that are bound are those of the run that did not occur before. -/
theorem mem_kept_names (h : BindsTypes seen ds c plans kept c') :
    name ∈ kept.map (·.name.name) ↔ name ∈ ds.map (·.name.name) ∧ name ∉ seen := by
  induction h with
  | nil => simp
  | @dropped seen d ds kept c c' plans hd _ ih =>
    rw [ih, List.map_cons, List.mem_cons]
    constructor
    · exact fun h => ⟨Or.inr h.1, h.2⟩
    · rintro ⟨rfl | h, hn⟩
      · exact absurd hd hn
      · exact ⟨h, hn⟩
  | @bound seen d ds kept c c' plans hd _ ih =>
    rw [List.map_cons, List.mem_cons, ih, List.map_cons, List.mem_cons, List.mem_cons]
    constructor
    · rintro (rfl | ⟨h, hn⟩)
      · exact ⟨Or.inl rfl, hd⟩
      · exact ⟨Or.inr h, fun hs => hn (Or.inr hs)⟩
    · rintro ⟨rfl | h, hn⟩
      · exact Or.inl rfl
      · by_cases hname : name = d.name.name
        · exact Or.inl hname
        · exact Or.inr ⟨h, fun hs => hs.elim hname hn⟩

/-- A name that is not bound by a run keeps its meaning. -/
theorem lookup_of_not_mem (h : BindsTypes seen ds c plans kept c')
    (hn : name ∉ kept.map (·.name.name)) : c'.typeNames.lookup name = c.typeNames.lookup name := by
  induction h with
  | nil => rfl
  | dropped _ _ ih => exact ih hn
  | @bound seen d ds kept c c' plans _ _ ih =>
    rw [List.map_cons, List.mem_cons, not_or] at hn
    rw [ih hn.2, Checker.lookup_declare, if_neg hn.1]

/-- The place of a declaration in the table is where its name is bound to. -/
theorem lookup_head {d : TypeDec} (h : BindsTypes (d.name.name :: seen) ds (c.declare d) plans kept c') :
    c'.typeNames.lookup d.name.name = some ⟨c.namedTypes.size⟩ := by
  have hn : d.name.name ∉ kept.map (·.name.name) := by simp [h.mem_kept_names]
  rw [h.lookup_of_not_mem hn, Checker.lookup_declare, if_pos rfl]

/-- A declaration whose name is bound by a run is new in the table, and pending. -/
theorem lookup_of_mem (h : BindsTypes seen ds c plans kept c') :
    ∀ d ∈ kept, ∃ id, c'.typeNames.lookup d.name.name = some id ∧
      c'.status id = some (.pending d none) ∧ c.namedTypes.size ≤ id.index := by
  induction h with
  | nil => simp
  | dropped _ _ ih => exact ih
  | @bound seen d ds kept c c' plans _ hrest ih =>
    refine List.forall_mem_cons.mpr ⟨⟨_, hrest.lookup_head, ?_, Nat.le_refl _⟩, fun e he => ?_⟩
    · exact hrest.status_of_some (Checker.status_declare_self c d)
    · obtain ⟨id, hl, hs, hle⟩ := ih e he
      refine ⟨id, hl, hs, ?_⟩
      rw [Checker.declare, Array.size_push] at hle
      omega

/-- What is pending after the names are bound was pending before, or belongs to the run. -/
theorem of_pending (h : BindsTypes seen ds c plans kept c') {dec : TypeDec} {o : Option Ty}
    (hs : c'.status id = some (.pending dec o)) :
    c.status id = some (.pending dec o) ∨
      dec ∈ kept ∧ c'.typeNames.lookup dec.name.name = some id := by
  induction h with
  | nil => exact Or.inl hs
  | dropped _ _ ih => exact ih hs
  | @bound seen d ds kept c c' plans _ hrest ih =>
    rcases ih hs with h | ⟨hmem, hl⟩
    · rw [Checker.status_declare] at h
      split at h
      · next hid =>
        cases h
        refine Or.inr ⟨List.mem_cons_self, ?_⟩
        rw [hrest.lookup_head, ← hid]
      · exact Or.inl h
    · exact Or.inr ⟨List.mem_cons_of_mem _ hmem, hl⟩

theorem diagnostics_le (h : BindsTypes seen ds c plans kept c') :
    c.diagnostics.size ≤ c'.diagnostics.size := by
  induction h with
  | nil => exact Nat.le_refl _
  | dropped _ _ ih =>
    simp only [Checker.reported, Checker.note, Diagnostics.size_report] at ih
    omega
  | bound _ _ ih => exact ih

/-- **Nothing is reported exactly if no name occurs twice.** Then every name is bound. -/
theorem diagnostics_eq_iff (h : BindsTypes seen ds c plans kept c') :
    c'.diagnostics.size = c.diagnostics.size ↔
      (∀ d ∈ ds, d.name.name ∉ seen) ∧ (ds.map (·.name.name)).Nodup := by
  induction h with
  | nil => simp
  | @dropped seen d ds kept c c' plans hd hrest _ =>
    have hle := hrest.diagnostics_le
    simp only [Checker.reported, Checker.note, Diagnostics.size_report] at hle
    constructor
    · intro heq
      omega
    · exact fun h => absurd hd (h.1 d List.mem_cons_self)
  | @bound seen d ds kept c c' plans hd _ ih =>
    rw [show (c.declare d).diagnostics = c.diagnostics from rfl] at ih
    rw [ih, List.forall_mem_cons, List.map_cons, List.nodup_cons]
    constructor
    · rintro ⟨hseen, hnd⟩
      refine ⟨⟨hd, fun e he hs => hseen e he (List.mem_cons_of_mem _ hs)⟩, fun hmem => ?_, hnd⟩
      obtain ⟨e, he, heq⟩ := List.mem_map.mp hmem
      exact hseen e he (heq ▸ List.mem_cons_self)
    · rintro ⟨⟨-, hseen⟩, hnot, hnd⟩
      refine ⟨fun e he hs => ?_, hnd⟩
      rcases List.mem_cons.mp hs with heq | hs
      · exact hnot (heq ▸ List.mem_map_of_mem he)
      · exact hseen e he hs

theorem kept_eq (h : BindsTypes seen ds c plans kept c') (hseen : ∀ d ∈ ds, d.name.name ∉ seen)
    (hnd : (ds.map (·.name.name)).Nodup) : kept = ds ∧ .dropped ∉ plans := by
  induction h with
  | nil => simp
  | dropped hd _ _ => exact absurd hd (hseen _ List.mem_cons_self)
  | @bound seen d ds kept c c' plans _ _ ih =>
    rw [List.map_cons, List.nodup_cons] at hnd
    obtain ⟨rfl, hplans⟩ := ih (fun e he hs => by
      rcases List.mem_cons.mp hs with heq | hs
      · exact hnd.1 (heq ▸ List.mem_map_of_mem he)
      · exact hseen e (List.mem_cons_of_mem _ he) hs) hnd.2
    exact ⟨rfl, by simp [hplans]⟩

end BindsTypes

/-! ## Resolving the declarations of a run -/

section Bodies

variable {c c₀ c' : Checker} {own : Owners} {seen : List String} {ds kept : List TypeDec}
  {plans : List Plan} {rs : List (Option Ty)}

theorem links_nil (c : Checker) (ms : List Ident) : c.Links [] ms := fun _ _ k _ => .singleton k

theorem open_nil (c : Checker) : c.Open [] := fun _ h => by cases h

/-- **The declarations of a run are resolved one after another**, as if their names were found. -/
theorem Check.yields_typeBodies (ctx : Context) (h : BindsTypes seen ds c plans kept c₀)
    (h0 : c₀.Opened) {d : Checker} (hb : Building c₀ own d) :
    Yields (checkPlanned ctx plans (ds.map .type)) d fun r d' => r.1 = ds.map .type ∧
      ∃ rs, Finds [] (kept.map (·.name)) d rs d' ∧
        (r.2 = true ↔ .dropped ∉ plans ∧ none ∉ rs) := by
  induction h generalizing d own with
  | nil => exact yields_pure.mpr ⟨rfl, [], .nil, by simp⟩
  | @dropped seen e ds kept c c' plans _ hrest ih =>
    rw [List.map_cons, checkPlanned, checkDec_dropped, yields_bind, yields_pure, yields_bind]
    refine (ih h0 hb).mono fun r d' hr => yields_pure.mpr ?_
    obtain ⟨hr₁, rs, hf, -⟩ := hr
    exact ⟨by rw [hr₁], rs, hf, by simp⟩
  | @bound seen e ds kept c c' plans _ hrest ih =>
    have hid : c'.status ⟨c.namedTypes.size⟩ = some (.pending e none) :=
      hrest.status_of_some (Checker.status_declare_self c e)
    have hl : d.typeNames.lookup e.name.name = some ⟨c.namedTypes.size⟩ := by
      rw [hb.advances.typeNames_eq, hrest.lookup_head]
    rw [List.map_cons, checkPlanned, checkDec, yields_bind, yields_bind]
    refine (yields_typeAt h0 hb ⟨_, hid⟩).mono fun r d₁ hr => ?_
    have hf := hr e.name hl
    obtain ⟨own₁, -, hb₁, -⟩ := hf.building h0 hb (open_nil d) (links_nil c' _)
    rw [yields_pure, yields_bind]
    refine (ih h0 hb₁).mono fun r' d' hr' => yields_pure.mpr ?_
    obtain ⟨hr₁, rs, hf', hok⟩ := hr'
    refine ⟨by rw [hr₁], r :: rs, hf.cons hf', ?_⟩
    rw [Bool.and_eq_true, hok, List.mem_cons, List.mem_cons]
    cases r <;> simp

/-- **After a run every type name is settled again.** -/
theorem BindsTypes.atRest (h : BindsTypes [] ds c plans kept c₀) (hc : c.AtRest)
    (hf : Finds [] (kept.map (·.name)) c₀ rs c') (hb : Building c₀ own c') : c'.AtRest where
  closed := hb.closed
  known name id hn := by
    rw [hb.advances.typeNames_eq] at hn
    obtain ⟨s, hs⟩ := (h.opened hc.opened).known name id hn
    obtain ⟨s', hs', -⟩ := hb.advances.step id s hs
    exact ⟨s', hs'⟩
  has id t hs := hb.has_of_stands (h.opened hc.opened) (hb.resolved id t hs)
  settled id dec o hs := by
    obtain ⟨o', hs₀⟩ := hb.advances.pending hs
    rcases h.of_pending hs₀ with hold | ⟨hmem, hl⟩
    · exact hc.settled id dec o' hold
    · obtain ⟨r, -, hr⟩ := exists_mem_of_forall₂ (hf.settles (open_nil c₀))
        (List.mem_map_of_mem hmem)
      rw [hr id hl List.not_mem_nil] at hs
      cases r <;> cases hs

end Bodies

end TigerCheck
