import Mathlib.Order.Interval.Finset.Nat
import TigerCheck.Proofs.TypeName.Run

/-!
# What a run of types amounts to

At the end of a run every declaration that is resolved stands for one type, and the names of its
right-hand side stand for the types in its entry. Entries are added for record and array declarations
only, one for each.

* `TypeRun`: a run of types from its beginning to its end.
* **`TypeRun.own_of_named`**, **`TypeRun.named_of_denotes`**: who owns what at the end, and what names
  stand for.
* `TypeDec.Solved`, `Solution`: the equation of a declaration, and those of a run.
* **`TypeRun.solved`**, **`TypeRun.solution`**: they hold at the end.
-/

namespace TigerCheck

/-- A run of types from its beginning, `c`, to its end, `c'`: its names are bound, which leads to `c₀`,
and then resolved. -/
structure TypeRun (c : Checker) (ds : List TypeDec) (plans : List Plan) (kept : List TypeDec)
    (c₀ : Checker) (rs : List (Option Ty)) (own : Owners) (c' : Checker) : Prop where
  rest : c.AtRest
  binds : BindsTypes [] ds c plans kept c₀
  finds : Finds [] (kept.map (·.name)) c₀ rs c'
  building : Building c₀ own c'

namespace TypeRun

variable {c c₀ c' : Checker} {ds kept : List TypeDec} {plans : List Plan} {rs : List (Option Ty)}
  {own : Owners} {id : NamedTypeId} {d e : TypeDec} {t u : Ty} {m : Ident}

theorem opened (h : TypeRun c ds plans kept c₀ rs own c') : c₀.Opened :=
  h.binds.opened h.rest.opened

theorem atRest (h : TypeRun c ds plans kept c₀ rs own c') : c'.AtRest :=
  h.binds.atRest h.rest h.finds h.building

theorem lookup_eq (h : TypeRun c ds plans kept c₀ rs own c') (name : String) :
    c'.typeNames.lookup name = c₀.typeNames.lookup name := by
  rw [h.building.advances.typeNames_eq]

/-- What is not settled when the names are bound belongs to the run. -/
theorem mem_of_pending (h : TypeRun c ds plans kept c₀ rs own c') {o : Option Ty}
    (hs : c₀.status id = some (.pending d o)) :
    d ∈ kept ∧ c₀.typeNames.lookup d.name.name = some id := by
  rcases h.binds.of_pending hs with hold | hnew
  · exact absurd hold (h.rest.settled id d o)
  · exact hnew

/-- A declaration of the run is found under its name. -/
theorem lookup_of_mem (h : TypeRun c ds plans kept c₀ rs own c') (hd : d ∈ kept) :
    ∃ id, c₀.typeNames.lookup d.name.name = some id ∧ c₀.status id = some (.pending d none) := by
  obtain ⟨id, hl, hs, -⟩ := h.binds.lookup_of_mem d hd
  exact ⟨id, hl, hs⟩

/-- A declaration of the run is found under its own name only. -/
theorem name_eq_of_lookup (h : TypeRun c ds plans kept c₀ rs own c') {name : String}
    {o : Option Ty} (hl : c₀.typeNames.lookup name = some id)
    (hs : c₀.status id = some (.pending d o)) : d ∈ kept ∧ name = d.name.name := by
  have hmem := (h.mem_of_pending hs).1
  refine ⟨hmem, ?_⟩
  by_cases hn : name ∈ kept.map (·.name.name)
  · obtain ⟨e, he, rfl⟩ := List.mem_map.mp hn
    obtain ⟨id', hl', hs'⟩ := h.lookup_of_mem he
    rw [hl] at hl'
    cases hl'
    rw [hs] at hs'
    cases hs'
    rfl
  · -- a name from before the run has an earlier place in the table
    rw [h.binds.lookup_of_not_mem hn] at hl
    obtain ⟨s, hs'⟩ := h.rest.known name id hl
    rw [h.binds.status_of_some hs', Option.some.injEq] at hs
    subst hs
    exact absurd hs' (h.rest.settled id d o)

/-- The type that a name of the run stands for at the end. -/
theorem stands_of_named (h : TypeRun c ds plans kept c₀ rs own c')
    (hn : c'.typeNamed d.name.name = some t) (hl : c₀.typeNames.lookup d.name.name = some id) :
    c'.status id = some (.resolved t) ∧ Stands c₀ own id t := by
  obtain ⟨id', hl', hs⟩ := Checker.typeNamed_eq_some_iff.mp hn
  rw [h.lookup_eq, hl] at hl'
  cases hl'
  exact ⟨hs, h.building.resolved id t hs⟩

/-- **A record or an array declaration owns the type that its name stands for**, and the entry of that
type holds what the names of the right-hand side denote. -/
theorem own_of_named (h : TypeRun c ds plans kept c₀ rs own c') (hd : d ∈ kept)
    (hcons : d.body.isSynonym = false) (hn : c'.typeNamed d.name.name = some t) :
    ∃ id ts, c₀.status id = some (.pending d none) ∧ own id = some t ∧ c₀.types.shape t = none ∧
      c'.types.shape t = some (d.shape ts) ∧ List.Forall₂ (Denotes c₀ own) d.body.mentions ts := by
  obtain ⟨id, hl, hs⟩ := h.lookup_of_mem hd
  obtain ⟨hres, hst⟩ := h.stands_of_named hn hl
  have hown : own id = some t := by
    cases hst with
    | owner ho => exact ho
    | known hk =>
      rw [hs] at hk
      cases hk
    | synonym hs' hbody =>
      rw [hs] at hs'
      cases hs'
      rw [hbody] at hcons
      cases hcons
  obtain ⟨d', ho⟩ := h.building.owned id t hown
  have hdd : d' = d := by
    have heq := ho.declared.symm.trans hs
    cases heq
    rfl
  subst hdd
  obtain ⟨ts, hts, hden⟩ := ho.filled t hres
  exact ⟨id, ts, hs, hown, ho.fresh, hts, hden⟩

/-- **What a name denotes it stands for at the end**, if it is resolved where it is a name of the
run. -/
theorem named_of_denotes (h : TypeRun c ds plans kept c₀ rs own c')
    (hm : ∀ d ∈ kept, d.name.name = m.name → ∃ t, c'.typeNamed m.name = some t)
    (hden : Denotes c₀ own m t) : c'.typeNamed m.name = some t := by
  obtain ⟨k, hl, hst⟩ := hden
  have hrun : ∀ d o, c₀.status k = some (.pending d o) → c'.status k = some (.resolved t) := by
    intro d o hs
    obtain ⟨hmem, hname⟩ := h.name_eq_of_lookup hl hs
    obtain ⟨u, hu⟩ := hm d hmem hname.symm
    rw [hname] at hu hl
    obtain ⟨hres, hst'⟩ := h.stands_of_named hu hl
    rw [h.building.stands_unique hst hst']
    exact hres
  have hres : c'.status k = some (.resolved t) := by
    cases hst with
    | owner ho =>
      obtain ⟨d, hd⟩ := h.building.owned k t ho
      exact hrun d none hd.declared
    | known hk => exact h.building.advances.resolved hk
    | synonym hs => exact hrun _ none hs
  exact Checker.typeNamed_eq_some_iff.mpr ⟨k, by rw [h.lookup_eq, hl], hres⟩

/-- Every declaration of the run is resolved if its names were found. -/
theorem named_of_found (h : TypeRun c ds plans kept c₀ rs own c') (hrs : none ∉ rs) :
    ∀ d ∈ kept, ∃ t, c'.typeNamed d.name.name = some t := by
  intro d hd
  obtain ⟨id, hl, -⟩ := h.lookup_of_mem hd
  obtain ⟨r, hr, hset⟩ := exists_mem_of_forall₂ (h.finds.settles (open_nil c₀))
    (List.mem_map_of_mem hd)
  obtain ⟨t, rfl⟩ := Option.ne_none_iff_exists'.mp fun hnone => hrs (hnone ▸ hr)
  exact ⟨t, Checker.typeNamed_eq_some_iff.mpr ⟨id, by rw [h.lookup_eq, hl],
    hset id hl List.not_mem_nil⟩⟩

end TypeRun

/-! ## The equations of a run -/

namespace TypeBody

/-- Whether a right-hand side is a record. -/
def isRecord : TypeBody → Bool
  | record _ => true
  | _ => false

/-- Whether a right-hand side is an array. -/
def isArray : TypeBody → Bool
  | array _ => true
  | _ => false

end TypeBody

/-- A declaration is solved, from the state `c` before its run to the state `c'` at the end of it: its
right-hand side is what its name stands for, names being looked up in the scope of the run.
* A record stands for a new record, which has the name of the declaration and, in order, its fields with
  the types that their type names stand for.
* An array stands for a new array, whose element is what the element's name stands for.
* A synonym stands for the very type that its target stands for. -/
def TypeDec.Solved (d : TypeDec) (c c' : Checker) : Prop :=
  match d.body with
  | .record fields => ∃ id ts,
    c'.typeNamed d.name.name = some (.record id) ∧ c.types.records.size ≤ id.index ∧
    List.Forall₂ (fun f t => c'.typeNamed f.typeName.name = some t) fields ts ∧
    c'.types.records[id.index]? =
      some ⟨d.name.name, List.zipWith (fun f t => ⟨f.name.name, t⟩) fields ts⟩
  | .array element => ∃ id t,
    c'.typeNamed d.name.name = some (.array id) ∧ c.types.arrays.size ≤ id.index ∧
    c'.typeNamed element.name = some t ∧ c'.types.arrays[id.index]? = some ⟨d.name.name, some t⟩
  | .synonym target => ∃ t,
    c'.typeNamed d.name.name = some t ∧ c'.typeNamed target.name = some t

/-- A run of types is solved. -/
structure Solution (run : List TypeDec) (c c' : Checker) : Prop where
  solved : ∀ d ∈ run, d.Solved c c'
  /-- Different records and arrays are different types. -/
  distinct : ∀ d ∈ run, ∀ e ∈ run, d.body.isSynonym = false → e.body.isSynonym = false →
    c'.typeNamed d.name.name = c'.typeNamed e.name.name → d = e
  /-- One record is added for each record declaration, -/
  records : c'.types.records.size = c.types.records.size + run.countP (·.body.isRecord)
  /-- and one array for each array declaration. -/
  arrays : c'.types.arrays.size = c.types.arrays.size + run.countP (·.body.isArray)
  /-- The types that were there before are as they were. -/
  kept : ∀ t s, c.types.shape t = some s → c'.types.shape t = some s

/-- Only the types before the run matter. -/
theorem Solution.congr {run : List TypeDec} {c c₁ c' : Checker} (h : Solution run c₁ c')
    (htypes : c₁.types = c.types) : Solution run c c' where
  solved d hd := by
    have hsolved := h.solved d hd
    rwa [TypeDec.Solved, htypes] at hsolved
  distinct := h.distinct
  records := htypes ▸ h.records
  arrays := htypes ▸ h.arrays
  kept := htypes ▸ h.kept

/-- Numbers that are in a list exactly if they are in an interval. -/
theorem eq_add_length_of_mem_iff {l : List ℕ} {n m : ℕ} (hnm : n ≤ m) (hd : l.Nodup)
    (h : ∀ i, i ∈ l ↔ n ≤ i ∧ i < m) : m = n + l.length := by
  have hset : l.toFinset = Finset.Ico n m := by
    ext i
    rw [List.mem_toFinset, Finset.mem_Ico, h i]
  have hcard := List.toFinset_card_of_nodup hd
  rw [hset, Nat.card_Ico] at hcard
  omega

namespace TypeRun

variable {c c₀ c' : Checker} {ds kept : List TypeDec} {plans : List Plan} {rs : List (Option Ty)}
  {own : Owners} {id : NamedTypeId} {d e : TypeDec} {t u : Ty} {m : Ident}

theorem eq_of_named (h : TypeRun c ds plans kept c₀ rs own c') (hd : d ∈ kept) (he : e ∈ kept)
    (hds : d.body.isSynonym = false) (hes : e.body.isSynonym = false)
    (hdn : c'.typeNamed d.name.name = some t) (hen : c'.typeNamed e.name.name = some t) : d = e := by
  obtain ⟨i, -, hi, hoi, -⟩ := h.own_of_named hd hds hdn
  obtain ⟨j, -, hj, hoj, -⟩ := h.own_of_named he hes hen
  rw [h.building.unique i j t hoi hoj, hj] at hi
  cases hi
  rfl

/-- A type that was not there before belongs to a declaration of the run. -/
theorem exists_named (h : TypeRun c ds plans kept c₀ rs own c')
    (hall : ∀ d ∈ kept, ∃ t, c'.typeNamed d.name.name = some t) {s : Shape}
    (hs : c'.types.shape t = some s) (hnew : c.types.shape t = none) :
    ∃ d ∈ kept, d.body.isSynonym = false ∧ c'.typeNamed d.name.name = some t := by
  rcases h.building.origin t s hs with hold | ⟨id, hown⟩
  · rw [h.binds.others_eq.1, hnew] at hold
    cases hold
  · obtain ⟨d, hd⟩ := h.building.owned id t hown
    obtain ⟨hmem, hl⟩ := h.mem_of_pending hd.declared
    refine ⟨d, hmem, hd.constructs, ?_⟩
    obtain ⟨u, hu⟩ := hall d hmem
    rw [hu, h.building.stands_unique (.owner hown) (h.stands_of_named hu hl).2]

/-- The entry of a declaration at the end of a run, if its names are resolved. -/
theorem entry_of_mem (h : TypeRun c ds plans kept c₀ rs own c') (hd : d ∈ kept)
    (hn : c'.typeNamed d.name.name = some t)
    (hm : ∀ m ∈ d.body.mentions, ∀ e ∈ kept, e.name.name = m.name → ∃ t, c'.typeNamed m.name = some t)
    (hsyn : d.body.isSynonym = false) : ∃ ts, c.types.shape t = none ∧
      c'.types.shape t = some (d.shape ts) ∧
      List.Forall₂ (fun m t => c'.typeNamed m.name = some t) d.body.mentions ts := by
  obtain ⟨id, ts, -, -, hfresh, hshape, hden⟩ := h.own_of_named hd hsyn hn
  refine ⟨ts, by rw [← h.binds.others_eq.1]; exact hfresh, hshape, ?_⟩
  exact forall₂_imp_mem hden fun m hmem u hu => h.named_of_denotes (hm m hmem) hu

/-- A table of the arena grows by the number of declarations with an entry in it. -/
theorem size_eq (h : TypeRun c ds plans kept c₀ rs own c')
    (hall : ∀ d ∈ kept, ∃ t, c'.typeNamed d.name.name = some t)
    (hnd : (kept.map (·.name.name)).Nodup) {n m : ℕ} {k : ℕ → Ty} {p : TypeDec → Bool}
    (hk : Function.Injective k) (hn : ∀ i, (∃ s, c.types.shape (k i) = some s) ↔ i < n)
    (hm : ∀ i, (∃ s, c'.types.shape (k i) = some s) ↔ i < m)
    (hsyn : ∀ d, p d = true → d.body.isSynonym = false)
    (hp : ∀ d ts t, c'.types.shape t = some (d.shape ts) → d.body.isSynonym = false →
      (p d = true ↔ ∃ i, t = k i)) : m = n + kept.countP p := by
  classical
  have hindex : ∀ d ∈ kept, p d = true → ∃ i, c'.typeNamed d.name.name = some (k i) ∧
      c.types.shape (k i) = none ∧ ∃ s, c'.types.shape (k i) = some s := by
    intro d hd hpd
    obtain ⟨t, ht⟩ := hall d hd
    obtain ⟨-, ts, -, -, hfresh, hshape, -⟩ := h.own_of_named hd (hsyn d hpd) ht
    rw [h.binds.others_eq.1] at hfresh
    obtain ⟨i, rfl⟩ := (hp d ts t hshape (hsyn d hpd)).mp hpd
    exact ⟨i, ht, hfresh, _, hshape⟩
  let index : TypeDec → ℕ := fun d =>
    if hi : ∃ i, c'.typeNamed d.name.name = some (k i) then hi.choose else 0
  have hindex_eq : ∀ d i, c'.typeNamed d.name.name = some (k i) → index d = i := by
    intro d i hi
    have hex : ∃ i, c'.typeNamed d.name.name = some (k i) := ⟨i, hi⟩
    have hspec := hi.symm.trans hex.choose_spec
    exact (dif_pos hex).trans (hk (Option.some.inj hspec)).symm
  have hnm : n ≤ m := by
    by_contra hlt
    obtain ⟨s, hs⟩ := (hn m).mpr (Nat.lt_of_not_le hlt)
    exact Nat.lt_irrefl m ((hm m).mp ⟨s, h.building.kept _ s (by rw [h.binds.others_eq.1, hs])⟩)
  rw [List.countP_eq_length_filter, ← List.length_map index]
  refine eq_add_length_of_mem_iff hnm (List.Nodup.map_on ?_ (hnd.of_map.filter p)) fun i => ?_
  · intro d hd e he heq
    obtain ⟨hdk, hdp⟩ := List.mem_filter.mp hd
    obtain ⟨hek, hep⟩ := List.mem_filter.mp he
    obtain ⟨i, hi, -⟩ := hindex d hdk hdp
    obtain ⟨j, hj, -⟩ := hindex e hek hep
    rw [hindex_eq d i hi, hindex_eq e j hj] at heq
    exact h.eq_of_named hdk hek (hsyn d hdp) (hsyn e hep) hi (heq ▸ hj)
  · rw [List.mem_map]
    constructor
    · rintro ⟨d, hd, rfl⟩
      obtain ⟨hdk, hdp⟩ := List.mem_filter.mp hd
      obtain ⟨i, hi, hfresh, hs⟩ := hindex d hdk hdp
      rw [hindex_eq d i hi]
      refine ⟨Nat.le_of_not_lt fun hlt => ?_, (hm i).mp hs⟩
      obtain ⟨s, hs'⟩ := (hn i).mpr hlt
      rw [hfresh] at hs'
      cases hs'
    · rintro ⟨hle, hlt⟩
      obtain ⟨s, hs⟩ := (hm i).mpr hlt
      have hnew : c.types.shape (k i) = none := by
        refine Option.eq_none_iff_forall_ne_some.mpr fun s' hs' => ?_
        exact absurd ((hn i).mp ⟨s', hs'⟩) (Nat.not_lt.mpr hle)
      obtain ⟨d, hd, hds, hdn⟩ := h.exists_named hall hs hnew
      obtain ⟨-, ts, -, -, -, hshape, -⟩ := h.own_of_named hd hds hdn
      exact ⟨d, List.mem_filter.mpr ⟨hd, (hp d ts _ hshape hds).mpr ⟨i, rfl⟩⟩, hindex_eq d i hdn⟩

end TypeRun

namespace Arena

theorem exists_shape_record_iff {a : Arena} {i : ℕ} :
    (∃ s, a.shape (.record ⟨i⟩) = some s) ↔ i < a.records.size := by
  constructor
  · rintro ⟨s, hs⟩
    exact has_of_shape hs
  · exact fun h => ⟨.record a.records[i], by rw [shape_record, Array.getElem?_eq_getElem h]; rfl⟩

theorem exists_shape_array_iff {a : Arena} {i : ℕ} :
    (∃ s, a.shape (.array ⟨i⟩) = some s) ↔ i < a.arrays.size := by
  constructor
  · rintro ⟨s, hs⟩
    exact has_of_shape hs
  · exact fun h => ⟨.array a.arrays[i], by rw [shape_array, Array.getElem?_eq_getElem h]; rfl⟩

/-- The type of a declaration's entry is a record or an array as the declaration says. -/
theorem eq_record_or_array {a : Arena} {d : TypeDec} {ts : List Ty} {t : Ty}
    (h : a.shape t = some (d.shape ts)) (hd : d.body.isSynonym = false) :
    (∃ fields id, d.body = .record fields ∧ t = .record id) ∨
      (∃ element id, d.body = .array element ∧ t = .array id) := by
  unfold TypeDec.shape at h
  cases hbody : d.body with
  | synonym target =>
    rw [hbody] at hd
    cases hd
  | record fields =>
    rw [hbody] at h
    obtain ⟨id, rfl, -⟩ := shape_eq_record_iff.mp h
    exact Or.inl ⟨fields, id, rfl, rfl⟩
  | array element =>
    rw [hbody] at h
    obtain ⟨id, rfl, -⟩ := shape_eq_array_iff.mp h
    exact Or.inr ⟨element, id, rfl, rfl⟩

end Arena

namespace TypeRun

variable {c c₀ c' : Checker} {ds kept : List TypeDec} {plans : List Plan} {rs : List (Option Ty)}
  {own : Owners} {d : TypeDec} {t : Ty}

/-- **The equation of a declaration holds at the end of its run**, if the declaration is resolved and so
are the names of the run that it mentions. -/
theorem solved (h : TypeRun c ds plans kept c₀ rs own c') (hd : d ∈ kept)
    (hn : c'.typeNamed d.name.name = some t)
    (hm : ∀ m ∈ d.body.mentions, ∀ e ∈ kept, e.name.name = m.name →
      ∃ t, c'.typeNamed m.name = some t) : d.Solved c c' := by
  unfold TypeDec.Solved
  cases hbody : d.body with
  | record fields =>
    obtain ⟨ts, hfresh, hshape, hnames⟩ := h.entry_of_mem hd hn hm (by rw [hbody]; rfl)
    rw [TypeDec.shape, hbody] at hshape
    rw [hbody, TypeBody.mentions, List.forall₂_map_left_iff] at hnames
    obtain ⟨id, rfl, hentry⟩ := Arena.shape_eq_record_iff.mp hshape
    refine ⟨id, ts, hn, Nat.le_of_not_lt fun hlt => ?_, hnames, hentry⟩
    obtain ⟨s, hs⟩ := Arena.exists_shape_record_iff.mpr hlt
    rw [hfresh] at hs
    cases hs
  | array element =>
    obtain ⟨ts, hfresh, hshape, hnames⟩ := h.entry_of_mem hd hn hm (by rw [hbody]; rfl)
    rw [TypeDec.shape, hbody] at hshape
    rw [hbody, TypeBody.mentions] at hnames
    obtain ⟨id, rfl, hentry⟩ := Arena.shape_eq_array_iff.mp hshape
    cases hnames with
    | @cons _ u _ us hu hus =>
      refine ⟨id, u, hn, Nat.le_of_not_lt fun hlt => ?_, hu, hentry⟩
      obtain ⟨s, hs⟩ := Arena.exists_shape_array_iff.mpr hlt
      rw [hfresh] at hs
      cases hs
  | synonym target =>
    obtain ⟨id, hl, hs⟩ := h.lookup_of_mem hd
    refine ⟨t, hn, h.named_of_denotes (hm target (by rw [hbody]; exact List.mem_singleton_self _)) ?_⟩
    cases (h.stands_of_named hn hl).2 with
    | owner hown =>
      obtain ⟨d', hd'⟩ := h.building.owned id t hown
      have heq := hd'.declared.symm.trans hs
      cases heq
      have hsyn := hd'.constructs
      rw [hbody] at hsyn
      cases hsyn
    | known hk =>
      rw [hs] at hk
      cases hk
    | synonym hs' hbody' hl' hst =>
      rw [hs] at hs'
      cases hs'
      rw [hbody] at hbody'
      cases hbody'
      exact ⟨_, hl', hst⟩

/-- **The equations of a run hold at its end**, if its names are distinct and all of them are
resolved. -/
theorem solution (h : TypeRun c ds plans kept c₀ rs own c') (hkept : kept = ds)
    (hnd : (ds.map (·.name.name)).Nodup)
    (hall : ∀ d ∈ ds, ∃ t, c'.typeNamed d.name.name = some t) : Solution ds c c' := by
  subst hkept
  refine ⟨fun d hd => ?_, fun d hd e he hds hes heq => ?_, ?_, ?_, fun t s hs => ?_⟩
  · obtain ⟨t, ht⟩ := hall d hd
    exact h.solved hd ht fun m _ e he hname => hname ▸ hall e he
  · obtain ⟨t, ht⟩ := hall d hd
    exact h.eq_of_named hd he hds hes ht (heq ▸ ht)
  · refine h.size_eq hall hnd (k := fun i => .record ⟨i⟩) (fun i j hij => by cases hij; rfl)
      (fun i => Arena.exists_shape_record_iff) (fun i => Arena.exists_shape_record_iff)
      (fun d hd => ?_) fun d ts t hshape hds => ?_
    · cases hb : d.body <;> simp_all [TypeBody.isRecord, TypeBody.isSynonym]
    · rcases Arena.eq_record_or_array hshape hds with ⟨_, id, hb, rfl⟩ | ⟨_, id, hb, rfl⟩
      · exact ⟨fun _ => ⟨id.index, rfl⟩, fun _ => by rw [hb]; rfl⟩
      · simp [hb, TypeBody.isRecord]
  · refine h.size_eq hall hnd (k := fun i => .array ⟨i⟩) (fun i j hij => by cases hij; rfl)
      (fun i => Arena.exists_shape_array_iff) (fun i => Arena.exists_shape_array_iff)
      (fun d hd => ?_) fun d ts t hshape hds => ?_
    · cases hb : d.body <;> simp_all [TypeBody.isArray, TypeBody.isSynonym]
    · rcases Arena.eq_record_or_array hshape hds with ⟨_, id, hb, rfl⟩ | ⟨_, id, hb, rfl⟩
      · simp [hb, TypeBody.isArray]
      · exact ⟨fun _ => ⟨id.index, rfl⟩, fun _ => by rw [hb]; rfl⟩
  · exact h.building.kept t s (by rw [h.binds.others_eq.1]; exact hs)

end TypeRun

end TigerCheck
