import TigerCheck.Proofs.TypeName.RunEnds
import TigerCheck.Proofs.Typing.Judged

/-!
# Checking a run of types decides whether it is right

A run of types from which nothing is reported stands for what its declarations say: each record and each
array gets the position of its declaration as its new name, and under these names the table of declared
types holds the entries. If something is reported, then a name occurs twice, or a right-hand side mentions
a name that stands for nothing, or synonyms lead back to themselves; there are no such types then.

* `RunStands.not_loop`, `TypesDeclared.not_fails`: in a run that is right nothing fails.
* `TypeRun.runStands_iff`: what names stand for in the scope of a run is what is found at its end.
* `TypeRun.exists_names`: the new names of the types of a run.
* **`TypeRun.judged`**: the check of a run of types decides whether the run is right.
-/

namespace TigerCheck

open Check Relation

/-! ## Runs that are right -/

section

variable {a : Arena} {types types' outer : String → Option Ty} {run : List TypeDec} {n i : ℕ}
  {name : String} {t : Ty} {d : TypeDec}

/-- What is declared at a position is declared by a record or an array. -/
theorem TypeDec.isSynonym_of_handle (h : d.handle n = some t) : d.body.isSynonym = false := by
  unfold TypeDec.handle at h
  cases hbody : d.body with
  | synonym target =>
    rw [hbody] at h
    cases h
  | record => rfl
  | array => rfl

theorem RunStands.outer_of_not_mem (h : RunStands types run n name t) (hn : name ∉ names run) :
    types name = some t := by
  cases h with
  | outer _ ht => exact ht
  | declared hi _ => exact absurd (List.mem_map_of_mem (List.mem_of_getElem? hi)) hn
  | synonym hd _ _ => exact absurd (List.mem_map_of_mem hd) hn

/-- **A name on a circle of synonyms stands for nothing.** -/
theorem RunStands.not_loop (hnd : (names run).Nodup) (h : RunStands types run n name t) :
    ¬ TransGen (SynonymOf run) name name := by
  induction h with
  | outer hn =>
    intro hl
    obtain ⟨m, hm, -⟩ := exists_next_of_loop hl
    exact hn hm.mem_left
  | @declared i d t hi hh =>
    intro hl
    obtain ⟨m, ⟨e, he, hname, target, hbody, -⟩, -⟩ := exists_next_of_loop hl
    have hed := List.inj_on_of_nodup_map hnd he (List.mem_of_getElem? hi) hname
    have hsyn := TypeDec.isSynonym_of_handle hh
    rw [← hed, hbody] at hsyn
    cases hsyn
  | @synonym d target t hd hbody _ ih =>
    intro hl
    obtain ⟨m, hm, hloop⟩ := exists_next_of_loop hl
    have hstep : SynonymOf run d.name.name target.name := ⟨d, hd, rfl, target, hbody, rfl⟩
    rw [hm.unique hnd hstep] at hloop
    exact ih hloop

/-- **In a run that is right nothing fails.** -/
theorem TypesDeclared.not_fails {via : String → String → Prop}
    (h : TypesDeclared a n run types types') (ho : ∀ m, outer m = none → types m = none)
    (hf : Fails outer run via name) : False := by
  induction hf with
  | @missing d m hd hm hrun hout =>
    obtain ⟨t, ht⟩ := h.found d hd m hm
    have htypes := ((h.stands m.name t).mp ht).outer_of_not_mem hrun
    rw [ho m.name hout] at htypes
    cases htypes
  | loop hl =>
    obtain ⟨m, ⟨d, hd, -, target, hbody, rfl⟩, hloop⟩ := exists_next_of_loop hl
    obtain ⟨t, ht⟩ := h.found d hd target (by rw [hbody]; exact List.mem_singleton_self target)
    exact ((h.stands _ t).mp ht).not_loop h.distinct hloop
  | mention _ _ _ _ ih => exact ih

end

/-- An entry under new names has its types under new names. -/
theorem TypeDec.rename_shape (d : TypeDec) (ν : Renaming) (ts : List Ty) :
    (d.shape ts).rename ν = d.shape (ts.map (·.rename ν)) := by
  unfold TypeDec.shape
  cases d.body with
  | synonym target => rfl
  | array element => simp [Shape.rename, ArrayEntry.rename]
  | record fields =>
    simp only [Shape.rename, RecordEntry.rename, List.map_zipWith, List.zipWith_map_right]
    rfl

theorem BindsTypes.clean {seen : List String} {ds kept : List TypeDec} {c c' : Checker}
    {plans : List Plan} (h : BindsTypes seen ds c plans kept c') (hc : c.Clean) : c'.Clean := by
  induction h with
  | nil => exact hc
  | dropped _ _ ih => exact ih hc
  | bound _ _ ih =>
    refine ih fun id hid => ?_
    rw [Checker.status_declare] at hid
    split at hid
    · cases hid
    · exact hc id hid

/-- The names that a solved declaration mentions stand for types. -/
theorem exists_typeNamed_of_solved {c c' : Checker} {d : TypeDec} (h : d.Solved c c') :
    ∀ m ∈ d.body.mentions, ∃ t, c'.typeNamed m.name = some t := by
  unfold TypeDec.Solved at h
  cases hbody : d.body with
  | record fields =>
    rw [hbody] at h
    obtain ⟨id, ts, -, -, hall, -⟩ := h
    rw [← List.forall₂_map_left_iff (f := fun f : TypedName => f.typeName)
      (R := fun (m : Ident) t => c'.typeNamed m.name = some t)] at hall
    exact fun m hm => (exists_mem_of_forall₂ hall hm).imp fun t ht => ht.2
  | array element =>
    rw [hbody] at h
    obtain ⟨id, t, -, -, ht, -⟩ := h
    exact List.forall_mem_singleton.mpr ⟨t, ht⟩
  | synonym target =>
    rw [hbody] at h
    obtain ⟨t, -, ht⟩ := h
    exact List.forall_mem_singleton.mpr ⟨t, ht⟩

/-! ## New names -/

/-- New names for the handles of a table: the old ones below a bound, and above it positions. -/
def namesAfter (old : ℕ → ℕ) (size n : ℕ) (position : ℕ → ℕ) (i : ℕ) : ℕ :=
  if i < size then old i else n + position i

theorem namesAfter_of_not_lt {old position : ℕ → ℕ} {size n i : ℕ} (h : ¬ i < size) :
    namesAfter old size n position i = n + position i := if_neg h

theorem namesAfter_lt {old position : ℕ → ℕ} {size size' n k : ℕ} (hold : ∀ i < size, old i < n)
    (hpos : ∀ i, size ≤ i → i < size' → position i < k) :
    ∀ i < size', namesAfter old size n position i < n + k := by
  intro i hi
  unfold namesAfter
  split
  · next h =>
    have := hold i h
    omega
  · next h =>
    have := hpos i (by omega) hi
    omega

theorem namesAfter_inj {old position : ℕ → ℕ} {size size' n : ℕ} (hold : ∀ i < size, old i < n)
    (hinj : ∀ i < size, ∀ j < size, old i = old j → i = j)
    (hpos : ∀ i, size ≤ i → i < size' → ∀ j, size ≤ j → j < size' → position i = position j → i = j) :
    ∀ i < size', ∀ j < size',
      namesAfter old size n position i = namesAfter old size n position j → i = j := by
  intro i hi j hj heq
  unfold namesAfter at heq
  split at heq
  · next h =>
    have := hold i h
    split at heq
    · next h' => exact hinj i h j h' heq
    · omega
  · next h =>
    split at heq
    · next h' =>
      have := hold j h'
      omega
    · next h' => exact hpos i (by omega) hi j (by omega) hj (by omega)

namespace TypeRun

variable {c c₀ c' : Checker} {run : List TypeDec} {plans : List Plan} {rs : List (Option Ty)}
  {own : Owners} {d : TypeDec} {name : String} {t u : Ty} {id : NamedTypeId} {ν ν' : Renaming}
  {n i : ℕ} {kept : List TypeDec}

/-- The declaration at a position of the run is a record or an array, and stands for a type. -/
def DeclaredAt (run : List TypeDec) (c' : Checker) (i : ℕ) (t : Ty) : Prop :=
  ∃ d, run[i]? = some d ∧ d.body.isSynonym = false ∧ c'.typeNamed d.name.name = some t

theorem DeclaredAt.lt (h : DeclaredAt run c' i t) : i < run.length := by
  obtain ⟨d, hd, -⟩ := h
  exact (List.getElem?_eq_some_iff.mp hd).1

theorem DeclaredAt.type_unique (h : DeclaredAt run c' i t) (h' : DeclaredAt run c' i u) : t = u := by
  obtain ⟨d, hd, -, ht⟩ := h
  obtain ⟨e, he, -, hu⟩ := h'
  rw [hd] at he
  cases he
  rw [ht] at hu
  exact Option.some.inj hu

theorem DeclaredAt.position_unique (h : TypeRun c run plans run c₀ rs own c') (hnd : (names run).Nodup)
    {j : ℕ} (hi : DeclaredAt run c' i t) (hj : DeclaredAt run c' j t) : i = j := by
  have hlt := hi.lt
  obtain ⟨d, hd, hds, ht⟩ := hi
  obtain ⟨e, he, hes, hu⟩ := hj
  have hde := h.eq_of_named (List.mem_of_getElem? hd) (List.mem_of_getElem? he) hds hes ht hu
  exact (List.getElem?_inj hlt (List.Nodup.of_map _ hnd)).mp (by rw [hd, he, hde])

/-- A type that was not there before the run is declared at a position of it. -/
theorem exists_declaredAt (h : TypeRun c run plans run c₀ rs own c')
    (hall : ∀ d ∈ run, ∃ t, c'.typeNamed d.name.name = some t) {s : Shape}
    (hs : c'.types.shape t = some s) (hnew : c.types.shape t = none) :
    ∃ i, DeclaredAt run c' i t := by
  obtain ⟨d, hd, hsyn, hn⟩ := h.exists_named hall hs hnew
  obtain ⟨i, hi⟩ := List.mem_iff_getElem?.mp hd
  exact ⟨i, d, hi, hsyn, hn⟩

/-- New names follow the positions of a run. -/
def Follows (ν' : Renaming) (n : ℕ) (run : List TypeDec) (c' : Checker) : Prop :=
  ∀ i (d : TypeDec) t, run[i]? = some d → d.body.isSynonym = false →
    c'.typeNamed d.name.name = some t → d.handle (n + i) = some (t.rename ν')

/-- **The types of a run get the positions of their declarations as new names.** -/
theorem exists_names (h : TypeRun c run plans run c₀ rs own c') (hnd : (names run).Nodup)
    (hall : ∀ d ∈ run, ∃ t, c'.typeNamed d.name.name = some t) (hν : ν.Fits c.types n) :
    ∃ ν' : Renaming, ν.Agrees ν' c.types ∧ ν'.Fits c'.types (n + run.length) ∧
      Follows ν' n run c' := by
  classical
  let position (t : Ty) : ℕ := if hi : ∃ i, DeclaredAt run c' i t then hi.choose else 0
  have hposition : ∀ {i t}, DeclaredAt run c' i t → position t = i := fun {i t} hi => by
    have hex : ∃ i, DeclaredAt run c' i t := ⟨i, hi⟩
    exact (dif_pos hex).trans (DeclaredAt.position_unique h hnd hex.choose_spec hi)
  -- the two tables in one: a handle beyond the old table is declared at a position of the run
  have hrecord : ∀ r, c.types.records.size ≤ r → r < c'.types.records.size →
      DeclaredAt run c' (position (.record ⟨r⟩)) (.record ⟨r⟩) := fun r hle hlt => by
    obtain ⟨s, hs⟩ := Arena.exists_shape_record_iff.mpr hlt
    have hnew : c.types.shape (.record ⟨r⟩) = none := Option.eq_none_iff_forall_ne_some.mpr
      fun s hs => absurd (Arena.exists_shape_record_iff.mp ⟨s, hs⟩) (Nat.not_lt.mpr hle)
    obtain ⟨i, hi⟩ := h.exists_declaredAt hall hs hnew
    rw [hposition hi]
    exact hi
  have harray : ∀ r, c.types.arrays.size ≤ r → r < c'.types.arrays.size →
      DeclaredAt run c' (position (.array ⟨r⟩)) (.array ⟨r⟩) := fun r hle hlt => by
    obtain ⟨s, hs⟩ := Arena.exists_shape_array_iff.mpr hlt
    have hnew : c.types.shape (.array ⟨r⟩) = none := Option.eq_none_iff_forall_ne_some.mpr
      fun s hs => absurd (Arena.exists_shape_array_iff.mp ⟨s, hs⟩) (Nat.not_lt.mpr hle)
    obtain ⟨i, hi⟩ := h.exists_declaredAt hall hs hnew
    rw [hposition hi]
    exact hi
  refine ⟨⟨namesAfter ν.record c.types.records.size n fun r => position (.record ⟨r⟩),
    namesAfter ν.array c.types.arrays.size n fun r => position (.array ⟨r⟩)⟩,
    ⟨fun r hr => if_pos hr, fun r hr => if_pos hr⟩, ⟨?_, ?_, ?_, ?_⟩, ?_⟩
  · exact namesAfter_lt hν.record_lt fun r hle hlt => (hrecord r hle hlt).lt
  · exact namesAfter_lt hν.array_lt fun r hle hlt => (harray r hle hlt).lt
  · refine namesAfter_inj hν.record_lt hν.record_inj fun r hr hr' k hk hk' heq => ?_
    have hrk := hrecord r hr hr'
    rw [heq] at hrk
    cases hrk.type_unique (hrecord k hk hk')
    rfl
  · refine namesAfter_inj hν.array_lt hν.array_inj fun r hr hr' k hk hk' heq => ?_
    have hrk := harray r hr hr'
    rw [heq] at hrk
    cases hrk.type_unique (harray k hk hk')
    rfl
  · intro i d t hi hsyn hn
    have hpos := hposition ⟨d, hi, hsyn, hn⟩
    obtain ⟨id, ts, -, -, hfresh, hshape, -⟩ := h.own_of_named (List.mem_of_getElem? hi) hsyn hn
    rw [h.binds.others_eq.1] at hfresh
    rcases Arena.eq_record_or_array hshape hsyn with ⟨fields, r, hbody, rfl⟩ | ⟨e, r, hbody, rfl⟩
    · have hold : ¬ r.index < c.types.records.size := fun hlt => by
        obtain ⟨s, hs⟩ := Arena.exists_shape_record_iff.mpr hlt
        rw [hfresh] at hs
        cases hs
      simp only [TypeDec.handle, hbody, Ty.rename, namesAfter_of_not_lt hold, hpos]
    · have hold : ¬ r.index < c.types.arrays.size := fun hlt => by
        obtain ⟨s, hs⟩ := Arena.exists_shape_array_iff.mpr hlt
        rw [hfresh] at hs
        cases hs
      simp only [TypeDec.handle, hbody, Ty.rename, namesAfter_of_not_lt hold, hpos]

/-! ## What names stand for -/

/-- What a name denotes while the run is resolved it stands for in the scope of the run. -/
theorem runStands_of_stands (h : TypeRun c run plans run c₀ rs own c') (hnd : (names run).Nodup)
    (hall : ∀ d ∈ run, ∃ t, c'.typeNamed d.name.name = some t) (hν : ν.Agrees ν' c.types)
    (hfollows : Follows ν' n run c') (hst : Stands c₀ own id t) :
    ∀ name, c₀.typeNames.lookup name = some id →
      RunStands (c.env ν).types run n name (t.rename ν') := by
  induction hst with
  | @owner id t hown =>
    intro name hl
    obtain ⟨d, hd⟩ := h.building.owned id t hown
    obtain ⟨hmem, rfl⟩ := h.name_eq_of_lookup hl hd.declared
    obtain ⟨u, hu⟩ := hall d hmem
    rw [h.building.stands_unique (h.stands_of_named hu hl).2 (.owner hown)] at hu
    obtain ⟨i, hi⟩ := List.mem_iff_getElem?.mp hmem
    exact .declared hi (hfollows i d t hi hd.constructs hu)
  | @known id t hk =>
    intro name hl
    have hn : name ∉ names run := by
      intro hn
      obtain ⟨d, -, -, hs⟩ := (h.starts hnd).status_of_mem hn hl
      rw [hk] at hs
      cases hs
    have ht : c.typeNamed name = some t := by
      rw [← h.typeNamed_of_not_mem hn]
      exact Checker.typeNamed_eq_some_iff.mpr
        ⟨id, by rw [h.lookup_eq, hl], h.building.advances.resolved hk⟩
    exact .outer hn (by
      rw [Checker.env_types, ht, Option.map_some, hν.rename_eq (h.rest.has_typeNamed ht)])
  | @synonym id k d target t hs hbody hlk _ ih =>
    intro name hl
    obtain ⟨hd, rfl⟩ := h.name_eq_of_lookup hl hs
    exact .synonym hd hbody (ih target.name hlk)

/-- **What names stand for in the scope of a run is what is found at its end.** -/
theorem runStands_iff (h : TypeRun c run plans run c₀ rs own c') (hnd : (names run).Nodup)
    (hall : ∀ d ∈ run, ∃ t, c'.typeNamed d.name.name = some t) (hν : ν.Agrees ν' c.types)
    (hfollows : Follows ν' n run c') :
    RunStands (c.env ν).types run n name t ↔ (c'.env ν').types name = some t := by
  rw [Checker.env_types, Option.map_eq_some_iff]
  constructor
  · intro hst
    induction hst with
    | @outer name t hn ht =>
      obtain ⟨u, hu, rfl⟩ := Option.map_eq_some_iff.mp ht
      exact ⟨u, by rw [h.typeNamed_of_not_mem hn, hu], hν.rename_eq (h.rest.has_typeNamed hu)⟩
    | @declared i d t hi hh =>
      obtain ⟨u, hu⟩ := hall d (List.mem_of_getElem? hi)
      have hd := hfollows i d u hi (TypeDec.isSynonym_of_handle hh) hu
      rw [hh] at hd
      exact ⟨u, hu, (Option.some.inj hd).symm⟩
    | @synonym d target t hd hbody _ ih =>
      obtain ⟨u, hu, rfl⟩ := ih
      obtain ⟨v, hv⟩ := hall d hd
      have hsolved := h.solved hd hv fun m _ e he hname => hname ▸ hall e he
      rw [TypeDec.Solved, hbody] at hsolved
      obtain ⟨w, hw, htarget⟩ := hsolved
      rw [hu] at htarget
      cases htarget
      exact ⟨u, hw, rfl⟩
  · rintro ⟨u, hu, rfl⟩
    by_cases hn : name ∈ names run
    · obtain ⟨d, hd, rfl⟩ := List.mem_map.mp hn
      obtain ⟨id, hl, -⟩ := h.lookup_of_mem hd
      exact h.runStands_of_stands hnd hall hν hfollows (h.stands_of_named hu hl).2 _ hl
    · rw [h.typeNamed_of_not_mem hn] at hu
      exact .outer hn (by
        rw [Checker.env_types, hu, Option.map_some, hν.rename_eq (h.rest.has_typeNamed hu)])

/-! ## The judgement -/

/-- Where the table of declared types holds the entries of a run, the run is right. -/
theorem typesDeclared (h : TypeRun c run plans run c₀ rs own c') (hnd : (names run).Nodup)
    (hall : ∀ d ∈ run, ∃ t, c'.typeNamed d.name.name = some t)
    (hfound : ∀ d ∈ run, ∀ m ∈ d.body.mentions, ∃ t, c'.typeNamed m.name = some t)
    (hν : ν.Agrees ν' c.types) (hfollows : Follows ν' n run c') {b : Arena}
    (hb : c'.types.Embeds ν' b) :
    TypesDeclared b n run (c.env ν).types (c'.env ν').types where
  distinct := hnd
  stands name t := (h.runStands_iff hnd hall hν hfollows).symm
  found d hd m hm := by
    obtain ⟨t, ht⟩ := hfound d hd m hm
    exact ⟨t.rename ν', by rw [Checker.env_types, ht]; rfl⟩
  entries i d t hi hh := by
    have hd := List.mem_of_getElem? hi
    have hsyn := TypeDec.isSynonym_of_handle hh
    obtain ⟨u, hu⟩ := hall d hd
    rw [hfollows i d u hi hsyn hu] at hh
    cases hh
    obtain ⟨ts, -, hshape, hnames⟩ := h.entry_of_mem hd hu
      (fun m _ e he hname => hname ▸ hall e he) hsyn
    refine ⟨ts.map (·.rename ν'), ?_, by rw [hb u _ hshape, TypeDec.rename_shape]⟩
    refine List.forall₂_map_right_iff.mpr (hnames.imp fun m v hv => ?_)
    rw [Checker.env_types, hv, Option.map_some]

/-- A run that is right has its entries in the table of declared types. -/
theorem embeds (h : TypeRun c run plans run c₀ rs own c')
    (hall : ∀ d ∈ run, ∃ t, c'.typeNamed d.name.name = some t)
    (hν : ν.Agrees ν' c.types) (hfollows : Follows ν' n run c') {b : Arena}
    (hb : c.types.Embeds ν b) (hd : TypesDeclared b n run (c.env ν).types (c'.env ν').types) :
    c'.types.Embeds ν' b := by
  intro t s hs
  rcases Option.eq_none_or_eq_some (c.types.shape t) with hnew | ⟨s', hs'⟩
  · obtain ⟨i, d, hi, hsyn, hn⟩ := h.exists_declaredAt hall hs hnew
    obtain ⟨us, hus, hshape⟩ := hd.entries i d _ hi (hfollows i d t hi hsyn hn)
    obtain ⟨ts, -, hshape', hnames⟩ := h.entry_of_mem (List.mem_of_getElem? hi) hn
      (fun m _ e he hname => hname ▸ hall e he) hsyn
    rw [hs] at hshape'
    cases hshape'
    rw [hshape, TypeDec.rename_shape]
    have hts : List.Forall₂ (fun (m : Ident) u => (c'.env ν').types m.name = some u)
        d.body.mentions (ts.map (·.rename ν')) :=
      List.forall₂_map_right_iff.mpr (hnames.imp fun m v hv => by
        rw [Checker.env_types, hv, Option.map_some])
    have hunique : Relator.RightUnique fun (m : Ident) u => (c'.env ν').types m.name = some u :=
      fun _ _ _ hu hv => Option.some.inj (hu.symm.trans hv)
    rw [List.right_unique_forall₂' hunique hus hts]
  · have hkept := h.building.kept t s' (by rw [h.binds.others_eq.1, hs'])
    rw [hs] at hkept
    cases hkept
    rw [hν.rename_eq (Arena.has_of_shape hs'), hν.shape_eq (h.rest.closed t _ hs')]
    exact hb t s hs'

/-- A run that reports something is not right. -/
theorem not_typesDeclared (h : TypeRun c run plans kept c₀ rs own c')
    (hlt : c.diagnostics.size ≠ c'.diagnostics.size) {b : Arena} {types' : String → Option Ty} :
    ¬ TypesDeclared b n run (c.env ν).types types' := by
  intro hd
  obtain ⟨rfl, -⟩ := h.binds.kept_eq (fun _ _ => List.not_mem_nil) hd.distinct
  have hbinds := h.binds.diagnostics_eq_iff.mpr ⟨fun _ _ => List.not_mem_nil, hd.distinct⟩
  by_cases hrs : none ∈ rs
  · obtain ⟨m, hm, hr⟩ := exists_mem_of_forall₂ (h.finds.settles (open_nil c₀)).flip hrs
    obtain ⟨d, hmem, rfl⟩ := List.mem_map.mp hm
    obtain ⟨id, hl, -⟩ := h.lookup_of_mem hmem
    have hnone : c'.typeNamed d.name.name = none := by
      rw [Checker.typeNamed, h.lookup_eq, hl]
      dsimp only
      rw [hr id hl List.not_mem_nil]
      rfl
    refine hd.not_fails (fun m hm => ?_) ((h.poisoned_iff hd.distinct hmem).mp hnone)
    rw [Checker.env_types, hm, Option.map_none]
  · rw [h.finds.quiet hrs] at hlt
    exact hlt hbinds.symm

/-- What is in scope besides types is as it was before a run of types. -/
theorem scopes_eq (h : TypeRun c run plans kept c₀ rs own c') :
    c'.values = c.values ∧ c'.functions = c.functions ∧ c'.frames = c.frames := by
  obtain ⟨-, hvalues, hfunctions, hframes, -, -⟩ := h.binds.others_eq
  exact ⟨h.building.advances.values_eq.trans hvalues,
    h.building.advances.functions_eq.trans hfunctions,
    h.building.advances.frames_eq.trans hframes⟩

/-- Besides the types the environments are as they were before a run of types. -/
theorem env_eq (h : TypeRun c run plans kept c₀ rs own c') (hc : c.Sound)
    (hν : ν.Agrees ν' c.types) :
    c'.env ν' = { c.env ν with types := (c'.env ν').types } := by
  obtain ⟨hvalues, hfunctions, hframes⟩ := h.scopes_eq
  have hv : (c'.env ν').values = (c.env ν).values := by
    funext name
    rw [Checker.env_values, Checker.env_values, Checker.valueTy, hvalues, hframes]
    exact Checker.map_rename_eq hν fun t ht => hc.has_valueTy ht
  have hfun : (c'.env ν').functions = (c.env ν).functions := by
    funext name
    rw [Checker.env_functions, Checker.env_functions, Checker.signed, hfunctions, hframes]
    exact Checker.map_signed_rename_eq hc hν name
  exact Env.ext hv hfun rfl

/-- A run from which nothing is reported leaves a state without faults. -/
theorem fine (h : TypeRun c run plans run c₀ rs own c') (hf : c.Fine ν n)
    (hall : ∀ d ∈ run, ∃ t, c'.typeNamed d.name.name = some t) (hclean : c'.Clean) {n' : ℕ}
    (hfits : ν'.Fits c'.types n') : c'.Fine ν' n' where
  clean := hclean
  elements t e hs := by
    rcases Option.eq_none_or_eq_some (c.types.shape t) with hnew | ⟨s', hs'⟩
    · obtain ⟨d, hd, hsyn, hn⟩ := h.exists_named hall hs hnew
      obtain ⟨ts, -, hshape, hnames⟩ := h.entry_of_mem hd hn
        (fun m _ e he hname => hname ▸ hall e he) hsyn
      rw [hs] at hshape
      unfold TypeDec.shape at hshape
      cases hbody : d.body with
      | synonym target =>
        rw [hbody] at hsyn
        cases hsyn
      | record fields =>
        rw [hbody] at hshape
        cases hshape
      | array element =>
        rw [hbody] at hshape hnames
        cases hnames with
        | cons hu hus =>
          cases hshape
          simp
    · have hkept := h.building.kept t s' (by rw [h.binds.others_eq.1, hs'])
      rw [hs] at hkept
      cases hkept
      exact hf.elements t e hs'
  fits := hfits
  values name v hv := by
    obtain ⟨hvalues, -, hframes⟩ := h.scopes_eq
    rw [hvalues] at hv
    rw [Checker.valueTy, hvalues, hframes]
    exact hf.values name v hv
  functions name f hl := by
    obtain ⟨-, hfunctions, hframes⟩ := h.scopes_eq
    rw [hfunctions] at hl
    rw [Checker.signed, hfunctions, hframes]
    exact hf.functions name f hl

/-- **The check of a run of types decides whether the run is right**, and what its names stand for. -/
theorem judged (h : TypeRun c run plans kept c₀ rs own c') (hc : c.Sound) (hf : c.Fine ν n) :
    Judged c ν c' (n + run.length)
      (fun b Γ' => ∃ types, TypesDeclared b n run (c.env ν).types types ∧
        Γ' = { c.env ν with types := types })
      fun ν' Γ' => Γ' = c'.env ν' ∧ .dropped ∉ plans ∧ none ∉ rs := by
  have hle := h.binds.diagnostics_le
  have hle' := h.building.advances.diagnostics_le
  by_cases hq : c'.diagnostics.size = c.diagnostics.size
  swap
  · refine .wrong (by omega) fun b _ Γ' hΓ => ?_
    obtain ⟨types, hd, -⟩ := hΓ
    exact h.not_typesDeclared (Ne.symm hq) hd
  obtain ⟨-, hnd⟩ := h.binds.diagnostics_eq_iff.mp (by omega)
  obtain ⟨rfl, hplans⟩ := h.binds.kept_eq (fun _ _ => List.not_mem_nil) hnd
  obtain ⟨hclean, hrs⟩ := h.finds.clean (open_nil c₀) (h.binds.clean hf.clean) (by omega)
  have hall := h.named_of_found hrs
  obtain ⟨ν', hag, hfits, hfollows⟩ := h.exists_names hnd hall hf.fits
  have hfound : ∀ d ∈ kept, ∀ m ∈ d.body.mentions, ∃ t, c'.typeNamed m.name = some t := by
    intro d hd m hm
    obtain ⟨t, ht⟩ := hall d hd
    exact exists_typeNamed_of_solved (h.solved hd ht fun m _ e he hname => hname ▸ hall e he) m hm
  refine .right hq hag (h.fine hf hall hclean hfits) ⟨rfl, hplans, hrs⟩ fun b hb Γ' => ?_
  rw [h.env_eq hc hag]
  constructor
  · rintro ⟨types, hd, rfl⟩
    have htypes : types = (c'.env ν').types := by
      funext name
      refine Option.ext fun t => ?_
      rw [hd.stands, h.runStands_iff hnd hall hag hfollows]
    rw [htypes] at hd
    exact ⟨h.embeds hall hag hfollows hb hd, by rw [htypes]⟩
  · rintro ⟨hb', rfl⟩
    exact ⟨_, h.typesDeclared hnd hall hfound hag hfollows hb', rfl⟩

end TypeRun

end TigerCheck
