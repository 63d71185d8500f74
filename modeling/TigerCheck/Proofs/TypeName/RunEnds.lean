import TigerCheck.Proofs.TypeName.Poisoned

/-!
# How a run of types ends

A declaration that fails is poisoned, and takes with it the declarations that are settled later and depend on
it. What depends on no failure is solved, and leads to nothing that is not complete.

* `Checker.DependsOnFailure`, `Checker.FailsInOrder`: what should fail, and what does.
* `Arena.Leads`, `Arena.Complete`: the types that are come to from a type, and whether they are complete.
* `TypeRun.Whole`: the types that come from a run without failures.
* `RunEnds`: what is poisoned at the end of a run, and what is complete. **`TypeRun.ends`**: a run ends so.
-/

namespace TigerCheck

open Check Relation

namespace Checker

variable {c : Checker} {run : List TypeDec} {n : String}

/-- The declaration that a name leads to is poisoned. -/
def Poisoned (c : Checker) (name : String) : Prop :=
  ∃ id, c.typeNames.lookup name = some id ∧ c.status id = some .poisoned

/-- Following right-hand sides within a run leads from a name to one that stands for no type, or to a
circle of synonyms. -/
def DependsOnFailure (c : Checker) (run : List TypeDec) (n : String) : Prop :=
  Fails c.typeNamed run (fun _ _ => True) n

/-- The same, where each step leads to a declaration that is settled before. -/
def FailsInOrder (c : Checker) (run : List TypeDec) (n : String) : Prop :=
  Fails c.typeNamed run (Before (finishOrder run)) n

theorem FailsInOrder.dependsOnFailure (h : c.FailsInOrder run n) : c.DependsOnFailure run n :=
  h.mono fun _ _ _ => trivial

/-- **What depends on a failure does not depend on the order of the declarations.** -/
theorem dependsOnFailure_perm {run' : List TypeDec} (hp : run.Perm run') :
    c.DependsOnFailure run n ↔ c.DependsOnFailure run' n := by
  have hsub : ∀ {r r' : List TypeDec}, r.Perm r' → c.DependsOnFailure r n →
      c.DependsOnFailure r' n := by
    intro r r' hp h
    have hnames : (names r).Perm (names r') := hp.map _
    induction h with
    | missing hd hm hrun ho =>
      exact .missing (hp.mem_iff.mp hd) hm (fun h => hrun (hnames.mem_iff.mpr h)) ho
    | loop hl =>
      have hsyn : ∀ a b, SynonymOf r a b → SynonymOf r' a b := fun a b hab => by
        obtain ⟨d, hd, hrest⟩ := hab
        exact ⟨d, hp.mem_iff.mp hd, hrest⟩
      exact .loop (TransGen.mono hsyn _ _ hl)
    | mention hd hm _ _ ih => exact .mention (hp.mem_iff.mp hd) hm trivial ih
  exact ⟨hsub hp, hsub hp.symm⟩

end Checker

namespace Arena

/-- The entry of one type mentions another. -/
def Leads (a : Arena) (t u : Ty) : Prop := ∃ s, a.shape t = some s ∧ u ∈ s.types

/-- Every array that is come to from a type has an element. -/
def Complete (a : Arena) (t : Ty) : Prop :=
  ∀ id, ReflTransGen a.Leads t (.array id) → ∃ name u, a.arrays[id.index]? = some ⟨name, some u⟩

theorem Closed.has_of_leads {a : Arena} (h : a.Closed) {t u : Ty} (ht : a.Has t)
    (hl : ReflTransGen a.Leads t u) : a.Has u := by
  induction hl with
  | refl => exact ht
  | tail _ hstep _ =>
    obtain ⟨s, hs, hu⟩ := hstep
    exact h _ s hs _ hu

end Arena

/-! ## The end of a run -/

namespace TypeRun

variable {c c₀ c' : Checker} {run : List TypeDec} {plans : List Plan} {rs : List (Option Ty)}
  {own : Owners} {d : TypeDec} {n : String} {t u : Ty} {id : NamedTypeId}

/-- A name from before a run stands for what it stood for. -/
theorem typeNamed_of_not_mem (h : TypeRun c run plans run c₀ rs own c') (hn : n ∉ names run) :
    c'.typeNamed n = c.typeNamed n := by
  have hl : c'.typeNames.lookup n = c.typeNames.lookup n := by
    rw [h.lookup_eq, h.binds.lookup_of_not_mem hn]
  rw [Checker.typeNamed, Checker.typeNamed, hl]
  cases hlk : c.typeNames.lookup n with
  | none => rfl
  | some id =>
    obtain ⟨s, hs⟩ := h.rest.known n id hlk
    have hs₀ := h.binds.status_of_some hs
    dsimp only
    cases s with
    | pending dec o => exact absurd hs (h.rest.settled id dec o)
    | resolved t => rw [h.building.advances.resolved hs₀, hs]
    | poisoned => rw [h.building.advances.poisoned hs₀, hs]

/-- A declaration that depends on no failure is resolved, and so is what it mentions. -/
theorem exists_typeNamed (h : TypeRun c run plans run c₀ rs own c') (hnd : (names run).Nodup)
    (hn : n ∈ names run) (hf : ¬ c.DependsOnFailure run n) : ∃ t, c'.typeNamed n = some t := by
  obtain ⟨d, hd, rfl⟩ := List.mem_map.mp hn
  refine Option.ne_none_iff_exists'.mp fun hnone => hf ?_
  exact Checker.FailsInOrder.dependsOnFailure ((h.poisoned_iff hnd hd).mp hnone)

theorem exists_typeNamed_of_mention (h : TypeRun c run plans run c₀ rs own c')
    (hnd : (names run).Nodup) (hd : d ∈ run) (hf : ¬ c.DependsOnFailure run d.name.name) :
    ∀ m ∈ d.body.mentions, ∀ e ∈ run, e.name.name = m.name → ∃ t, c'.typeNamed m.name = some t :=
  fun _ hm _ he hname => h.exists_typeNamed hnd (hname ▸ List.mem_map_of_mem he)
    fun hfm => hf (.mention hd hm trivial hfm)

/-- A type comes from a run without failures: it is the record or the array of a declaration that depends
on no failure, or is come to from a name that stood for a type before the run. -/
def Whole (c : Checker) (run : List TypeDec) (c' : Checker) (u : Ty) : Prop :=
  (∃ e ∈ run, e.body.isSynonym = false ∧ ¬ c.DependsOnFailure run e.name.name ∧
    c'.typeNamed e.name.name = some u) ∨
  ∃ n t, n ∉ names run ∧ c.typeNamed n = some t ∧ ReflTransGen c.types.Leads t u

theorem whole_of_stands (h : TypeRun c run plans run c₀ rs own c') (hnd : (names run).Nodup)
    (hst : Stands c₀ own id t) : ∀ n, c₀.typeNames.lookup n = some id →
      (n ∈ names run → ¬ c.DependsOnFailure run n) → Whole c run c' t := by
  have hstart := h.starts hnd
  induction hst with
  | @owner id t hown =>
    intro n hl hf
    obtain ⟨d, hd⟩ := h.building.owned id t hown
    have hname := (h.name_eq_of_lookup hl hd.declared).2
    subst hname
    have hmem := hstart.mem_names hd.declared
    obtain ⟨u, hu⟩ := h.exists_typeNamed hnd hmem (hf hmem)
    have heq := h.building.stands_unique (h.stands_of_named hu hl).2 (.owner hown)
    exact Or.inl ⟨d, (hstart.pending id d none hd.declared).1, hd.constructs, hf hmem, heq ▸ hu⟩
  | @known id t hk =>
    intro n hl hf
    have hn : n ∉ names run := by
      intro hn
      obtain ⟨d, -, -, hs⟩ := hstart.status_of_mem hn hl
      rw [hk] at hs
      cases hs
    refine Or.inr ⟨n, t, hn, ?_, .refl⟩
    rw [← h.typeNamed_of_not_mem hn]
    exact Checker.typeNamed_eq_some_iff.mpr
      ⟨id, by rw [h.lookup_eq, hl], h.building.advances.resolved hk⟩
  | @synonym id k d target t hs hbody hlk _ ih =>
    intro n hl hf
    obtain ⟨hd, rfl⟩ := h.name_eq_of_lookup hl hs
    have hm : target ∈ d.body.mentions := by
      rw [hbody]
      exact List.mem_singleton_self target
    exact ih target.name hlk fun _ hfm =>
      hf (List.mem_map_of_mem hd) (.mention hd hm trivial hfm)

theorem whole_of_named (h : TypeRun c run plans run c₀ rs own c') (hnd : (names run).Nodup)
    (hf : n ∈ names run → ¬ c.DependsOnFailure run n) (ht : c'.typeNamed n = some t) :
    Whole c run c' t := by
  by_cases hn : n ∈ names run
  · obtain ⟨d, hd, rfl⟩ := List.mem_map.mp hn
    obtain ⟨id, hl, -⟩ := h.lookup_of_mem hd
    exact h.whole_of_stands hnd (h.stands_of_named ht hl).2 _ hl hf
  · exact Or.inr ⟨n, t, hn, h.typeNamed_of_not_mem hn ▸ ht, .refl⟩

/-- From a whole type only whole types are come to. -/
theorem whole_of_leads (h : TypeRun c run plans run c₀ rs own c') (hnd : (names run).Nodup)
    (ht : Whole c run c' t) (hl : c'.types.Leads t u) : Whole c run c' u := by
  obtain ⟨s, hs, hu⟩ := hl
  rcases ht with ⟨e, he, hsyn, hf, hn⟩ | ⟨n, t₀, hn, ht₀, hl⟩
  · obtain ⟨ts, -, hshape, hms⟩ := h.entry_of_mem he hn (h.exists_typeNamed_of_mention hnd he hf) hsyn
    rw [hs] at hshape
    cases hshape
    obtain ⟨m, hm, hmu⟩ := exists_mem_of_forall₂ hms.flip (TypeDec.mem_of_mem_types hu)
    exact h.whole_of_named hnd (fun _ hfm => hf (.mention he hm trivial hfm)) hmu
  · have hhas := h.rest.closed.has_of_leads (h.rest.has_typeNamed ht₀) hl
    rcases Arena.shape_or_plain hhas with ⟨s', hs'⟩ | hplain
    · have hkept := h.building.kept t s' (by rw [h.binds.others_eq.1, hs'])
      rw [hs] at hkept
      cases hkept
      exact Or.inr ⟨n, t₀, hn, ht₀, hl.tail ⟨s, hs', hu⟩⟩
    · have hnone := hplain {}
      cases t with
      | record r => exact absurd hnone (by simp [Arena.Has])
      | array r => exact absurd hnone (by simp [Arena.Has])
      | _ => cases hs

theorem whole_of_reaches (h : TypeRun c run plans run c₀ rs own c') (hnd : (names run).Nodup)
    (ht : Whole c run c' t) (hl : ReflTransGen c'.types.Leads t u) : Whole c run c' u := by
  induction hl with
  | refl => exact ht
  | tail _ hstep ih => exact h.whole_of_leads hnd ih hstep

end TypeRun

/-- How a run of types ends, from the state `c` before it to the state `c'` at its end. -/
structure RunEnds (run : List TypeDec) (c c' : Checker) : Prop where
  /-- A declaration is poisoned exactly if it fails along the order in which the run is settled, -/
  poisoned_iff : ∀ d ∈ run, c'.Poisoned d.name.name ↔ c.FailsInOrder run d.name.name
  /-- and resolved otherwise. -/
  resolved_iff : ∀ d ∈ run, (∃ t, c'.typeNamed d.name.name = some t) ↔
    ¬ c.FailsInOrder run d.name.name
  /-- So what depends on a failure is poisoned unless it was settled too early. -/
  agrees_iff : ∀ d ∈ run, (c'.Poisoned d.name.name ↔ c.DependsOnFailure run d.name.name) ↔
    (c.DependsOnFailure run d.name.name → c.FailsInOrder run d.name.name)
  /-- A declaration that depends on no failure is solved, -/
  solved : ∀ d ∈ run, ¬ c.DependsOnFailure run d.name.name → d.Solved c c'
  /-- and every type that is come to from it is that of such a declaration, or was come to before. -/
  whole : ∀ d ∈ run, ¬ c.DependsOnFailure run d.name.name → ∀ t u,
    c'.typeNamed d.name.name = some t → ReflTransGen c'.types.Leads t u → TypeRun.Whole c run c' u
  /-- It is complete, if the types from before the run are. -/
  complete : (∀ n t, c.typeNamed n = some t → c.types.Complete t) → ∀ d ∈ run,
    ¬ c.DependsOnFailure run d.name.name → ∀ t, c'.typeNamed d.name.name = some t →
      c'.types.Complete t

/-- Only the types before the run, and what names stand for, matter. -/
theorem RunEnds.congr {run : List TypeDec} {c c₁ c' : Checker} (h : RunEnds run c₁ c')
    (htypes : c₁.types = c.types) (hname : c₁.typeNamed = c.typeNamed) : RunEnds run c c' := by
  have hdep : ∀ n, c₁.DependsOnFailure run n ↔ c.DependsOnFailure run n := fun n => by
    rw [Checker.DependsOnFailure, hname, Checker.DependsOnFailure]
  have hord : ∀ n, c₁.FailsInOrder run n ↔ c.FailsInOrder run n := fun n => by
    rw [Checker.FailsInOrder, hname, Checker.FailsInOrder]
  have hwhole : ∀ u, TypeRun.Whole c₁ run c' u ↔ TypeRun.Whole c run c' u := fun u => by
    simp only [TypeRun.Whole, hdep, hname, htypes]
  refine ⟨?_, ?_, ?_, ?_, ?_, ?_⟩
  · simpa only [hord] using h.poisoned_iff
  · simpa only [hord] using h.resolved_iff
  · simpa only [hord, hdep] using h.agrees_iff
  · simpa only [hdep, TypeDec.Solved, htypes] using h.solved
  · simpa only [hdep, hwhole] using h.whole
  · simpa only [hdep, hname, htypes] using h.complete

theorem TypeRun.ends {c c₀ c' : Checker} {run : List TypeDec} {plans : List Plan}
    {rs : List (Option Ty)} {own : Owners} (h : TypeRun c run plans run c₀ rs own c')
    (hnd : (names run).Nodup) : RunEnds run c c' := by
  have hpoisoned : ∀ d ∈ run, c'.Poisoned d.name.name ↔ c.FailsInOrder run d.name.name := by
    intro d hd
    refine Iff.trans ?_ (h.poisoned_iff hnd hd)
    obtain ⟨id, hl, hs⟩ := h.lookup_of_mem hd
    obtain ⟨s, hs', -⟩ := h.building.advances.step id _ hs
    have hl' : c'.typeNames.lookup d.name.name = some id := by rw [h.lookup_eq, hl]
    rw [Checker.typeNamed, hl']
    dsimp only
    rw [hs']
    constructor
    · rintro ⟨k, hk, hsk⟩
      rw [hl'] at hk
      cases hk
      rw [hs'] at hsk
      cases hsk
      rfl
    · intro hnone
      cases s with
      | pending dec o => exact absurd hs' (h.atRest.settled id dec o)
      | resolved t => cases hnone
      | poisoned => exact ⟨id, hl', hs'⟩
  have hwhole : ∀ d ∈ run, ¬ c.DependsOnFailure run d.name.name → ∀ t u,
      c'.typeNamed d.name.name = some t → ReflTransGen c'.types.Leads t u → Whole c run c' u :=
    fun d _ hf t u ht hl => h.whole_of_reaches hnd (h.whole_of_named hnd (fun _ => hf) ht) hl
  have hsolved : ∀ d ∈ run, ¬ c.DependsOnFailure run d.name.name → d.Solved c c' := by
    intro d hd hf
    obtain ⟨t, ht⟩ := h.exists_typeNamed hnd (List.mem_map_of_mem hd) hf
    exact h.solved hd ht (h.exists_typeNamed_of_mention hnd hd hf)
  refine ⟨hpoisoned, fun d hd => ?_, fun d hd => ?_, hsolved, hwhole, fun hold d hd hf t ht id hl => ?_⟩
  · rw [← Option.ne_none_iff_exists']
    exact not_congr (h.poisoned_iff hnd hd)
  · rw [hpoisoned d hd]
    exact ⟨fun hiff => hiff.mpr, fun hto => ⟨fun hf => hf.dependsOnFailure, hto⟩⟩
  · rcases hwhole d hd hf t _ ht hl with ⟨e, he, hsyn, hfe, hn⟩ | ⟨n, t₀, hn, ht₀, hl₀⟩
    · have hs := hsolved e he hfe
      unfold TypeDec.Solved at hs
      cases hbody : e.body with
      | synonym target =>
        rw [hbody] at hsyn
        cases hsyn
      | record fields =>
        rw [hbody] at hs
        obtain ⟨r, ts, hr, -⟩ := hs
        rw [hn] at hr
        cases hr
      | array element =>
        rw [hbody] at hs
        obtain ⟨a, u, ha, -, -, hentry⟩ := hs
        rw [hn] at ha
        cases ha
        exact ⟨_, u, hentry⟩
    · obtain ⟨name, u, hentry⟩ := hold n t₀ ht₀ id hl₀
      have hkept := h.building.kept (.array id) (.array ⟨name, some u⟩)
        (by rw [h.binds.others_eq.1, Arena.shape_array, hentry]; rfl)
      obtain ⟨a, ha, hentry'⟩ := Arena.shape_eq_array_iff.mp hkept
      cases ha
      exact ⟨name, u, hentry'⟩

end TigerCheck
