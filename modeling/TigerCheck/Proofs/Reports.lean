import TigerCheck.Proofs.Failure
import TigerCheck.Proofs.Poison
import TigerCheck.Proofs.Scope.Types
import TigerCheck.Proofs.TypeName.Loops

/-!
# What a run of types reports

A run of types with distinct names reports each name of a right-hand side that nothing binds, and each
circle of synonyms, and nothing else. Circles that pass through a record or an array are none of these, and
neither are the synonyms that lead into a circle.

* `Ident.noType`, `Checker.unboundIn`: the names that nothing binds, and their reports.
* `OnePerLoop`: a choice of one declaration from each circle of synonyms.
* `RunReports`: the reports of a run, and what they say about whether it is accepted.
* `Finds.reports`: what is reported while names are found.
* `TypeRun.perm_reports`: the reports of a run.
* `exists_fails_iff`: when a declaration of a run fails.
* **`checkDecs_types_reports`**: runs of types report what is wrong, and that decides whether they are accepted.
-/

namespace TigerCheck

open Check Relation

/-- The report of a name of a type that nothing binds. -/
def Ident.noType (m : Ident) : Diagnostic := ⟨m.loc, .undefinedType m.name⟩

/-- The occurrences of names in the right-hand sides of a run that neither the run nor a scope binds. -/
def Checker.unboundIn (c : Checker) (run : List TypeDec) : List Ident :=
  (run.flatMap (·.body.mentions)).filter fun m =>
    m.name ∉ names run ∧ c.typeNames.lookup m.name = none

/-- A right-hand side of a run mentions a name from outside whose declaration failed. -/
def Checker.MentionsPoisoned (c : Checker) (run : List TypeDec) : Prop :=
  ∃ d ∈ run, ∃ m ∈ d.body.mentions, m.name ∉ names run ∧ c.Poisoned m.name

/-- One declaration from each circle of synonyms of a run. -/
structure OnePerLoop (run loops : List TypeDec) : Prop where
  nodup : loops.Nodup
  onLoop : ∀ d ∈ loops, d ∈ run ∧ OnLoop run d.name.name
  one : ∀ n, OnLoop run n → ∃! d, d ∈ loops ∧ ReflTransGen (SynonymOf run) n d.name.name

/-- What a run reports is a report for each occurrence of a name that nothing binds and one for each circle
of synonyms, in some order; and the run is rejected if it reports something, or mentions a name whose
declaration failed before. -/
structure RunReports (run : List TypeDec) (c : Checker) (ok : Bool) (reports : List Diagnostic) :
    Prop where
  exact : ∃ loops, OnePerLoop run loops ∧
    reports.Perm ((c.unboundIn run).map Ident.noType ++ loops.map TypeDec.endless)
  silent : ∀ d ∈ run, ¬ OnLoop run d.name.name → d.endless ∉ reports
  rejected_iff : ok = false ↔ reports ≠ [] ∨ c.MentionsPoisoned run

section

variable {c c₀ c' d d' : Checker} {outer : String → Option Ty} {run : List TypeDec}
  {chain seg : List NamedTypeId} {id : NamedTypeId} {ms : List Ident} {m : Ident} {r : Option Ty}
  {rs : List (Option Ty)} {dec : TypeDec} {plans : List Plan} {own : Owners} {e : Diagnostic}
  {new : List Diagnostic} {n : String}

/-! ## Reports while names are found -/

/-- A report that a run of types can give. -/
def Diagnostic.OfTypes (run : List TypeDec) (e : Diagnostic) : Prop :=
  (∃ m : Ident, e = m.noType) ∨ ∃ d ∈ run, OnLoop run d.name.name ∧ e = d.endless

/-- A chain of synonyms that leads back to where it begins is a circle of the run. -/
theorem Checker.Starts.onLoop (hst : c₀.Starts outer run) (ho : c₀.Open (id :: seg))
    (hc : (id :: seg ++ [id]).IsChain c₀.Mentions) (hsyn : ∀ k ∈ id :: seg, c₀.IsSynonym k) :
    OnLoop run (c₀.nameOf id) := by
  have hsub : ∀ k ∈ seg ++ [id], k ∈ id :: seg := fun k hk => by
    rcases List.mem_append.mp hk with hk | hk
    · exact List.mem_cons_of_mem _ hk
    · exact List.mem_singleton.mp hk ▸ List.mem_cons_self
  have hlast : (seg ++ [id]).getLast? = some id := by simp
  rw [List.cons_append] at hc
  cases hseg : seg ++ [id] with
  | nil => simp at hseg
  | cons a l =>
    rw [hseg] at hc hsub hlast
    have hstep := hst.synonymOf (hsyn id List.mem_cons_self) (List.isChain_cons_cons.mp hc).1
      (ho a (hsub a List.mem_cons_self))
    refine TransGen.head' hstep ?_
    exact hst.reflTransGen_of_isChain (fun k hk => ho k (hsub k hk)) hc.tail
      (fun k hk => hsyn k (hsub k hk)) rfl hlast

theorem Meets.reports (h : Meets chain id d r d') (hst : c₀.Starts outer run) (hadv : c₀.Advances d)
    (ho : d.Open chain) (hlink : (chain ++ [id]).IsChain c₀.Mentions) :
    ∃ new, d'.diagnostics.entries.toList = d.diagnostics.entries.toList ++ new ∧
      ∀ e ∈ new, e.OfTypes run := by
  have hquiet : ∀ {x : Checker}, x.diagnostics = d.diagnostics → ∃ new,
      x.diagnostics.entries.toList = d.diagnostics.entries.toList ++ new ∧ ∀ e ∈ new, e.OfTypes run :=
    fun hx => ⟨[], by rw [hx, List.append_nil], by simp⟩
  cases h with
  | resolved => exact hquiet rfl
  | poisoned => exact hquiet rfl
  | again _ _ _ hout => exact hquiet (by cases hout <;> rfl)
  | @endless dec o hs hmem hfind =>
    obtain ⟨pre, seg, hchain, hdrop⟩ := dropWhile_ne_eq hmem
    have hs₀ := hadv.declared hst.opened hs
    have hsub : ∀ k ∈ id :: seg, k ∈ chain := fun k hk => hchain ▸ List.mem_append_right _ hk
    rw [hchain, List.append_assoc] at hlink
    rw [hdrop] at hfind
    have hloop := hst.onLoop (fun k hk => ho.before hst.opened hadv k (hsub k hk)) hlink.right_of_append
      fun k hk => (isSynonym_iff_of_open hst.opened hadv ho (hsub k hk)).mp
        (by simpa using List.find?_eq_none.mp hfind k hk)
    rw [Checker.nameOf_eq hs₀] at hloop
    refine ⟨[dec.endless], by simp [Checker.reported, Diagnostics.report, TypeDec.endless], fun e he => ?_⟩
    exact .inr ⟨dec, (hst.pending id dec none hs₀).1, hloop, List.mem_singleton.mp he⟩

/-- **While names are found, names are reported that are not bound, and circles of synonyms.** -/
theorem Finds.reports (h : Finds chain ms d rs d') (hst : c₀.Starts outer run) :
    c₀.Advances d → d.Open chain → c₀.Links chain ms →
      ∃ new, d'.diagnostics.entries.toList = d.diagnostics.entries.toList ++ new ∧
        ∀ e ∈ new, e.OfTypes run := by
  induction h with
  | nil => exact fun _ _ _ => ⟨[], by rw [List.append_nil], by simp⟩
  | @undefined chain m ms d d' rs hl hf ih =>
    intro hadv ho hlink
    obtain ⟨new, hnew, hof⟩ := ih (hadv.trans (.reported _ _ _)) ho fun m' hm' =>
      hlink m' (List.mem_cons_of_mem _ hm')
    refine ⟨m.noType :: new, ?_, List.forall_mem_cons.mpr ⟨.inl ⟨m, rfl⟩, hof⟩⟩
    rw [hnew]
    simp [Checker.reported, Diagnostics.report, Ident.noType]
  | @met chain m ms d d₁ d' id r rs hl hm hf ih =>
    intro hadv ho hlink
    obtain ⟨new₁, hnew₁, hof₁⟩ := hm.reports hst hadv ho
      (hlink m List.mem_cons_self id (hadv.typeNames_eq ▸ hl))
    obtain ⟨new, hnew, hof⟩ := ih (hadv.trans hm.advances) (hm.open_chain ho) fun m' hm' =>
      hlink m' (List.mem_cons_of_mem _ hm')
    refine ⟨new₁ ++ new, by rw [hnew, hnew₁, List.append_assoc], fun e he => ?_⟩
    exact (List.mem_append.mp he).elim (hof₁ e) (hof e)
  | @settled chain m ms d d₁ d₂ d' id dec o r qs rs hl hs hid hf hset hrest ih₁ ih₂ =>
    intro hadv ho hlink
    have hchain := hlink m List.mem_cons_self id (hadv.typeNames_eq ▸ hl)
    obtain ⟨o', hs₁⟩ := hf.pending ho hs
    have hadv₁ := hadv.trans (hf.advances (ho.concat hs))
    obtain ⟨new₁, hnew₁, hof₁⟩ := ih₁ hadv (ho.concat hs)
      (links_concat (hadv.declared hst.opened hs) hchain)
    obtain ⟨new, hnew, hof⟩ := ih₂ (hadv₁.trans (hset.advances hs₁))
      (hset.open_chain (hf.open_chain (ho.concat hs)) hid)
      fun m' hm' => hlink m' (List.mem_cons_of_mem _ hm')
    refine ⟨new₁ ++ new, by rw [hnew, hset.quiet.1, hnew₁, List.append_assoc], fun e he => ?_⟩
    exact (List.mem_append.mp he).elim (hof₁ e) (hof e)

/-! ## The reports of a run -/

theorem mentionFaults_eq (known : String → Option NamedTypeId) (ms : List Ident) :
    mentionFaults known ms = (ms.filter fun m => known m.name = none).map Ident.noType := by
  induction ms with
  | nil => rfl
  | cons m ms ih =>
    by_cases hm : known m.name = none
    · simp [mentionFaults, hm, Ident.noType, ← ih]
    · simp [mentionFaults, hm, ← ih]

/-- With distinct names nothing is reported while they are bound. -/
theorem BindsTypes.diagnostics_eq {seen : List String} {ds kept : List TypeDec}
    (h : BindsTypes seen ds c plans kept c') (hplans : .dropped ∉ plans) :
    c'.diagnostics = c.diagnostics := by
  induction h with
  | nil => rfl
  | dropped => exact absurd List.mem_cons_self hplans
  | bound _ _ ih => exact ih fun hmem => hplans (List.mem_cons_of_mem _ hmem)

open Classical in
/-- Declarations on circles, of which one is on each circle. -/
theorem OnePerLoop.of_count {loops : List TypeDec} (hloops : ∀ d ∈ loops, d ∈ run ∧ OnLoop run d.name.name)
    (h : ∀ n, OnLoop run n →
      loops.countP (fun d => ReflTransGen (SynonymOf run) n d.name.name) = 1) : OnePerLoop run loops where
  nodup := by
    refine List.nodup_iff_count_le_one.mpr fun d => ?_
    by_cases hd : d ∈ loops
    · rw [← h d.name.name (hloops d hd).2]
      refine List.countP_mono_left fun e _ he => decide_eq_true ?_
      rw [eq_of_beq he]
    · rw [List.count_eq_zero_of_not_mem hd]
      exact Nat.zero_le 1
  onLoop := hloops
  one n hn := by
    have hlen := h n hn
    rw [List.countP_eq_length_filter] at hlen
    obtain ⟨d, hd⟩ := List.length_eq_one_iff.mp hlen
    have hmem : ∀ e, e ∈ loops ∧ ReflTransGen (SynonymOf run) n e.name.name ↔ e = d := fun e => by
      rw [← List.mem_singleton, ← hd, List.mem_filter, decide_eq_true_iff]
    exact ⟨d, (hmem d).mpr rfl, fun e he => (hmem e).mp he⟩

namespace TypeRun

/-- The names that are not bound while a run is resolved are those that neither the run nor a scope binds. -/
theorem lookup_eq_none_iff (h : TypeRun c run plans run c₀ rs own c') :
    c₀.typeNames.lookup m.name = none ↔ m.name ∉ names run ∧ c.typeNames.lookup m.name = none := by
  by_cases hm : m.name ∈ names run
  · obtain ⟨d, hd, hname⟩ := List.mem_map.mp hm
    obtain ⟨id, hl, -⟩ := h.lookup_of_mem hd
    rw [← hname, hl]
    exact iff_of_false nofun fun hnot => hnot.1 (hname ▸ hm)
  · rw [h.binds.lookup_of_not_mem hm, and_iff_right hm]

open Classical in
/-- If each report of a circle is that of a declaration on it, then one of these declarations is on each
circle. -/
theorem countP_eq_one {loops : List TypeDec} {names' : List Ident}
    (h : TypeRun c run plans run c₀ rs own c') (hnd : (names run).Nodup) (hn : OnLoop run n)
    (hloops : ∀ d ∈ loops, d ∈ run ∧ OnLoop run d.name.name)
    (hnew : c'.diagnostics.entries.toList = c.diagnostics.entries.toList ++ new)
    (hperm : new.Perm (names'.map Ident.noType ++ loops.map TypeDec.endless)) :
    loops.countP (fun d => ReflTransGen (SynonymOf run) n d.name.name) = 1 := by
  have hst := h.starts hnd
  have hplans : .dropped ∉ plans := (h.binds.kept_eq (fun _ _ => List.not_mem_nil) hnd).2
  obtain ⟨d, hd, hname⟩ := List.mem_map.mp hn.mem
  obtain ⟨i, -, hs⟩ := hst.declared d hd
  have hi : c₀.Ahead run n i := ⟨⟨d, hs⟩, by rw [Checker.nameOf_eq hs, hname]⟩
  have hhits := h.hits_eq hnd (hst.circle hn) hi
  rw [Checker.hits, Checker.hits, hnew, h.binds.diagnostics_eq hplans, List.countP_append,
    hperm.countP_eq, List.countP_append, List.countP_map, List.countP_map] at hhits
  have hzero : names'.countP ((fun e => decide (c₀.EndsAt (c₀.Ahead run n) e)) ∘ Ident.noType) = 0 := by
    refine List.countP_eq_zero.mpr fun m _ hm => ?_
    obtain ⟨k, e, -, -, heq⟩ := of_decide_eq_true hm
    injection heq with _ hfault
    cases hfault
  rw [hzero, Nat.zero_add, Nat.add_left_cancel_iff] at hhits
  rw [← hhits]
  refine List.countP_congr fun e he => ?_
  rw [decide_eq_true_iff, Function.comp_apply, decide_eq_true_iff]
  constructor
  · intro hreach
    obtain ⟨k, -, hk⟩ := hst.declared e (hloops e he).1
    exact ⟨k, e, ⟨⟨e, hk⟩, by rw [Checker.nameOf_eq hk]; exact hreach⟩, hk, rfl⟩
  · rintro ⟨k, e', ⟨-, hreach⟩, hk, heq⟩
    injection heq with _ hfault
    rw [Fault.endlessTypeLoop.inj hfault]
    rwa [Checker.nameOf_eq hk] at hreach

/-- **A run reports each occurrence of a name that nothing binds, and each circle of synonyms.** -/
theorem perm_reports (h : TypeRun c run plans run c₀ rs own c') (hnd : (names run).Nodup) :
    ∃ new loops, c'.diagnostics.entries.toList = c.diagnostics.entries.toList ++ new ∧
      OnePerLoop run loops ∧
      new.Perm ((c.unboundIn run).map Ident.noType ++ loops.map TypeDec.endless) := by
  have hst := h.starts hnd
  obtain ⟨new, hnew, hof⟩ := h.finds.reports hst (.refl c₀) (open_nil c₀) (links_nil c₀ _)
  have hplans : .dropped ∉ plans := (h.binds.kept_eq (fun _ _ => List.not_mem_nil) hnd).2
  rw [h.binds.diagnostics_eq hplans] at hnew
  -- the reports of names, by the count of those that are owed
  have hunbound : (new.filter fun e => e.fault.kind = .undefinedReference).Perm
      ((c.unboundIn run).map Ident.noType) := by
    have hperm := h.finds.perm_undefined (open_nil c₀) rfl
    have hnames : mentionFaults c₀.typeNames.lookup (run.map (·.name)) = [] := by
      refine List.filterMap_eq_nil_iff.mpr fun m hm => if_neg ?_
      obtain ⟨d, hd, rfl⟩ := List.mem_map.mp hm
      obtain ⟨id, hl, -⟩ := h.lookup_of_mem hd
      rw [hl]
      exact nofun
    have howed : (run.flatMap fun d => mentionFaults c₀.typeNames.lookup d.body.mentions) =
        (c.unboundIn run).map Ident.noType := by
      simp only [mentionFaults_eq, h.lookup_eq_none_iff, Checker.unboundIn, List.filter_flatMap,
        List.map_flatMap]
    rw [h.atRest.owed_eq, h.binds.owed_eq, h.rest.owed_eq, hnames, h.binds.undefined_eq, List.append_nil,
      List.append_nil, List.nil_append, howed, Diagnostics.undefined, hnew, List.filter_append] at hperm
    exact (List.perm_append_left_iff _).mp hperm
  -- the other reports, each of a declaration on a circle
  have hothers : ∃ loops : List TypeDec, (∀ d ∈ loops, d ∈ run ∧ OnLoop run d.name.name) ∧
      (new.filter fun e => !decide (e.fault.kind = .undefinedReference)) = loops.map TypeDec.endless := by
    have hall : ∀ e ∈ new.filter fun e => !decide (e.fault.kind = .undefinedReference),
        ∃ d : TypeDec, (d ∈ run ∧ OnLoop run d.name.name) ∧ d.endless = e := by
      intro e he
      obtain ⟨he, hkind⟩ := List.mem_filter.mp he
      rcases hof e he with ⟨m, rfl⟩ | ⟨d, hd, hloop, rfl⟩
      · simp [Ident.noType, Fault.kind] at hkind
      · exact ⟨d, ⟨hd, hloop⟩, rfl⟩
    obtain ⟨loops, hloops, heq⟩ := exists_eq_map_of_forall₂ (List.forall₂_same.mpr hall)
    exact ⟨loops, fun d hd => (exists_mem_of_forall₂ hloops.flip hd).elim fun _ h => h.2, heq⟩
  obtain ⟨loops, hloops, hendless⟩ := hothers
  have hsplit : new.Perm ((c.unboundIn run).map Ident.noType ++ loops.map TypeDec.endless) := by
    refine (List.filter_append_perm (fun e => decide (e.fault.kind = .undefinedReference)) new).symm.trans ?_
    rw [hendless]
    exact hunbound.append_right _
  refine ⟨new, loops, hnew, ?_, hsplit⟩
  exact .of_count hloops fun n hn => h.countP_eq_one hnd hn hloops hnew hsplit

end TypeRun

/-! ## Runs that are rejected -/

/-- Some declaration of a run fails exactly if a right-hand side mentions a name from outside that stands
for no type, or synonyms lead back to themselves. It does not matter along which order failures spread. -/
theorem exists_fails_iff {via : String → String → Prop} :
    (∃ d ∈ run, Fails outer run via d.name.name) ↔
      (∃ d ∈ run, ∃ m ∈ d.body.mentions, m.name ∉ names run ∧ outer m.name = none) ∨
        ∃ n, OnLoop run n := by
  constructor
  · rintro ⟨d, -, hf⟩
    generalize d.name.name = n at hf
    induction hf with
    | @missing d m hd hm hrun ho => exact .inl ⟨d, hd, m, hm, hrun, ho⟩
    | @loop n hl => exact .inr ⟨n, hl⟩
    | mention _ _ _ _ ih => exact ih
  · rintro (⟨d, hd, m, hm, hrun, ho⟩ | ⟨n, hn⟩)
    · exact ⟨d, hd, .missing hd hm hrun ho⟩
    · obtain ⟨d, hd, rfl⟩ := List.mem_map.mp hn.mem
      exact ⟨d, hd, .loop hn⟩

/-- Between runs a name stands for no type if nothing binds it, or its declaration failed. -/
theorem Checker.AtRest.typeNamed_eq_none_iff (hc : c.AtRest) :
    c.typeNamed n = none ↔ c.typeNames.lookup n = none ∨ c.Poisoned n := by
  unfold Checker.typeNamed Checker.Poisoned
  cases hl : c.typeNames.lookup n with
  | none => simp
  | some id =>
    obtain ⟨s, hs⟩ := hc.known n id hl
    cases s with
    | pending dec o => exact absurd hs (hc.settled id dec o)
    | resolved t => simp [hs]
    | poisoned => simp [hs]

theorem Checker.exists_missing_iff (hc : c.AtRest) :
    (∃ d ∈ run, ∃ m ∈ d.body.mentions, m.name ∉ names run ∧ c.typeNamed m.name = none) ↔
      c.unboundIn run ≠ [] ∨ c.MentionsPoisoned run := by
  have hunbound : c.unboundIn run ≠ [] ↔ ∃ d ∈ run, ∃ m ∈ d.body.mentions,
      m.name ∉ names run ∧ c.typeNames.lookup m.name = none := by
    rw [Checker.unboundIn]
    constructor
    · intro hne
      obtain ⟨m, hmem⟩ := List.exists_mem_of_ne_nil _ hne
      obtain ⟨hmem, h⟩ := List.mem_filter.mp hmem
      obtain ⟨d, hd, hm⟩ := List.mem_flatMap.mp hmem
      exact ⟨d, hd, m, hm, of_decide_eq_true h⟩
    · rintro ⟨d, hd, m, hm, h⟩
      exact List.ne_nil_of_mem
        (List.mem_filter.mpr ⟨List.mem_flatMap.mpr ⟨d, hd, hm⟩, decide_eq_true h⟩)
  rw [hunbound, Checker.MentionsPoisoned]
  constructor
  · rintro ⟨d, hd, m, hm, hrun, hnone⟩
    exact (hc.typeNamed_eq_none_iff.mp hnone).imp (fun h => ⟨d, hd, m, hm, hrun, h⟩)
      fun h => ⟨d, hd, m, hm, hrun, h⟩
  · rintro (⟨d, hd, m, hm, hrun, h⟩ | ⟨d, hd, m, hm, hrun, h⟩)
    · exact ⟨d, hd, m, hm, hrun, hc.typeNamed_eq_none_iff.mpr (.inl h)⟩
    · exact ⟨d, hd, m, hm, hrun, hc.typeNamed_eq_none_iff.mpr (.inr h)⟩

/-- **A run misses one of its names exactly if a declaration fails.** -/
theorem TypeRun.none_mem_iff (h : TypeRun c run plans run c₀ rs own c') (hnd : (names run).Nodup) :
    none ∈ rs ↔ ∃ d ∈ run, c.DependsOnFailure run d.name.name := by
  have hsettles := h.finds.settles (open_nil c₀)
  have hfails : none ∈ rs ↔ ∃ d ∈ run, c.FailsInOrder run d.name.name := by
    constructor
    · intro hnone
      obtain ⟨m, hm, hset⟩ := exists_mem_of_forall₂ hsettles.flip hnone
      obtain ⟨d, hd, rfl⟩ := List.mem_map.mp hm
      obtain ⟨id, hl, -⟩ := h.lookup_of_mem hd
      refine ⟨d, hd, (h.poisoned_iff hnd hd).mp ?_⟩
      rw [Checker.typeNamed, h.lookup_eq, hl]
      dsimp only
      rw [hset id hl List.not_mem_nil]
      rfl
    · rintro ⟨d, hd, hf⟩
      have hnone := (h.poisoned_iff hnd hd).mpr hf
      obtain ⟨id, hl, -⟩ := h.lookup_of_mem hd
      obtain ⟨r, hr, hset⟩ := exists_mem_of_forall₂ hsettles (List.mem_map_of_mem hd)
      cases r with
      | none => exact hr
      | some t =>
        have ht : c'.typeNamed d.name.name = some t := Checker.typeNamed_eq_some_iff.mpr
          ⟨id, (h.lookup_eq _).trans hl, hset id hl List.not_mem_nil⟩
        rw [hnone] at ht
        cases ht
  rw [hfails]
  exact exists_fails_iff.trans exists_fails_iff.symm

/-- Reports and failures say the same about a run, but for the failures from before. -/
theorem rejected_iff_of_perm {loops : List TypeDec} (hc : c.AtRest) (hloops : OnePerLoop run loops)
    (hperm : new.Perm ((c.unboundIn run).map Ident.noType ++ loops.map TypeDec.endless)) :
    (∃ d ∈ run, c.DependsOnFailure run d.name.name) ↔ new ≠ [] ∨ c.MentionsPoisoned run := by
  have hloop : (∃ n, OnLoop run n) ↔ loops ≠ [] := by
    constructor
    · rintro ⟨n, hn⟩
      obtain ⟨d, ⟨hd, -⟩, -⟩ := hloops.one n hn
      exact List.ne_nil_of_mem hd
    · intro hne
      obtain ⟨d, hd⟩ := List.exists_mem_of_ne_nil _ hne
      exact ⟨_, (hloops.onLoop d hd).2⟩
  have hnew : new ≠ [] ↔ c.unboundIn run ≠ [] ∨ loops ≠ [] := by
    rw [← not_and_or, ne_eq, ← List.length_eq_zero_iff, hperm.length_eq, List.length_append, List.length_map,
      List.length_map, Nat.add_eq_zero_iff, List.length_eq_zero_iff, List.length_eq_zero_iff]
  refine exists_fails_iff.trans ?_
  rw [Checker.exists_missing_iff hc, hloop, hnew]
  tauto

/-- **A run that is checked between runs reports what is wrong with it**, and is rejected exactly if a
declaration fails. -/
theorem yields_reports (hc : c.AtRest) (ctx : Context) (hnd : (names run).Nodup) :
    Yields (checkDecs ctx [] (run.map .type)) c fun r c' => ∃ reports,
      c'.diagnostics.entries.toList = c.diagnostics.entries.toList ++ reports ∧
        RunReports run c r.2 reports ∧
        (r.2 = false ↔ ∃ d ∈ run, c.DependsOnFailure run d.name.name) := by
  refine (yields_types_atRest hc run).mono fun r c' h => ?_
  obtain ⟨-, c₁, plans, kept, c₀, rs, own, hc₁, htr, hok⟩ := h
  have hdepends : ∀ n, c₁.DependsOnFailure run n ↔ c.DependsOnFailure run n := fun n => by
    rw [Checker.DependsOnFailure, hc₁.typeNamed_eq, Checker.DependsOnFailure]
  have hunbound : c₁.unboundIn run = c.unboundIn run := by
    rw [Checker.unboundIn, hc₁.typeNames_eq, Checker.unboundIn]
  obtain ⟨hkept, hplans⟩ := htr.binds.kept_eq (fun _ _ => List.not_mem_nil) hnd
  subst hkept
  obtain ⟨new, loops, hnew, hloops, hperm⟩ := htr.perm_reports hnd
  rw [hc₁.diagnostics_eq] at hnew
  rw [hunbound] at hperm
  have hrejected : r.2 = false ↔ ∃ d ∈ kept, c.DependsOnFailure kept d.name.name := by
    rw [← Bool.not_eq_true, hok, and_iff_right hplans, not_not, htr.none_mem_iff hnd]
    simp only [hdepends]
  refine ⟨new, hnew, ⟨⟨loops, hloops, hperm⟩, fun d hd hnot hmem => ?_, ?_⟩, hrejected⟩
  · rcases List.mem_append.mp (hperm.mem_iff.mp hmem) with hmem | hmem
    · obtain ⟨m, -, heq⟩ := List.mem_map.mp hmem
      injection heq with _ hfault
      cases hfault
    · obtain ⟨e, he, heq⟩ := List.mem_map.mp hmem
      injection heq with _ hfault
      exact hnot (Fault.endlessTypeLoop.inj hfault ▸ (hloops.onLoop e he).2)
  · exact hrejected.trans (rejected_iff_of_perm hc hloops hperm)

end

/-- **Runs of types report what is wrong with them and nothing else.** A run with distinct names reports each
occurrence of a name in a right-hand side that neither the run nor a scope binds, where it stands, and for
each circle of synonyms one of its members; and it is rejected exactly if it reports something or mentions a
name from outside whose declaration failed. So whether it is accepted does not depend on the order of its
declarations. This holds in every state between runs, and such are all states that a checker can be brought
to, those of a walk, and those in which a block is entered from one of them. -/
theorem checkDecs_types_reports :
    (∀ (ctx : Context) (c : Checker), c.Reachable ∨ Arrives ctx c → c.AtRest) ∧
    (∀ c : Checker, c.AtRest → c.entered.AtRest) ∧
    ∀ (ctx : Context) (c : Checker) (run : List TypeDec), c.AtRest → (run.map (·.name.name)).Nodup →
      ∃ r c' reports, (checkDecs ctx [] (run.map .type)).run c = .ok (r, c') ∧
        c'.diagnostics.entries.toList = c.diagnostics.entries.toList ++ reports ∧
        RunReports run c r.2 reports ∧
        ∀ run', run.Perm run' →
          ∃ r' c'', (checkDecs ctx [] (run'.map .type)).run c = .ok (r', c'') ∧ r'.2 = r.2 := by
  refine ⟨fun ctx c h => ?_, fun c h => ?_, fun ctx c run hc hnd => ?_⟩
  · rcases h with h | h
    · have hrest := h.idle.sound.rest
      exact hrest.congr rfl rfl rfl
    · exact h.atRest
  · exact h.congr rfl (funext c.typeNames.lookup_enter) rfl
  · obtain ⟨r, c', hrun, reports, hreports, hexact, hrejected⟩ := yields_reports hc ctx hnd
    refine ⟨r, c', reports, hrun, hreports, hexact, fun run' hp => ?_⟩
    have hnd' : (names run').Nodup := (hp.map _).nodup_iff.mp hnd
    obtain ⟨r', c'', hrun', -, -, -, hrejected'⟩ := yields_reports hc ctx hnd'
    refine ⟨r', c'', hrun', ?_⟩
    rw [Bool.eq_iff_iff, ← not_iff_not, Bool.not_eq_true, Bool.not_eq_true, hrejected', hrejected]
    simp only [Checker.dependsOnFailure_perm hp, hp.mem_iff]

/-- A circle of two synonyms, another synonym that leads into it, a synonym of itself, a list, and an array
of something that nothing binds. -/
def tangledNames : List TypeDec := [
  { name := { name := "in" }, body := .synonym { name := "left" } },
  { name := { name := "left" }, body := .synonym { name := "right" } },
  { name := { name := "right" }, body := .synonym { name := "left" } },
  { name := { name := "self" }, body := .synonym { name := "self" } },
  { name := { name := "list" }, body := .record [⟨{ name := "tail" }, { name := "list" }⟩] },
  { name := { name := "rows" }, body := .array { name := "gone", loc := ⟨7, 4⟩ } }]

theorem tangledNames_reports :
    Checker.inBlock.AtRest ∧ (tangledNames.map (·.name.name)).Nodup ∧
    ∃ r c' reports, (checkDecs ⟨0, Checker.initial.mainFrame, 0⟩ [] (tangledNames.map .type)).run
      Checker.inBlock = .ok (r, c') ∧ r.2 = false ∧ ⟨⟨7, 4⟩, .undefinedType "gone"⟩ ∈ reports ∧
      RunReports tangledNames Checker.inBlock r.2 reports := by
  have hrest : Checker.inBlock.AtRest :=
    checkDecs_types_reports.1 ⟨0, Checker.initial.mainFrame, 0⟩ _ (.inr (.block .start rfl))
  have hnd : (tangledNames.map (·.name.name)).Nodup := by decide
  obtain ⟨r, c', reports, hrun, -, hexact, -⟩ := checkDecs_types_reports.2.2
    ⟨0, Checker.initial.mainFrame, 0⟩ Checker.inBlock tangledNames hrest hnd
  have hgone : (⟨⟨7, 4⟩, .undefinedType "gone"⟩ : Diagnostic) ∈ reports := by
    obtain ⟨loops, -, hperm⟩ := hexact.exact
    have hunbound : Checker.inBlock.unboundIn tangledNames = [{ name := "gone", loc := ⟨7, 4⟩ }] := by
      decide +kernel
    rw [hperm.mem_iff, hunbound]
    exact List.mem_append_left _ (List.mem_singleton_self _)
  exact ⟨hrest, hnd, r, c', reports, hrun, hexact.rejected_iff.mpr (.inl (List.ne_nil_of_mem hgone)), hgone,
    hexact⟩

end TigerCheck
