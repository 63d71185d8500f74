import TigerCheck.Proofs.TypeName.Order
import TigerCheck.Proofs.TypeName.Solved

/-!
# Which declarations are poisoned

While the names of a run are found, its declarations are settled in the order of a depth-first visit, and
one is poisoned exactly if it fails along that order: a failure reaches what mentions it only if it is
known by then.

* `Checker.Starts`: a state in which a run with distinct names begins to be resolved.
* `Checker.nameOf`, `Checker.IsSynonym`: the name of a declaration, and whether it is a synonym.
* `Ordered`: the invariant, given the names that are finished.
* `Missed`: what is not found, given the chain of declarations that are being resolved.
* **`Finds.ordered`**: finding names preserves the invariant, and misses exactly those names.
* **`TypeRun.poisoned_iff`**: the declarations that are poisoned at the end of a run.
-/

namespace TigerCheck

/-- A run with distinct names begins to be resolved. -/
structure Checker.Starts (c₀ : Checker) (outer : String → Option Ty) (run : List TypeDec) : Prop where
  opened : c₀.Opened
  nodup : (names run).Nodup
  declared : ∀ d ∈ run, ∃ id, c₀.typeNames.lookup d.name.name = some id ∧
    c₀.status id = some (.pending d none)
  pending : ∀ id d o, c₀.status id = some (.pending d o) →
    d ∈ run ∧ c₀.typeNames.lookup d.name.name = some id
  found : ∀ n id d o, c₀.typeNames.lookup n = some id → c₀.status id = some (.pending d o) →
    n = d.name.name
  outer_eq_none : ∀ n, n ∉ names run → (outer n = none ↔
    ∀ id t, c₀.typeNames.lookup n = some id → c₀.status id ≠ some (.resolved t))

namespace Checker

/-- The name of a declaration that is not settled. -/
def nameOf (c : Checker) (id : NamedTypeId) : String :=
  match c.status id with
  | some (.pending d _) => d.name.name
  | _ => ""

theorem nameOf_eq {c : Checker} {id : NamedTypeId} {d : TypeDec} {o : Option Ty}
    (h : c.status id = some (.pending d o)) : c.nameOf id = d.name.name := by
  rw [nameOf, h]

/-- A declaration is a synonym that is not settled. -/
def IsSynonym (c : Checker) (id : NamedTypeId) : Prop :=
  ∃ d target, c.status id = some (.pending d none) ∧ d.body = .synonym target

end Checker

variable {c₀ d d' : Checker} {outer : String → Option Ty} {run : List TypeDec}
  {chain : List NamedTypeId} {id k : NamedTypeId} {done more : List String} {ms : List Ident}
  {m : Ident} {r : Option Ty} {rs qs : List (Option Ty)} {dec : TypeDec} {o : Option Ty}

/-- What is not settled yet is as it was declared. -/
theorem Checker.Advances.declared (h0 : c₀.Opened) (h : c₀.Advances d)
    (hs : d.status id = some (.pending dec o)) : c₀.status id = some (.pending dec none) := by
  obtain ⟨o', ho⟩ := h.pending hs
  rw [ho, h0.untouched id dec o' ho]

namespace Checker.Starts

theorem mem_names (h : c₀.Starts outer run) (hs : c₀.status id = some (.pending dec o)) :
    dec.name.name ∈ names run := List.mem_map_of_mem (h.pending id dec o hs).1

/-- Declarations of one name are one. -/
theorem id_eq (h : c₀.Starts outer run) {dec' : TypeDec} {o' : Option Ty}
    (hs : c₀.status id = some (.pending dec o)) (hs' : c₀.status k = some (.pending dec' o'))
    (hname : dec.name.name = dec'.name.name) : id = k := by
  have hl := (h.pending id dec o hs).2
  rw [hname, (h.pending k dec' o' hs').2] at hl
  exact (Option.some.inj hl).symm

/-- An occurrence of a name of the run leads to its declaration. -/
theorem status_of_mem (h : c₀.Starts outer run) {n : String} (hn : n ∈ names run)
    (hl : c₀.typeNames.lookup n = some id) :
    ∃ dec ∈ run, dec.name.name = n ∧ c₀.status id = some (.pending dec none) := by
  obtain ⟨dec, hdec, rfl⟩ := List.mem_map.mp hn
  obtain ⟨id', hl', hs⟩ := h.declared dec hdec
  rw [hl] at hl'
  cases hl'
  exact ⟨dec, hdec, rfl, hs⟩

end Checker.Starts

/-! ## Chains by name -/

/-- No declaration of a chain is settled, neither now nor before the run. -/
theorem Checker.Open.before (h0 : c₀.Opened) (h : c₀.Advances d) (ho : d.Open chain) :
    c₀.Open chain := by
  intro k hk
  obtain ⟨dec, o, hs⟩ := ho k hk
  exact ⟨dec, none, h.declared h0 hs⟩

/-- A declaration is in a chain exactly if its name is among those of the chain. -/
theorem Checker.Starts.mem_chain_iff (h : c₀.Starts outer run) (ho : c₀.Open chain)
    (hs : c₀.status id = some (.pending dec o)) :
    dec.name.name ∈ chain.map c₀.nameOf ↔ id ∈ chain := by
  rw [List.mem_map]
  constructor
  · rintro ⟨k, hk, hname⟩
    obtain ⟨dec', o', hs'⟩ := ho k hk
    rw [Checker.nameOf_eq hs'] at hname
    rwa [← h.id_eq hs' hs hname]
  · exact fun hid => ⟨id, hid, Checker.nameOf_eq hs⟩

/-- A chain without repetition is no longer than the run. -/
theorem Checker.Starts.length_le (h : c₀.Starts outer run) (ho : c₀.Open chain)
    (hd : chain.Nodup) : chain.length ≤ run.length := by
  have hnd : (chain.map c₀.nameOf).Nodup := by
    refine List.Nodup.map_on (fun i hi j hj hij => ?_) hd
    obtain ⟨di, oi, hsi⟩ := ho i hi
    obtain ⟨dj, oj, hsj⟩ := ho j hj
    rw [Checker.nameOf_eq hsi, Checker.nameOf_eq hsj] at hij
    exact h.id_eq hsi hsj hij
  have hsub : chain.map c₀.nameOf ⊆ names run := by
    intro n hn
    obtain ⟨k, hk, rfl⟩ := List.mem_map.mp hn
    obtain ⟨dk, ok, hsk⟩ := ho k hk
    rw [Checker.nameOf_eq hsk]
    exact h.mem_names hsk
  have hle := (List.subperm_of_subset hnd hsub).length_le
  rwa [List.length_map, names, List.length_map] at hle

/-! ## Circles of synonyms -/

/-- A synonym that mentions a declaration is a synonym of it. -/
theorem Checker.Starts.synonymOf (h : c₀.Starts outer run) (hsyn : c₀.IsSynonym id)
    (hm : c₀.Mentions id k) (hk : ∃ dec o, c₀.status k = some (.pending dec o)) :
    SynonymOf run (c₀.nameOf id) (c₀.nameOf k) := by
  obtain ⟨dec, target, hs, hbody⟩ := hsyn
  obtain ⟨dec', m, hs', hm, hl⟩ := hm
  rw [hs] at hs'
  cases hs'
  rw [hbody, TypeBody.mentions, List.mem_singleton] at hm
  subst hm
  obtain ⟨deck, ok, hk⟩ := hk
  refine ⟨dec, (h.pending id dec none hs).1, (Checker.nameOf_eq hs).symm, m, hbody, ?_⟩
  rw [Checker.nameOf_eq hk]
  exact h.found m.name k deck ok hl hk

/-- Along a chain of synonyms the first is a synonym of the last, directly or through others. -/
theorem Checker.Starts.reflTransGen_of_isChain (h : c₀.Starts outer run) :
    ∀ {seg : List NamedTypeId} {i j : NamedTypeId}, c₀.Open seg → seg.IsChain c₀.Mentions →
      (∀ k ∈ seg, c₀.IsSynonym k) → seg.head? = some i → seg.getLast? = some j →
      Relation.ReflTransGen (SynonymOf run) (c₀.nameOf i) (c₀.nameOf j)
  | [_], _, _, _, _, _, hi, hj => by
    cases hi
    cases hj
    exact .refl
  | a :: b :: seg, _, _, ho, hc, hsyn, hi, hj => by
    cases hi
    have hstep := (List.isChain_cons_cons.mp hc).1
    refine .head (h.synonymOf (hsyn a List.mem_cons_self) hstep (ho b (by simp))) ?_
    exact h.reflTransGen_of_isChain (fun k hk => ho k (List.mem_cons_of_mem _ hk)) hc.tail
      (fun k hk => hsyn k (List.mem_cons_of_mem _ hk)) rfl (by simpa using hj)

/-- A chain that begins on a circle of synonyms consists of synonyms. -/
theorem Checker.Starts.isSynonym_of_loop (h : c₀.Starts outer run) :
    ∀ {seg : List NamedTypeId}, c₀.Open seg → seg.IsChain c₀.Mentions →
      (∀ i, seg.head? = some i →
        Relation.TransGen (SynonymOf run) (c₀.nameOf i) (c₀.nameOf i)) →
      ∀ k ∈ seg, c₀.IsSynonym k
  | [], _, _, _ => by simp
  | a :: seg, ho, hc, hloop => by
    obtain ⟨n, hn, hnext⟩ := exists_next_of_loop (hloop a rfl)
    obtain ⟨e, he, hname, target, hbody, rfl⟩ := hn
    obtain ⟨id, hl, hs⟩ := h.declared e he
    obtain ⟨deca, oa, hsa⟩ := ho a List.mem_cons_self
    rw [Checker.nameOf_eq hsa] at hname
    obtain rfl := h.id_eq hs hsa hname
    have ho' : c₀.Open seg := fun k hk => ho k (List.mem_cons_of_mem _ hk)
    refine List.forall_mem_cons.mpr ⟨⟨e, target, hs, hbody⟩, ?_⟩
    refine h.isSynonym_of_loop ho' hc.tail fun i hi => ?_
    have hi' : i ∈ seg := List.mem_of_mem_head? hi
    obtain ⟨deci, oi, hsi⟩ := ho' i hi'
    obtain ⟨e', m, hs', hm, hlm⟩ := (List.isChain_cons.mp hc).1 i hi
    rw [hs] at hs'
    cases hs'
    rw [hbody, TypeBody.mentions, List.mem_singleton] at hm
    subst hm
    rw [Checker.nameOf_eq hsi, ← h.found m.name i deci oi hlm hsi]
    exact hnext

/-! ## The invariant -/

/-- The declarations whose names are finished are those that are settled, and of these the ones that fail
along the order are poisoned. -/
structure Ordered (outer : String → Option Ty) (run : List TypeDec) (c₀ : Checker)
    (done : List String) (d : Checker) : Prop where
  advances : c₀.Advances d
  sub : ∀ n ∈ done, n ∈ names run
  mem_iff : ∀ id dec, c₀.status id = some (.pending dec none) →
    (dec.name.name ∈ done ↔ ∃ r, d.status id = some (.outcome r))
  poisoned_iff : ∀ id dec, c₀.status id = some (.pending dec none) → dec.name.name ∈ done →
    (d.status id = some .poisoned ↔ Fails outer run (Before done) dec.name.name)

theorem NamedType.outcome_ne_pending : ∀ r : Option Ty, outcome r ≠ .pending dec o
  | none, h => by cases h
  | some _, h => by cases h

/-- A declaration of an open chain is not finished. -/
theorem Ordered.not_mem (hj : Ordered outer run c₀ done d) (ho : d.Open chain)
    (hid : id ∈ chain) (hs : c₀.status id = some (.pending dec none)) : dec.name.name ∉ done := by
  intro hmem
  obtain ⟨r, hr⟩ := (hj.mem_iff id dec hs).mp hmem
  obtain ⟨dec', o, hs'⟩ := ho id hid
  rw [hr, Option.some.injEq] at hs'
  exact NamedType.outcome_ne_pending r hs'

/-- A step that settles nothing preserves the invariant. -/
theorem Ordered.same (hj : Ordered outer run c₀ done d) (hadv : d.Advances d')
    (hst : ∀ k r, d'.status k = some (.outcome r) ↔ d.status k = some (.outcome r)) :
    Ordered outer run c₀ done d' where
  advances := hj.advances.trans hadv
  sub := hj.sub
  mem_iff id dec hs := by
    rw [hj.mem_iff id dec hs]
    exact exists_congr fun r => (hst id r).symm
  poisoned_iff id dec hs hmem := by
    rw [← hj.poisoned_iff id dec hs hmem]
    exact hst id none

theorem HandsOut.outcome_iff {t : Ty} (h : HandsOut k d t d') (j : NamedTypeId) :
    d'.status j = some (.outcome r) ↔ d.status j = some (.outcome r) := by
  cases h with
  | again => rfl
  | @new dec _ b hs =>
    by_cases hjk : j = k
    · subst hjk
      rw [Checker.status_mark_self (c := { d with types := b }) hs, hs, Option.some.injEq,
        Option.some.injEq]
      exact ⟨fun h => absurd h.symm (NamedType.outcome_ne_pending r),
        fun h => absurd h.symm (NamedType.outcome_ne_pending r)⟩
    · rw [Checker.status_mark_ne hjk]
      rfl

theorem Meets.outcome_iff {q : Option Ty} (h : Meets chain id d q d') (j : NamedTypeId) :
    d'.status j = some (.outcome r) ↔ d.status j = some (.outcome r) := by
  cases h with
  | again _ _ _ hout => exact hout.outcome_iff j
  | _ => rfl

theorem Settles.eq_none_iff (h : Settles id dec d qs r d') : r = none ↔ none ∈ qs := by
  cases h with
  | synonym => simp
  | constructed => simp
  | failed hmem => exact iff_of_true rfl hmem

/-- A declaration fails if one of the names on its right-hand side is missed. -/
theorem Settles.eq_none_iff_exists {P : Ident → Prop} (h : Settles id dec d qs r d')
    (hqs : List.Forall₂ (fun m q => q = none ↔ P m) dec.body.mentions qs) :
    r = none ↔ ∃ m ∈ dec.body.mentions, P m := by
  rw [h.eq_none_iff]
  constructor
  · intro hnone
    obtain ⟨m, hm, hiff⟩ := exists_mem_of_forall₂ hqs.flip hnone
    exact ⟨m, hm, hiff.mp rfl⟩
  · rintro ⟨m, hm, hP⟩
    obtain ⟨q, hq, hiff⟩ := exists_mem_of_forall₂ hqs hm
    exact hiff.mpr hP ▸ hq

/-- A name is not found: it is not of the run and stands for no type, or its declaration is finished and
failed, or its declaration is being resolved and nothing but synonyms leads back to it. -/
def Missed (outer : String → Option Ty) (run : List TypeDec) (c₀ : Checker)
    (chain : List NamedTypeId) (done : List String) (m : Ident) : Prop :=
  (m.name ∉ names run ∧ outer m.name = none) ∨
    (m.name ∈ done ∧ Fails outer run (Before done) m.name) ∨
    ∃ id ∈ chain, c₀.typeNames.lookup m.name = some id ∧
      ∀ k ∈ chain.dropWhile (· ≠ id), c₀.IsSynonym k

/-- What is missed does not change when more declarations are finished. -/
theorem missed_append_iff (h : m.name ∈ done ∨ m.name ∉ done ++ more) :
    Missed outer run c₀ chain done m ↔ Missed outer run c₀ chain (done ++ more) m := by
  have hmid : (m.name ∈ done ∧ Fails outer run (Before done) m.name) ↔
      (m.name ∈ done ++ more ∧ Fails outer run (Before (done ++ more)) m.name) := by
    rcases h with h | h
    · rw [fails_append_iff h]
      exact and_congr_left fun _ => iff_of_true h (List.mem_append_left _ h)
    · exact iff_of_false (fun hm => h (List.mem_append_left _ hm.1)) fun hm => h hm.1
  rw [Missed, Missed, hmid]

/-- The declarations of an open chain that construct a type are those that are no synonyms. -/
theorem isSynonym_iff_of_open (h0 : c₀.Opened) (hadv : c₀.Advances d) (ho : d.Open chain)
    (hk : k ∈ chain) : d.constructs k = false ↔ c₀.IsSynonym k := by
  obtain ⟨dec, o, hs⟩ := ho k hk
  have hs₀ := hadv.declared h0 hs
  rw [Checker.constructs, hs, Bool.not_eq_false', TypeBody.isSynonym_iff]
  constructor
  · rintro ⟨target, hbody⟩
    exact ⟨dec, target, hs₀, hbody⟩
  · rintro ⟨dec', target, hs', hbody⟩
    rw [hs₀] at hs'
    cases hs'
    exact ⟨target, hbody⟩

/-! ## Finding names -/

theorem exists_lookup_iff {P : NamedTypeId → Prop} (hl : c₀.typeNames.lookup m.name = some id) :
    (∃ k ∈ chain, c₀.typeNames.lookup m.name = some k ∧ P k) ↔ id ∈ chain ∧ P id := by
  constructor
  · rintro ⟨k, hk, hlk, hp⟩
    rw [hl] at hlk
    cases hlk
    exact ⟨hk, hp⟩
  · exact fun ⟨hid, hp⟩ => ⟨id, hid, hl, hp⟩

/-- A name from before the run is missed exactly if its declaration is poisoned. -/
theorem Ordered.missed_iff_of_not_mem (hj : Ordered outer run c₀ done d)
    (hst : c₀.Starts outer run) (hm : m.name ∉ names run)
    (hl : c₀.typeNames.lookup m.name = some id) (hs : d.status id = some (.outcome r)) :
    r = none ↔ m.name ∉ names run ∧ outer m.name = none := by
  have hs₀ : c₀.status id = some (.outcome r) := by
    obtain ⟨s, hs₀⟩ := hst.opened.known m.name id hl
    obtain ⟨s', hs', hstep⟩ := hj.advances.step id s hs₀
    rw [hs, Option.some.injEq] at hs'
    subst hs'
    cases s with
    | pending dec o => exact absurd (hst.mem_names hs₀) (hst.found m.name id dec o hl hs₀ ▸ hm)
    | resolved t =>
      cases r with
      | none => cases hstep
      | some u => cases hstep; exact hs₀
    | poisoned =>
      cases r with
      | none => exact hs₀
      | some u => cases hstep
  rw [hst.outer_eq_none m.name hm, and_iff_right hm]
  constructor
  · rintro rfl k t hk
    rw [hl] at hk
    cases hk
    rw [hs₀]
    simp [NamedType.outcome]
  · intro hno
    cases r with
    | none => rfl
    | some t => exact absurd hs₀ (hno id t hl)

/-- A name whose declaration is settled is missed exactly if that failed. -/
theorem Ordered.missed_iff_of_settled (hj : Ordered outer run c₀ done d)
    (hst : c₀.Starts outer run) (ho : d.Open chain) (hl : c₀.typeNames.lookup m.name = some id)
    (hs : d.status id = some (.outcome r)) : r = none ↔ Missed outer run c₀ chain done m := by
  have hid : id ∉ chain := by
    intro hid
    obtain ⟨dec, o, hs'⟩ := ho id hid
    rw [hs, Option.some.injEq] at hs'
    exact NamedType.outcome_ne_pending r hs'
  rw [Missed, exists_lookup_iff hl]
  by_cases hm : m.name ∈ names run
  · obtain ⟨dec, -, hname, hs₀⟩ := hst.status_of_mem hm hl
    have hdone := (hj.mem_iff id dec hs₀).mpr ⟨r, hs⟩
    have hp := hj.poisoned_iff id dec hs₀ hdone
    rw [hname] at hdone hp
    have hr : r = none ↔ d.status id = some .poisoned := by
      rw [hs]
      cases r <;> simp [NamedType.outcome]
    rw [hr, hp]
    simp only [hm, hdone, hid, not_true_eq_false, false_and, true_and, false_or, or_false]
  · have hdone : m.name ∉ done := fun hmem => hm (hj.sub _ hmem)
    rw [hj.missed_iff_of_not_mem hst hm hl hs]
    simp only [hdone, hid, false_and, or_false]

/-- A name whose declaration is being resolved is missed exactly if nothing but synonyms leads back to
it. -/
theorem Ordered.missed_iff_of_open (hj : Ordered outer run c₀ done d) (hst : c₀.Starts outer run)
    (ho : d.Open chain) (hl : c₀.typeNames.lookup m.name = some id) (hid : id ∈ chain) :
    Missed outer run c₀ chain done m ↔ ∀ k ∈ chain.dropWhile (· ≠ id), c₀.IsSynonym k := by
  obtain ⟨dec, o, hs⟩ := ho id hid
  have hs₀ := hj.advances.declared hst.opened hs
  have hname := hst.found m.name id dec none hl hs₀
  have hm : m.name ∈ names run := hname ▸ hst.mem_names hs₀
  have hdone : m.name ∉ done := hname ▸ hj.not_mem ho hid hs₀
  rw [Missed, exists_lookup_iff hl]
  simp only [hm, hdone, hid, not_true_eq_false, false_and, true_and, false_or]

/-- A name that is met is missed exactly if nothing is found. -/
theorem Meets.missed_iff (h : Meets chain id d r d') (hst : c₀.Starts outer run)
    (hj : Ordered outer run c₀ done d) (ho : d.Open chain)
    (hl : c₀.typeNames.lookup m.name = some id) :
    r = none ↔ Missed outer run c₀ chain done m := by
  have hsub : ∀ k ∈ chain.dropWhile (· ≠ id), k ∈ chain := fun k hk =>
    (List.dropWhile_sublist _).subset hk
  cases h with
  | @resolved t hs => exact hj.missed_iff_of_settled (r := some t) hst ho hl hs
  | poisoned hs => exact hj.missed_iff_of_settled (r := none) hst ho hl hs
  | @again _ _ k _ _ _ hid hfind _ =>
    rw [hj.missed_iff_of_open hst ho hl hid]
    refine iff_of_false (by simp) fun hsyn => ?_
    have hk := List.mem_of_find?_eq_some hfind
    have hc := (isSynonym_iff_of_open hst.opened hj.advances ho (hsub k hk)).mpr (hsyn k hk)
    rw [List.find?_some hfind] at hc
    cases hc
  | endless _ hid hfind =>
    rw [hj.missed_iff_of_open hst ho hl hid]
    refine iff_of_true rfl fun k hk => ?_
    refine (isSynonym_iff_of_open hst.opened hj.advances ho (hsub k hk)).mp ?_
    simpa using List.find?_eq_none.mp hfind k hk

/-- **A declaration fails exactly if a name of its right-hand side is missed**, when all of these names are
finished or being resolved. -/
theorem Ordered.fails_iff (hj : Ordered outer run c₀ done d) (hst : c₀.Starts outer run)
    (ho : d.Open (chain ++ [id])) (hlink : (chain ++ [id]).IsChain c₀.Mentions)
    (hs : c₀.status id = some (.pending dec none))
    (hmet : ∀ m ∈ dec.body.mentions, ∀ k, c₀.typeNames.lookup m.name = some k →
      k ∉ chain ++ [id] → ∃ r, d.status k = some (.outcome r)) :
    Fails outer run (Before (done ++ [dec.name.name])) dec.name.name ↔
      ∃ m ∈ dec.body.mentions, Missed outer run c₀ (chain ++ [id]) done m := by
  have ho₀ := ho.before hst.opened hj.advances
  have hnot : dec.name.name ∉ done := hj.not_mem ho (by simp) hs
  have hdec : dec ∈ run := (hst.pending id dec none hs).1
  -- the part of the chain from a declaration on that the last one mentions
  have hseg : ∀ k ∈ chain ++ [id], ∃ seg, (chain ++ [id]).dropWhile (· ≠ k) = seg ∧ c₀.Open seg ∧
      seg.IsChain c₀.Mentions ∧ seg.head? = some k ∧ seg.getLast? = some id := by
    intro k hk
    obtain ⟨pre, post, hchain, hdrop⟩ := dropWhile_ne_eq hk
    refine ⟨k :: post, hdrop, fun j hj => ho₀ j ?_, ?_, rfl, ?_⟩
    · rw [hchain]
      exact List.mem_append_right _ hj
    · exact (hchain ▸ hlink).right_of_append
    · have hlast : (chain ++ [id]).getLast? = some id := by simp
      rw [hchain, List.getLast?_append] at hlast
      simpa using hlast
  constructor
  · intro hf
    generalize hname : dec.name.name = n at hf
    cases hf with
    | @missing e m he hm hrun ho =>
      obtain rfl := List.inj_on_of_nodup_map hst.nodup he hdec hname.symm
      exact ⟨m, hm, Or.inl ⟨hrun, ho⟩⟩
    | loop hl =>
      obtain ⟨n', hn', hnext⟩ := exists_next_of_loop hl
      obtain ⟨e, he, hen, target, hbody, rfl⟩ := hn'
      obtain rfl := List.inj_on_of_nodup_map hst.nodup he hdec (hen.trans hname.symm)
      have hm : target ∈ e.body.mentions := by
        rw [hbody]
        exact List.mem_singleton_self target
      obtain ⟨_, hfirst, -⟩ := exists_next_of_loop hnext
      obtain ⟨f, hf, hfn⟩ := List.mem_map.mp hfirst.mem_left
      obtain ⟨k, hlk, hsk⟩ := hst.declared f hf
      rw [hfn] at hlk
      refine ⟨target, hm, ?_⟩
      by_cases hk : k ∈ chain ++ [id]
      · obtain ⟨seg, hdrop, hoseg, hcseg, hhead, -⟩ := hseg k hk
        refine Or.inr (Or.inr ⟨k, hk, hlk, ?_⟩)
        rw [hdrop]
        refine hst.isSynonym_of_loop hoseg hcseg fun i hi => ?_
        rw [hhead] at hi
        cases hi
        rwa [Checker.nameOf_eq hsk, hfn]
      · have hdone := (hj.mem_iff k f hsk).mpr (hmet target hm k hlk hk)
        rw [hfn] at hdone
        exact Or.inr (Or.inl ⟨hdone, .loop hnext⟩)
    | @mention e m he hm hv hfm =>
      obtain rfl := List.inj_on_of_nodup_map hst.nodup he hdec hname.symm
      have hdone := (before_concat_iff hnot).mp hv
      exact ⟨m, hm, Or.inr (Or.inl ⟨hdone, hfm.of_append hdone⟩)⟩
  · rintro ⟨m, hm, ⟨hrun, ho⟩ | ⟨hdone, hf⟩ | ⟨k, hk, hlk, hsyn⟩⟩
    · exact .missing hdec hm hrun ho
    · exact .mention hdec hm ((before_concat_iff hnot).mpr hdone) (hf.mono fun _ _ hb => hb.append)
    · obtain ⟨seg, hdrop, hoseg, hcseg, hhead, hlast⟩ := hseg k hk
      rw [hdrop] at hsyn
      have hpath := hst.reflTransGen_of_isChain hoseg hcseg hsyn hhead hlast
      have hback : SynonymOf run (c₀.nameOf id) (c₀.nameOf k) :=
        hst.synonymOf (hsyn id (List.mem_of_getLast? hlast)) ⟨dec, m, hs, hm, hlk⟩ (ho₀ k hk)
      rw [Checker.nameOf_eq hs] at hpath hback
      exact .loop (.head' hback hpath)

/-- A declaration that is settled is the next one that is finished. -/
theorem Ordered.settled (hj : Ordered outer run c₀ done d) (hst : c₀.Starts outer run)
    (ho : d.Open (chain ++ [id])) (hs : c₀.status id = some (.pending dec none))
    (hadv : d.Advances d') (hset : Settles id dec d qs r d')
    (hfails : r = none ↔ Fails outer run (Before (done ++ [dec.name.name])) dec.name.name) :
    Ordered outer run c₀ (done ++ [dec.name.name]) d' := by
  obtain ⟨dec', o, hsd⟩ := ho id (by simp)
  have hself := hset.status_self hsd
  have hne : ∀ k e, c₀.status k = some (.pending e none) → k ≠ id → e.name.name ≠ dec.name.name :=
    fun k e hk hkid hname => hkid (hst.id_eq hk hs hname)
  refine ⟨hj.advances.trans hadv, fun n hn => ?_, fun k e hk => ?_, fun k e hk hmem => ?_⟩
  · rcases List.mem_append.mp hn with hn | hn
    · exact hj.sub n hn
    · rw [List.mem_singleton.mp hn]
      exact hst.mem_names hs
  · rw [List.mem_append, List.mem_singleton]
    by_cases hkid : k = id
    · subst hkid
      rw [hs] at hk
      cases hk
      exact iff_of_true (Or.inr rfl) ⟨r, hself⟩
    · rw [hset.status_ne hkid, ← hj.mem_iff k e hk]
      exact or_iff_left (hne k e hk hkid)
  · by_cases hkid : k = id
    · subst hkid
      rw [hs] at hk
      cases hk
      rw [hself, ← hfails]
      cases r <;> simp [NamedType.outcome]
    · rw [List.mem_append, List.mem_singleton] at hmem
      have hmem := hmem.resolve_right (hne k e hk hkid)
      rw [hset.status_ne hkid, hj.poisoned_iff k e hk hmem, fails_append_iff hmem]

/-- A name whose declaration is not finished now, and neither in the end, or finished now. -/
theorem Ordered.mem_or_not_mem (hj : Ordered outer run c₀ (done ++ more) d')
    (hst : c₀.Starts outer run) (ho : d'.Open chain)
    (hl : ∀ k, c₀.typeNames.lookup m.name = some k → k ∉ chain → m.name ∈ names run →
      m.name ∈ done) : m.name ∈ done ∨ m.name ∉ done ++ more := by
  by_cases hm : m.name ∈ names run
  · obtain ⟨e, he, hname⟩ := List.mem_map.mp hm
    obtain ⟨k, hlk, hs⟩ := hst.declared e he
    rw [hname] at hlk
    by_cases hk : k ∈ chain
    · exact Or.inr (hname ▸ hj.not_mem ho hk hs)
    · exact Or.inl (hl k hlk hk hm)
  · exact Or.inr fun hmem => hm (hj.sub _ hmem)

/-- A name of the run that is met is that of a declaration that is finished, or is being resolved. -/
theorem Meets.mem_done (h : Meets chain id d r d') (hst : c₀.Starts outer run)
    (hj : Ordered outer run c₀ done d) (hl : c₀.typeNames.lookup m.name = some id)
    (hmem : m.name ∈ names run) (hid : id ∉ chain) : m.name ∈ done := by
  obtain ⟨e, -, hname, hs⟩ := hst.status_of_mem hmem hl
  rw [← hname, hj.mem_iff id e hs]
  cases h with
  | @resolved t hs' => exact ⟨some t, hs'⟩
  | poisoned hs' => exact ⟨none, hs'⟩
  | again _ hid' => exact absurd hid' hid
  | endless _ hid' => exact absurd hid' hid

/-- What is met is not visited. -/
theorem Meets.visit_eq (h : Meets chain id d r d') (hst : c₀.Starts outer run)
    (hj : Ordered outer run c₀ done d) (ho : d.Open chain) (hl : c₀.typeNames.lookup m.name = some id) (n : ℕ) :
    visit run n (chain.map c₀.nameOf) done m.name = done := by
  by_cases hmem : m.name ∈ names run
  · obtain ⟨e, -, hname, hs⟩ := hst.status_of_mem hmem hl
    by_cases hid : id ∈ chain
    · refine visit_of_mem (Or.inr ?_)
      rw [← hname, hst.mem_chain_iff (ho.before hst.opened hj.advances) hs]
      exact hid
    · exact visit_of_mem (Or.inl (h.mem_done hst hj hl hmem hid))
  · exact visit_of_not_mem hmem

/-- **Finding names settles declarations in the order of a visit, and misses exactly the names that are
missed along that order.** The induction is on the way in which the names are found. -/
theorem Finds.ordered (h : Finds chain ms d rs d') (hst : c₀.Starts outer run) :
    ∀ {done : List String} {n : ℕ}, Ordered outer run c₀ done d → d.Open chain → chain.Nodup →
      c₀.Links chain ms → run.length < n + chain.length →
      ∃ more, visitAll run n (chain.map c₀.nameOf) done ms = done ++ more ∧
        Ordered outer run c₀ (done ++ more) d' ∧
        List.Forall₂ (fun m r => r = none ↔ Missed outer run c₀ chain (done ++ more) m) ms rs := by
  induction h with
  | nil =>
    intro done steps hj _ _ _ _
    exact ⟨[], by rw [List.append_nil]; rfl, by rwa [List.append_nil], .nil⟩
  | @undefined chain m ms d d' rs hl hf ih =>
    intro done steps hj ho hnd hlink hsteps
    have hl₀ : c₀.typeNames.lookup m.name = none := hj.advances.typeNames_eq ▸ hl
    have hm : m.name ∉ names run := by
      intro hm
      obtain ⟨e, he, hname⟩ := List.mem_map.mp hm
      obtain ⟨k, hlk, -⟩ := hst.declared e he
      rw [hname, hl₀] at hlk
      cases hlk
    obtain ⟨more, hvisit, hj', hrs⟩ := ih (hj.same (.reported _ _ _) fun _ _ => Iff.rfl) ho hnd
      (fun m' hm' => hlink m' (List.mem_cons_of_mem _ hm')) hsteps
    refine ⟨more, by rw [visitAll_cons, visit_of_not_mem hm, hvisit], hj', .cons ?_ hrs⟩
    refine iff_of_true rfl (Or.inl ⟨hm, (hst.outer_eq_none _ hm).mpr fun k t hk => ?_⟩)
    rw [hl₀] at hk
    cases hk
  | @met chain m ms d d₁ d' id r rs hl hm hf ih =>
    intro done steps hj ho hnd hlink hsteps
    have hl₀ : c₀.typeNames.lookup m.name = some id := hj.advances.typeNames_eq ▸ hl
    have ho₁ := hm.open_chain ho
    have hres := hm.missed_iff hst hj ho hl₀
    obtain ⟨more, hvisit, hj', hrs⟩ := ih (hj.same hm.advances fun k q => hm.outcome_iff k) ho₁ hnd
      (fun m' hm' => hlink m' (List.mem_cons_of_mem _ hm')) hsteps
    refine ⟨more, by rw [visitAll_cons, hm.visit_eq hst hj ho hl₀, hvisit], hj', .cons ?_ hrs⟩
    rw [hres, missed_append_iff (hj'.mem_or_not_mem hst (hf.open_chain ho₁) fun k hk hkc hmem => ?_)]
    rw [hl₀] at hk
    cases hk
    exact hm.mem_done hst hj hl₀ hmem hkc
  | @settled chain m ms d d₁ d₂ d' id dec o r qs rs hl hs hid hf hset hrest ih₁ ih₂ =>
    intro done steps hj ho hnd hlink hsteps
    have hl₀ : c₀.typeNames.lookup m.name = some id := hj.advances.typeNames_eq ▸ hl
    have hs₀ := hj.advances.declared hst.opened hs
    have hname := hst.found m.name id dec none hl₀ hs₀
    have hchain := hlink m List.mem_cons_self id hl₀
    have ho' := ho.concat hs
    have ho₁ := hf.open_chain ho'
    have hnd' : (chain ++ [id]).Nodup := List.nodup_append.mpr
      ⟨hnd, List.nodup_singleton id, fun a ha b hb hab =>
        hid (List.mem_singleton.mp hb ▸ hab ▸ ha)⟩
    have hle := hst.length_le (ho'.before hst.opened hj.advances) hnd'
    rw [List.length_append, List.length_singleton] at hle
    obtain ⟨steps, rfl⟩ : ∃ n, steps = n + 1 := ⟨steps - 1, by omega⟩
    obtain ⟨more₁, hvisit₁, hj₁, hqs⟩ := ih₁ (n := steps) hj ho' hnd' (links_concat hs₀ hchain)
      (by rw [List.length_append, List.length_singleton]; omega)
    -- the declaration itself: it fails exactly if one of its names was missed
    have hmiss : r = none ↔ ∃ m ∈ dec.body.mentions,
        Missed outer run c₀ (chain ++ [id]) (done ++ more₁) m := hset.eq_none_iff_exists hqs
    have hfails := hj₁.fails_iff hst ho₁ hchain hs₀ fun m' hm' k hk hkc => by
      obtain ⟨q, -, hq⟩ := exists_mem_of_forall₂ (hf.settles ho') hm'
      exact ⟨q, hq k (hj.advances.typeNames_eq ▸ hk) hkc⟩
    obtain ⟨dec', o', hs₁⟩ := ho₁ id (by simp)
    have hj₂ := hj₁.settled hst ho₁ hs₀ (hset.advances hs₁) hset (hmiss.trans hfails.symm)
    have ho₂ := hset.open_chain ho₁ hid
    obtain ⟨more₂, hvisit₂, hj', hrs⟩ := ih₂ (n := steps + 1) hj₂ ho₂ hnd
      (fun m' hm' => hlink m' (List.mem_cons_of_mem _ hm')) (by omega)
    have hassoc : done ++ more₁ ++ [dec.name.name] ++ more₂ =
        done ++ (more₁ ++ [dec.name.name] ++ more₂) := by simp only [List.append_assoc]
    have hdone : dec.name.name ∉ done := by
      rw [hj.mem_iff id dec hs₀]
      rintro ⟨q, hq⟩
      rw [hs, Option.some.injEq] at hq
      exact NamedType.outcome_ne_pending q hq.symm
    have hnotin : dec.name.name ∉ chain.map c₀.nameOf := by
      rw [hst.mem_chain_iff (ho.before hst.opened hj.advances) hs₀]
      exact hid
    have hmem : dec.name.name ∈ done ++ more₁ ++ [dec.name.name] := by simp
    refine ⟨more₁ ++ [dec.name.name] ++ more₂, ?_, hassoc ▸ hj', .cons ?_ (hassoc ▸ hrs)⟩
    · rw [List.map_append, List.map_singleton, Checker.nameOf_eq hs₀] at hvisit₁
      rw [visitAll_cons, hname, visit_of_find hdone hnotin
        (find_of_mem hst.nodup (hst.pending id dec none hs₀).1), hvisit₁, hvisit₂, hassoc]
    · have hrun : m.name ∈ names run := hname ▸ hst.mem_names hs₀
      rw [hmiss, ← hfails, ← hassoc, ← missed_append_iff (Or.inl (hname ▸ hmem)), Missed,
        exists_lookup_iff hl₀, hname]
      simp only [hmem, hid, hname ▸ hrun, not_true_eq_false, false_and, true_and, false_or, or_false]

/-! ## Runs -/

/-- A run with distinct names, once they are bound. -/
theorem TypeRun.starts {c c' : Checker} {plans : List Plan} {own : Owners}
    (h : TypeRun c run plans run c₀ rs own c') (hnd : (names run).Nodup) :
    c₀.Starts c.typeNamed run where
  opened := h.opened
  nodup := hnd
  declared _ hd := h.lookup_of_mem hd
  pending _ _ _ hs := h.mem_of_pending hs
  found _ _ _ _ hl hs := (h.name_eq_of_lookup hl hs).2
  outer_eq_none n hn := by
    rw [h.binds.lookup_of_not_mem hn, Option.eq_none_iff_forall_ne_some]
    constructor
    · intro hno id t hl hs
      obtain ⟨s, hs'⟩ := h.rest.known n id hl
      rw [h.binds.status_of_some hs'] at hs
      exact hno t (Checker.typeNamed_eq_some_iff.mpr ⟨id, hl, hs'.trans hs⟩)
    · intro hno t ht
      obtain ⟨id, hl, hs⟩ := Checker.typeNamed_eq_some_iff.mp ht
      exact hno id t hl (h.binds.status_of_some hs)

/-- Before a run is resolved nothing of it is finished. -/
theorem Checker.Starts.ordered (_h : c₀.Starts outer run) : Ordered outer run c₀ [] c₀ where
  advances := .refl c₀
  sub _ hn := by cases hn
  mem_iff id dec hs := by
    refine iff_of_false List.not_mem_nil ?_
    rintro ⟨r, hr⟩
    rw [hs, Option.some.injEq] at hr
    exact NamedType.outcome_ne_pending r hr.symm
  poisoned_iff _ _ _ hn := by cases hn

/-- **At the end of a run its declarations are resolved or poisoned, and poisoned are those that fail along
the order in which they are settled.** -/
theorem TypeRun.poisoned_iff {c c' : Checker} {plans : List Plan} {own : Owners}
    (h : TypeRun c run plans run c₀ rs own c') (hnd : (names run).Nodup) (hd : dec ∈ run) :
    c'.typeNamed dec.name.name = none ↔
      Fails c.typeNamed run (Before (finishOrder run)) dec.name.name := by
  have hst := h.starts hnd
  obtain ⟨more, hvisit, hj, -⟩ := h.finds.ordered hst (n := run.length + 1) hst.ordered
    (open_nil c₀) List.nodup_nil (links_nil c₀ _) (by simp)
  rw [List.map_nil, List.nil_append] at hvisit
  rw [List.nil_append, ← hvisit] at hj
  obtain ⟨id, hl, hs⟩ := h.lookup_of_mem hd
  obtain ⟨r, -, hr⟩ := exists_mem_of_forall₂ (h.finds.settles (open_nil c₀))
    (List.mem_map_of_mem hd)
  have hsettled := hr id hl List.not_mem_nil
  have hmem := (hj.mem_iff id dec hs).mpr ⟨r, hsettled⟩
  rw [show finishOrder run = visitAll run (run.length + 1) [] [] (run.map (·.name)) from rfl,
    ← hj.poisoned_iff id dec hs hmem, hsettled]
  rw [Checker.typeNamed, h.lookup_eq, hl]
  dsimp only
  rw [hsettled]
  cases r <;> simp [NamedType.outcome]

end TigerCheck
