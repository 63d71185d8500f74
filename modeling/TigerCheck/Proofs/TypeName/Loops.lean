import TigerCheck.Proofs.Lists
import TigerCheck.Proofs.TypeName.Poisoned

/-!
# One report for each circle of synonyms

A circle of synonyms is come to from outside or from the run itself, at one of its members. From there the
chain of declarations that are being resolved goes along the circle, since the right-hand side of a synonym
is one name, until it meets the member that it began with; that is reported. Then all members are poisoned,
so that the circle is not followed again.

* `TypeDec.endless`: the report of a declaration from which synonyms lead back to it.
* `OnLoop`, `OnLoop.returns`: the names on a circle, and that all of them are come to from each.
* `Checker.Circle`, `Checker.Ahead`: a circle of declarations, and the one through a name.
* `Checker.hits`: the number of reports that are of a member of a circle.
* `Checker.Rounds`: what steps do to a circle that they come to from outside.
* **`Finds.round`**: while names are found a circle is reported once, or it is not come to.
* **`TypeRun.hits_eq`**: a run reports each of its circles once.
-/

namespace TigerCheck

open Relation

/-- The report of a declaration from which synonyms lead back to it. -/
def TypeDec.endless (d : TypeDec) : Diagnostic := ⟨d.name.loc, .endlessTypeLoop d.name.name⟩

/-- Synonyms of the run lead from a name back to it. -/
def OnLoop (run : List TypeDec) (n : String) : Prop := TransGen (SynonymOf run) n n

section

variable {run : List TypeDec} {n m : String}

theorem OnLoop.mem (h : OnLoop run n) : n ∈ names run := by
  obtain ⟨m, hm, -⟩ := exists_next_of_loop h
  exact hm.mem_left

/-- What is come to from a name on a circle leads back to it. -/
theorem OnLoop.returns (hnd : (names run).Nodup) (h : OnLoop run n)
    (hnm : ReflTransGen (SynonymOf run) n m) : ReflTransGen (SynonymOf run) m n := by
  induction hnm with
  | refl => exact .refl
  | @tail b k _ hbk ih =>
    -- the step to the name is the only one from the name before it, and that one leads back as well
    rcases ReflTransGen.cases_head ih with rfl | ⟨k', hbk', hk'⟩
    · obtain ⟨k', hnk', hk'⟩ := TransGen.head'_iff.mp h
      exact hbk.unique hnd hnk' ▸ hk'
    · exact hbk.unique hnd hbk' ▸ hk'

theorem OnLoop.of_reaches (hnd : (names run).Nodup) (h : OnLoop run n)
    (hnm : ReflTransGen (SynonymOf run) n m) : OnLoop run m :=
  TransGen.trans_right (h.returns hnd hnm) (TransGen.trans_left h hnm)

end

/-- In a chain every link but the last is followed by one. -/
theorem exists_of_isChain {α : Type} {R : α → α → Prop} {l : List α} {a j : α}
    (h : (l ++ [j]).IsChain R) (ha : a ∈ l) : ∃ k, R a k ∧ (k ∈ l ∨ k = j) := by
  induction l with
  | nil => cases ha
  | cons b l ih =>
    rcases List.mem_cons.mp ha with rfl | ha
    · cases l with
      | nil => exact ⟨j, (List.isChain_cons_cons.mp h).1, .inr rfl⟩
      | cons b l => exact ⟨b, (List.isChain_cons_cons.mp h).1, .inl (by simp)⟩
    · obtain ⟨k, hk, hmem⟩ := ih h.tail ha
      exact ⟨k, hk, hmem.imp_left (List.mem_cons_of_mem _)⟩

/-! ## Circles of declarations -/

namespace Checker

variable {c₀ : Checker} {C : NamedTypeId → Prop} {i j k : NamedTypeId} {seg : List NamedTypeId}

/-- A circle of declarations: each is a synonym of one of them, and from each all are come to. -/
structure Circle (c₀ : Checker) (C : NamedTypeId → Prop) : Prop where
  synonym : ∀ i, C i → ∃ dec target j, c₀.status i = some (.pending dec none) ∧
    dec.body = .synonym target ∧ c₀.typeNames.lookup target.name = some j ∧ C j
  connected : ∀ {S : NamedTypeId → Prop} {j : NamedTypeId}, C j → S j →
    (∀ i k, C i → S i → c₀.Mentions i k → S k) → ∀ i, C i → S i

namespace Circle

/-- What a member mentions is the member that it is a synonym of. -/
theorem exists_next (h : c₀.Circle C) (hi : C i) : ∃ j, C j ∧ ∀ k, c₀.Mentions i k → k = j := by
  obtain ⟨dec, target, j, hs, hbody, hl, hj⟩ := h.synonym i hi
  refine ⟨j, hj, fun k hk => ?_⟩
  obtain ⟨dec', m, hs', hm, hlm⟩ := hk
  rw [hs] at hs'
  cases hs'
  rw [hbody, TypeBody.mentions, List.mem_singleton] at hm
  rw [hm, hl] at hlm
  exact (Option.some.inj hlm).symm

theorem isSynonym (h : c₀.Circle C) (hi : C i) : c₀.IsSynonym i := by
  obtain ⟨dec, target, -, hs, hbody, -⟩ := h.synonym i hi
  exact ⟨dec, target, hs, hbody⟩

/-- A chain that begins on a circle stays on it. -/
theorem of_mem_chain (h : c₀.Circle C) : ∀ {seg : List NamedTypeId} {j : NamedTypeId}, C j →
    (j :: seg).IsChain c₀.Mentions → ∀ k ∈ j :: seg, C k
  | [], j, hj, _ => by simpa using hj
  | a :: seg, j, hj, hc => by
    obtain ⟨hstep, hrest⟩ := List.isChain_cons_cons.mp hc
    obtain ⟨a', ha', hunique⟩ := h.exists_next hj
    have ha : C a := hunique a hstep ▸ ha'
    exact List.forall_mem_cons.mpr ⟨hj, h.of_mem_chain ha hrest⟩

/-- A chain that leads from a member of a circle back to it goes through all members. -/
theorem mem_chain (h : c₀.Circle C) (hj : C j) (hc : (j :: seg ++ [j]).IsChain c₀.Mentions) :
    ∀ k, C k → k ∈ j :: seg := by
  refine h.connected hj List.mem_cons_self fun i k hi his hik => ?_
  obtain ⟨k', hik', hmem⟩ := exists_of_isChain hc his
  obtain ⟨l, -, hunique⟩ := h.exists_next hi
  rw [hunique k hik, ← hunique k' hik']
  exact hmem.elim id fun heq => heq ▸ List.mem_cons_self

end Circle

/-- The declarations that synonyms lead to from a name. -/
def Ahead (c₀ : Checker) (run : List TypeDec) (n : String) (i : NamedTypeId) : Prop :=
  (∃ d, c₀.status i = some (.pending d none)) ∧ ReflTransGen (SynonymOf run) n (c₀.nameOf i)

/-- From a name on a circle they are the circle. -/
theorem Starts.circle {outer : String → Option Ty} {run : List TypeDec} {n : String}
    (h : c₀.Starts outer run) (hn : OnLoop run n) : c₀.Circle (c₀.Ahead run n) where
  synonym i hi := by
    obtain ⟨⟨d, hs⟩, hreach⟩ := hi
    rw [nameOf_eq hs] at hreach
    obtain ⟨m, hm, hloop⟩ := exists_next_of_loop (hn.of_reaches h.nodup hreach)
    have hnm : ReflTransGen (SynonymOf run) n m := hreach.tail hm
    obtain ⟨e, he, hname, target, hbody, rfl⟩ := hm
    obtain ⟨k, hl, hk⟩ := h.declared e he
    obtain rfl := h.id_eq hk hs hname
    rw [hs] at hk
    cases hk
    obtain ⟨f, hf, hfn⟩ := List.mem_map.mp (OnLoop.mem hloop)
    obtain ⟨j, hj, hsj⟩ := h.declared f hf
    rw [hfn] at hj
    exact ⟨d, target, j, hs, hbody, hj, ⟨f, hsj⟩, by rw [nameOf_eq hsj, hfn]; exact hnm⟩
  connected {S j} hj hS hstep := by
    have hgo : ∀ b, ReflTransGen (SynonymOf run) (c₀.nameOf j) b → ∀ k,
        (∃ d, c₀.status k = some (.pending d none)) → c₀.nameOf k = b → S k := by
      intro b hb
      induction hb with
      | refl =>
        rintro k ⟨e, hk⟩ hname
        obtain ⟨d, hs⟩ := hj.1
        rw [nameOf_eq hs, nameOf_eq hk] at hname
        exact h.id_eq hk hs hname ▸ hS
      | @tail b m hb hbm ih =>
        rintro k ⟨e, hk⟩ hname
        obtain ⟨d, hd, rfl, target, hbody, rfl⟩ := hbm
        obtain ⟨i, hi, hsi⟩ := h.declared d hd
        have hin : c₀.nameOf i = d.name.name := nameOf_eq hsi
        have hlookup := (h.pending k e none hk).2
        rw [← nameOf_eq hk, hname] at hlookup
        refine hstep i k ⟨⟨d, hsi⟩, hj.2.trans (hin ▸ hb)⟩ (ih i ⟨d, hsi⟩ hin)
          ⟨d, target, hsi, ?_, hlookup⟩
        rw [hbody]
        exact List.mem_singleton_self target
    intro i hi
    exact hgo _ ((hn.returns h.nodup hj.2).trans hi.2) i hi.1 rfl

/-! ## Reports of a circle -/

/-- A report is that of a member of a circle. -/
def EndsAt (c₀ : Checker) (C : NamedTypeId → Prop) (e : Diagnostic) : Prop :=
  ∃ i d, C i ∧ c₀.status i = some (.pending d none) ∧ e = d.endless

open Classical in
/-- The number of reports that are of a member of a circle. -/
noncomputable def hits (c₀ : Checker) (C : NamedTypeId → Prop) (d : Checker) : ℕ :=
  d.diagnostics.entries.toList.countP fun e => c₀.EndsAt C e

theorem hits_congr {d d' : Checker} (h : d'.diagnostics = d.diagnostics) :
    c₀.hits C d' = c₀.hits C d := by
  rw [hits, hits, h]

theorem hits_reported_of_not {d : Checker} {fault : Fault} {loc : Location}
    (h : ¬ c₀.EndsAt C ⟨loc, fault⟩) : c₀.hits C (d.reported fault loc) = c₀.hits C d := by
  simp [hits, reported, Diagnostics.report, h]

theorem hits_reported {d : Checker} {fault : Fault} {loc : Location}
    (h : c₀.EndsAt C ⟨loc, fault⟩) : c₀.hits C (d.reported fault loc) = c₀.hits C d + 1 := by
  simp [hits, reported, Diagnostics.report, note, h]

/-- No member of a circle is settled. -/
def AllOpen (d : Checker) (C : NamedTypeId → Prop) : Prop :=
  ∀ i, C i → ∃ dec o, d.status i = some (.pending dec o)

/-- Every member of a circle is settled. -/
def AllSettled (d : Checker) (C : NamedTypeId → Prop) : Prop :=
  ∀ i, C i → ∃ r, d.status i = some (.outcome r)

theorem Advances.allSettled {d d' : Checker} (h : d.Advances d') (hs : d.AllSettled C) :
    d'.AllSettled C := fun i hi => (hs i hi).imp fun _ hr => h.outcome hr

/-- What steps do to a circle that they come to from outside. A settled one they leave alone; an open one they
leave alone and open, or they report it once and settle it. -/
structure Rounds (c₀ : Checker) (C : NamedTypeId → Prop) (d d' : Checker) : Prop where
  settled : d.AllSettled C → c₀.hits C d' = c₀.hits C d ∧ d'.AllSettled C
  opened : d.AllOpen C → c₀.hits C d' = c₀.hits C d ∧ d'.AllOpen C ∨
    c₀.hits C d' = c₀.hits C d + 1 ∧ d'.AllSettled C

namespace Rounds

variable {d d₁ d' : Checker}

/-- Steps that report nothing of the circle and leave it open. -/
theorem passing (hhits : c₀.hits C d' = c₀.hits C d) (hadv : d.Advances d') (ho : d.AllOpen C → d'.AllOpen C) :
    c₀.Rounds C d d' where
  settled hs := ⟨hhits, hadv.allSettled hs⟩
  opened hopen := .inl ⟨hhits, ho hopen⟩

theorem refl (c₀ : Checker) (C : NamedTypeId → Prop) (d : Checker) : c₀.Rounds C d d :=
  .passing rfl (.refl d) id

theorem trans (h : c₀.Rounds C d d₁) (h' : c₀.Rounds C d₁ d') : c₀.Rounds C d d' where
  settled hs := by
    obtain ⟨hhits, hs₁⟩ := h.settled hs
    obtain ⟨hhits', hs'⟩ := h'.settled hs₁
    exact ⟨hhits'.trans hhits, hs'⟩
  opened ho := by
    rcases h.opened ho with ⟨hhits, ho₁⟩ | ⟨hhits, hs₁⟩
    · rw [← hhits]
      exact h'.opened ho₁
    · obtain ⟨hhits', hs'⟩ := h'.settled hs₁
      exact .inr ⟨hhits'.trans hhits, hs'⟩

end Rounds

end Checker

section

variable {c₀ d d' : Checker} {C : NamedTypeId → Prop} {outer : String → Option Ty} {run : List TypeDec}
  {chain : List NamedTypeId} {id : NamedTypeId} {ms : List Ident} {m : Ident} {r : Option Ty}
  {rs qs : List (Option Ty)} {dec : TypeDec}

theorem Meets.allOpen (h : Meets chain id d r d') (ho : d.AllOpen C) : d'.AllOpen C := fun i hi => by
  have hi' : d.Open [i] := fun k hk => by
    rw [List.mem_singleton.mp hk]
    exact ho i hi
  exact h.open_chain hi' i (List.mem_singleton_self i)

/-- Meeting a declaration reports nothing of a circle, unless the declaration is on it and in the chain. -/
theorem Meets.rounds (h : Meets chain id d r d') (hst : c₀.Starts outer run) (hadv : c₀.Advances d)
    (hid : id ∈ chain → ¬ C id) : c₀.Rounds C d d' := by
  refine .passing ?_ h.advances h.allOpen
  cases h with
  | resolved => rfl
  | poisoned => rfl
  | again _ _ _ hout => cases hout <;> rfl
  | @endless dec o hs hmem hfind =>
    refine Checker.hits_reported_of_not ?_
    rintro ⟨i, e, hi, hsi, heq⟩
    have hname : dec.name.name = e.name.name := by
      injection heq with _ hfault
      exact Fault.endlessTypeLoop.inj hfault
    exact hid hmem (hst.id_eq (hadv.declared hst.opened hs) hsi hname ▸ hi)

/-- So does settling a declaration that is not on it. -/
theorem Settles.rounds (h : Settles id dec d rs r d') {o : Option Ty} (hs : d.status id = some (.pending dec o))
    (hid : ¬ C id) : c₀.Rounds C d d' := by
  refine .passing (Checker.hits_congr h.quiet.1) (h.advances hs) fun ho k hk => ?_
  rw [h.status_ne fun hkid => hid (hkid ▸ hk)]
  exact ho k hk

/-- An undefined name is on no circle. -/
theorem rounds_undefinedType (m : Ident) : c₀.Rounds C d (d.reported (.undefinedType m.name) m.loc) := by
  refine .passing (Checker.hits_reported_of_not ?_) (.reported _ _ _) id
  rintro ⟨i, e, -, -, heq⟩
  injection heq with _ hfault
  cases hfault

/-- A circle of which nothing is settled is reported where its members lead back into the chain. -/
theorem Meets.round (h : Meets chain id d r d') (hst : c₀.Starts outer run) (hC : c₀.Circle C)
    (hadv : c₀.Advances d) (ho : d.Open chain) (hlink : (chain ++ [id]).IsChain c₀.Mentions)
    (hid : C id) (hopen : d.AllOpen C) :
    c₀.hits C d' = c₀.hits C d + 1 ∧ ∀ k, C k → k ∈ chain := by
  have hback : id ∈ chain → ∃ seg, chain.dropWhile (· ≠ id) = id :: seg ∧
      (∀ k ∈ id :: seg, k ∈ chain) ∧ (id :: seg ++ [id]).IsChain c₀.Mentions := by
    intro hmem
    obtain ⟨pre, seg, hchain, hdrop⟩ := dropWhile_ne_eq hmem
    refine ⟨seg, hdrop, fun k hk => hchain ▸ List.mem_append_right _ hk, ?_⟩
    rw [hchain, List.append_assoc] at hlink
    exact hlink.right_of_append
  obtain ⟨e, o, hs⟩ := hopen id hid
  cases h with
  | resolved hs' =>
    rw [hs] at hs'
    cases hs'
  | poisoned hs' =>
    rw [hs] at hs'
    cases hs'
  | @again _ _ k _ _ _ hmem hfind _ =>
    obtain ⟨seg, hdrop, hsub, hc⟩ := hback hmem
    rw [hdrop] at hfind
    have hk := List.mem_of_find?_eq_some hfind
    have hsyn := hC.isSynonym (hC.of_mem_chain hid hc.left_of_append k hk)
    have hcons := (isSynonym_iff_of_open hst.opened hadv ho (hsub k hk)).mpr hsyn
    rw [List.find?_some hfind] at hcons
    cases hcons
  | endless hs' hmem _ =>
    obtain ⟨seg, -, hsub, hc⟩ := hback hmem
    refine ⟨Checker.hits_reported ⟨id, _, hid, hadv.declared hst.opened hs', rfl⟩, fun k hk => ?_⟩
    exact hsub k (hC.mem_chain hid hc k hk)

/-- **While names are found a circle is reported once, or it is not come to.** The induction is on the way in
which the names are found. For names in general the chain has no member of the circle; where a single name
leads to a member the circle is followed from there on. -/
theorem Finds.round (h : Finds chain ms d rs d') (hst : c₀.Starts outer run) (hC : c₀.Circle C) :
    c₀.Advances d → d.Open chain → c₀.Links chain ms →
      ((∀ k ∈ chain, ¬ C k) → c₀.Rounds C d d') ∧
      ∀ m i, ms = [m] → c₀.typeNames.lookup m.name = some i → C i → d.AllOpen C →
        c₀.hits C d' = c₀.hits C d + 1 ∧
          ∀ k, C k → k ∉ chain → ∃ r, d'.status k = some (.outcome r) := by
  induction h with
  | nil =>
    intro _ _ _
    exact ⟨fun _ => .refl _ _ _, fun m i hms => by cases hms⟩
  | @undefined chain m ms d d' rs hl hf ih =>
    intro hadv ho hlink
    obtain ⟨hout, -⟩ := ih (hadv.trans (.reported _ _ _)) ho fun m' hm' =>
      hlink m' (List.mem_cons_of_mem _ hm')
    refine ⟨fun hchain => (rounds_undefinedType m).trans (hout hchain), fun m' i hms hi => ?_⟩
    cases hms
    rw [← hadv.typeNames_eq, hl] at hi
    cases hi
  | @met chain m ms d d₁ d' id r rs hl hm hf ih =>
    intro hadv ho hlink
    have hl₀ : c₀.typeNames.lookup m.name = some id := hadv.typeNames_eq ▸ hl
    obtain ⟨hout, -⟩ := ih (hadv.trans hm.advances) (hm.open_chain ho) fun m' hm' =>
      hlink m' (List.mem_cons_of_mem _ hm')
    refine ⟨fun hchain => (hm.rounds hst hadv (hchain id)).trans (hout hchain), fun m' i hms hi hCi hopen => ?_⟩
    cases hms
    cases hf
    rw [hl₀] at hi
    cases hi
    obtain ⟨hhits, hall⟩ := hm.round hst hC hadv ho (hlink m List.mem_cons_self id hl₀) hCi hopen
    exact ⟨hhits, fun k hk hnot => absurd (hall k hk) hnot⟩
  | @settled chain m ms d d₁ d₂ d' id dec o r qs rs hl hs hid hf hset hrest ih₁ ih₂ =>
    intro hadv ho hlink
    have hl₀ : c₀.typeNames.lookup m.name = some id := hadv.typeNames_eq ▸ hl
    have hs₀ := hadv.declared hst.opened hs
    obtain ⟨o', hs₁⟩ := hf.pending ho hs
    have hadv₁ := hf.advances (ho.concat hs)
    have hadv₂ := hset.advances hs₁
    obtain ⟨hout₁, hin₁⟩ := ih₁ hadv (ho.concat hs) (links_concat hs₀ (hlink m List.mem_cons_self id hl₀))
    obtain ⟨hout₂, -⟩ := ih₂ ((hadv.trans hadv₁).trans hadv₂) (hset.open_chain (hf.open_chain (ho.concat hs)) hid)
      fun m' hm' => hlink m' (List.mem_cons_of_mem _ hm')
    -- from a member of the circle on, the circle is followed round and settled, but for the chain
    have hmember : C id → d.AllOpen C → c₀.hits C d₂ = c₀.hits C d + 1 ∧
        ∀ k, C k → k ∉ chain → ∃ r, d₂.status k = some (.outcome r) := by
      intro hCid hopen
      obtain ⟨e, target, j, hse, hbody, hj, hCj⟩ := hC.synonym id hCid
      rw [hs₀] at hse
      cases hse
      obtain ⟨hhits, hall⟩ := hin₁ target j (by rw [hbody]; rfl) hj hCj hopen
      refine ⟨(Checker.hits_congr hset.quiet.1).trans hhits, fun k hk hnot => ?_⟩
      by_cases hkid : k = id
      · exact ⟨r, hkid ▸ hset.status_self hs₁⟩
      · rw [hset.status_ne hkid]
        exact hall k hk (by simp [hnot, hkid])
    refine ⟨fun hnot => .trans ?_ (hout₂ hnot), fun m' i hms hi hCi hopen => ?_⟩
    · by_cases hCid : C id
      · refine ⟨fun hdone => ?_, fun hopen => .inr ?_⟩
        · obtain ⟨q, hq⟩ := hdone id hCid
          rw [hs, Option.some.injEq] at hq
          exact absurd hq.symm (NamedType.outcome_ne_pending q)
        · obtain ⟨hhits, hall⟩ := hmember hCid hopen
          exact ⟨hhits, fun k hk => hall k hk fun hmem => hnot k hmem hk⟩
      · have hnot' : ∀ k ∈ chain ++ [id], ¬ C k := List.forall_mem_append.mpr ⟨hnot, by simpa using hCid⟩
        exact (hout₁ hnot').trans (hset.rounds hs₁ hCid)
    · cases hms
      cases hrest
      rw [hl₀] at hi
      cases hi
      exact hmember hCi hopen

/-- **A run reports each of its circles once.** -/
theorem TypeRun.hits_eq {c c' : Checker} {plans : List Plan} {own : Owners}
    (h : TypeRun c run plans run c₀ rs own c') (hnd : (names run).Nodup) (hC : c₀.Circle C) {i : NamedTypeId}
    (hi : C i) : c₀.hits C c' = c₀.hits C c₀ + 1 := by
  have hopen : c₀.AllOpen C := fun k hk => by
    obtain ⟨e, -, -, hs, -⟩ := hC.synonym k hk
    exact ⟨e, none, hs⟩
  obtain ⟨hout, -⟩ := h.finds.round (h.starts hnd) hC (.refl c₀) (open_nil c₀) (links_nil c₀ _)
  rcases (hout (by simp)).opened hopen with ⟨-, hopen'⟩ | ⟨hhits, -⟩
  · obtain ⟨e, o, hs⟩ := hopen' i hi
    exact absurd hs (h.atRest.settled i e o)
  · exact hhits

end

end TigerCheck
