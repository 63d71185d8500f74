import Mathlib.Logic.Function.Basic
import TigerCheck.Proofs.Lists
import TigerCheck.Proofs.TypeName.Resolves

/-!
# What stays true while declarations are resolved

At every moment of a resolution each record or array declaration owns at most one type, which it got
when it was first referred to within itself or, if it never was, when it was completed. A name stands
for the type that its declaration owns; the name of a synonym stands for what its target stands for.
That does not depend on how far the resolution has come, so what was once found stays right.

* `Checker.Opened`: a state in which a run of type declarations begins to be resolved.
* `Owners`, `Stands`, `Denotes`: who owns which type, and what declarations and names stand for.
* `Owned`, `Building`: the invariant.
* `Building.fill`, `Building.settle`: the two kinds of steps that preserve it.
* **`Finds.building`**: finding names preserves the invariant, and finds what the names denote.
-/

namespace TigerCheck

/-- A run of type declarations begins to be resolved: names denote entries of the table, resolved names
have types of the arena, and no entry was handed out yet. -/
structure Checker.Opened (c : Checker) : Prop where
  closed : c.types.Closed
  known : ∀ name id, c.typeNames.lookup name = some id → ∃ s, c.status id = some s
  has : ∀ id t, c.status id = some (.resolved t) → c.types.Has t
  untouched : ∀ id dec h, c.status id = some (.pending dec h) → h = none

/-- One declaration mentions another in its right-hand side. -/
def Checker.Mentions (c : Checker) (i j : NamedTypeId) : Prop :=
  ∃ dec m, c.status i = some (.pending dec none) ∧ m ∈ dec.body.mentions ∧
    c.typeNames.lookup m.name = some j

/-- Every name continues a chain of mentions. -/
def Checker.Links (c : Checker) (chain : List NamedTypeId) (ms : List Ident) : Prop :=
  ∀ m ∈ ms, ∀ k, c.typeNames.lookup m.name = some k → (chain ++ [k]).IsChain c.Mentions

/-- A declaration links a chain that it ends with what it mentions. -/
theorem links_concat {c : Checker} {chain : List NamedTypeId} {id : NamedTypeId} {dec : TypeDec}
    (hs : c.status id = some (.pending dec none)) (hlink : (chain ++ [id]).IsChain c.Mentions) :
    c.Links (chain ++ [id]) dec.body.mentions := by
  intro m hm k hk
  refine List.isChain_append.mpr ⟨hlink, .singleton k, fun x hx y hy => ?_⟩
  have hxid : id = x := by simpa using hx
  have hyk : k = y := by simpa using hy
  exact hxid ▸ hyk ▸ ⟨dec, m, hs, hm, hk⟩

/-- The types that declarations own. -/
abbrev Owners := NamedTypeId → Option Ty

/-- Whoever owns a type keeps it. -/
def Owners.Grows (own own' : Owners) : Prop := ∀ id t, own id = some t → own' id = some t

theorem Owners.Grows.refl (own : Owners) : own.Grows own := fun _ _ h => h

theorem Owners.Grows.trans {own own' own'' : Owners} (h : own.Grows own') (h' : own'.Grows own'') :
    own.Grows own'' := fun id t ht => h' id t (h id t ht)

/-- A declaration stands for a type: it owns it, or was resolved to it before the run began, or is a
synonym of a declaration that stands for it. -/
inductive Stands (c₀ : Checker) (own : Owners) : NamedTypeId → Ty → Prop where
  | owner {id : NamedTypeId} {t : Ty} : own id = some t → Stands c₀ own id t
  | known {id : NamedTypeId} {t : Ty} : c₀.status id = some (.resolved t) → Stands c₀ own id t
  | synonym {id k : NamedTypeId} {dec : TypeDec} {target : Ident} {t : Ty} :
      c₀.status id = some (.pending dec none) → dec.body = .synonym target →
      c₀.typeNames.lookup target.name = some k → Stands c₀ own k t → Stands c₀ own id t

/-- A name denotes what its declaration stands for. -/
def Denotes (c₀ : Checker) (own : Owners) (m : Ident) (t : Ty) : Prop :=
  ∃ k, c₀.typeNames.lookup m.name = some k ∧ Stands c₀ own k t

theorem Stands.mono {c₀ : Checker} {own own' : Owners} (hg : own.Grows own') {id : NamedTypeId}
    {t : Ty} (h : Stands c₀ own id t) : Stands c₀ own' id t := by
  induction h with
  | owner h => exact .owner (hg _ _ h)
  | known h => exact .known h
  | synonym hs hb hl _ ih => exact .synonym hs hb hl ih

theorem Denotes.mono {c₀ : Checker} {own own' : Owners} (hg : own.Grows own') {m : Ident} {t : Ty}
    (h : Denotes c₀ own m t) : Denotes c₀ own' m t := by
  obtain ⟨k, hk, hst⟩ := h
  exact ⟨k, hk, hst.mono hg⟩

/-- A declaration owns a type, whose entry is blank until the declaration is resolved and then holds
what the names of the right-hand side denote. -/
structure Owned (c₀ : Checker) (own : Owners) (c : Checker) (id : NamedTypeId) (dec : TypeDec)
    (t : Ty) : Prop where
  declared : c₀.status id = some (.pending dec none)
  constructs : dec.body.isSynonym = false
  fresh : c₀.types.shape t = none
  blank : (∀ u, c.status id ≠ some (.resolved u)) → c.types.shape t = some (dec.shape [])
  filled : ∀ u, c.status id = some (.resolved u) → ∃ ts, c.types.shape t = some (dec.shape ts) ∧
    List.Forall₂ (Denotes c₀ own) dec.body.mentions ts

/-- The invariant of a resolution. -/
structure Building (c₀ : Checker) (own : Owners) (c : Checker) : Prop where
  advances : c₀.Advances c
  closed : c.types.Closed
  kept : ∀ t s, c₀.types.shape t = some s → c.types.shape t = some s
  resolved : ∀ id t, c.status id = some (.resolved t) → Stands c₀ own id t
  pending : ∀ id dec h, c.status id = some (.pending dec h) → own id = h
  owned : ∀ id t, own id = some t → ∃ dec, Owned c₀ own c id dec t
  unique : ∀ i j t, own i = some t → own j = some t → i = j
  origin : ∀ t s, c.types.shape t = some s → c₀.types.shape t = some s ∨ ∃ id, own id = some t

variable {c₀ c c' : Checker} {own : Owners} {id k : NamedTypeId} {dec : TypeDec} {t u : Ty}

theorem Owned.shape (h : Owned c₀ own c id dec t) : ∃ s, c.types.shape t = some s := by
  by_cases hr : ∃ u, c.status id = some (.resolved u)
  · obtain ⟨u, hu⟩ := hr
    obtain ⟨ts, hts, -⟩ := h.filled u hu
    exact ⟨_, hts⟩
  · exact ⟨_, h.blank fun u hu => hr ⟨u, hu⟩⟩

/-- Only the state of the declaration, its entry and who owns what matter for an owned type. -/
theorem Owned.congr {own' : Owners} (h : Owned c₀ own c id dec t)
    (hst : c'.status id = c.status id) (hsh : c'.types.shape t = c.types.shape t)
    (hg : own.Grows own') : Owned c₀ own' c' id dec t where
  declared := h.declared
  constructs := h.constructs
  fresh := h.fresh
  blank hr := by
    rw [hsh]
    exact h.blank fun u => hst ▸ hr u
  filled u hu := by
    obtain ⟨ts, hts, hd⟩ := h.filled u (hst ▸ hu)
    exact ⟨ts, hsh.trans hts, hd.imp fun _ _ hd => hd.mono hg⟩

/-- Before anything is resolved nobody owns anything. -/
theorem Checker.Opened.building (h : c₀.Opened) : Building c₀ (fun _ => none) c₀ where
  advances := .refl c₀
  closed := h.closed
  kept _ _ hs := hs
  resolved _ _ hs := .known hs
  pending id dec o hs := (h.untouched id dec o hs).symm
  owned _ _ h := by cases h
  unique _ _ _ h := by cases h
  origin _ _ hs := Or.inl hs

/-- The state of a record or an array declaration after it got a type, or contents for the type that
it owns. Without contents the declaration stays pending; with them it is resolved. -/
structure Fills (c₀ : Checker) (own : Owners) (id : NamedTypeId) (dec : TypeDec) (t : Ty)
    (ts : List Ty) (c c' : Checker) : Prop where
  advances : c.Advances c'
  puts : c.types.Puts t (dec.shape ts) c'.types
  others : ∀ k, k ≠ id → c'.status k = c.status k
  self : (c'.status id = some (.pending dec (some t)) ∧ ts = []) ∨
    (c'.status id = some (.resolved t) ∧ List.Forall₂ (Denotes c₀ own) dec.body.mentions ts)

/-- A pending record or array declaration has the type it owns, or may own one that is new. -/
def Claims (c : Checker) (id : NamedTypeId) (dec : TypeDec) (t : Ty) : Prop :=
  c.status id = some (.pending dec (some t)) ∨
    (c.status id = some (.pending dec none) ∧ c.types.shape t = none)

namespace Building

/-- What is not settled yet is as it was declared. -/
theorem declared (h0 : c₀.Opened) (hb : Building c₀ own c) {h : Option Ty}
    (hs : c.status id = some (.pending dec h)) : c₀.status id = some (.pending dec none) := by
  obtain ⟨o, ho⟩ := hb.advances.pending hs
  rw [ho, h0.untouched id dec o ho]

theorem has_of_stands (h0 : c₀.Opened) (hb : Building c₀ own c) (h : Stands c₀ own id t) :
    c.types.Has t := by
  induction h with
  | owner h =>
    obtain ⟨dec, ho⟩ := hb.owned _ _ h
    obtain ⟨s, hs⟩ := ho.shape
    exact Arena.has_of_shape hs
  | known h => exact hb.advances.has _ (h0.has _ _ h)
  | synonym _ _ _ _ ih => exact ih

/-- **A declaration stands for one type.** -/
theorem stands_unique (hb : Building c₀ own c) (ht : Stands c₀ own id t) (hu : Stands c₀ own id u) :
    t = u := by
  induction ht with
  | owner h =>
    obtain ⟨dec, ho⟩ := hb.owned _ _ h
    cases hu with
    | owner h' => exact Option.some.inj (h.symm.trans h')
    | known h' => rw [ho.declared] at h'; cases h'
    | synonym hs hbody _ _ =>
      have hdec := ho.declared.symm.trans hs
      have hsyn := ho.constructs
      cases hdec
      rw [hbody] at hsyn
      cases hsyn
  | known h =>
    cases hu with
    | owner h' =>
      obtain ⟨dec, ho⟩ := hb.owned _ _ h'
      rw [ho.declared] at h
      cases h
    | known h' => rw [h] at h'; cases h'; rfl
    | synonym hs _ _ _ => rw [h] at hs; cases hs
  | synonym hs hbody hl _ ih =>
    cases hu with
    | owner h' =>
      obtain ⟨dec, ho⟩ := hb.owned _ _ h'
      have hdec := ho.declared.symm.trans hs
      have hsyn := ho.constructs
      cases hdec
      rw [hbody] at hsyn
      cases hsyn
    | known h' => rw [h'] at hs; cases hs
    | synonym hs' hbody' hl' h' =>
      rw [hs] at hs'
      cases hs'
      rw [hbody] at hbody'
      cases hbody'
      rw [hl] at hl'
      cases hl'
      exact ih h'

/-- A step that leaves the arena and the type names alone preserves the invariant. -/
theorem same (hb : Building c₀ own c) (hadv : c.Advances c') (hty : c'.types = c.types)
    (hst : ∀ k, c'.status k = c.status k) : Building c₀ own c' where
  advances := hb.advances.trans hadv
  closed := hty ▸ hb.closed
  kept := hty ▸ hb.kept
  resolved k u h := hb.resolved k u (hst k ▸ h)
  pending k dec o h := hb.pending k dec o (hst k ▸ h)
  owned k u h := by
    obtain ⟨dec, ho⟩ := hb.owned k u h
    exact ⟨dec, ho.congr (hst k) (by rw [hty]) (.refl own)⟩
  unique := hb.unique
  origin := hty ▸ hb.origin

theorem grows_of_claims (hb : Building c₀ own c) (hc : Claims c id dec t) :
    own.Grows (Function.update own id (some t)) := by
  intro k u hk
  by_cases hkid : k = id
  · subst hkid
    rw [Function.update_self]
    rcases hc with hs | ⟨hs, -⟩
    · rw [← hb.pending _ _ _ hs, hk]
    · rw [hb.pending _ _ _ hs] at hk
      cases hk
  · rw [Function.update_of_ne hkid, hk]

/-- A claimed type belongs to nobody else. -/
theorem ne_of_claims (hb : Building c₀ own c) (hc : Claims c id dec t) (hk : own k = some u)
    (hkid : k ≠ id) : u ≠ t := by
  rintro rfl
  rcases hc with hs | ⟨-, hfresh⟩
  · exact hkid (hb.unique k id u hk (hb.pending _ _ _ hs))
  · obtain ⟨dec', ho⟩ := hb.owned k u hk
    obtain ⟨s, hs⟩ := ho.shape
    rw [hs] at hfresh
    cases hfresh

/-- A claimed type is new since the run began. -/
theorem fresh_of_claims (hb : Building c₀ own c) (hc : Claims c id dec t) :
    c₀.types.shape t = none := by
  rcases hc with hs | ⟨-, hfresh⟩
  · obtain ⟨dec', ho⟩ := hb.owned id t (hb.pending _ _ _ hs)
    exact ho.fresh
  · cases hsh : c₀.types.shape t with
    | none => rfl
    | some s => rw [hb.kept t s hsh] at hfresh; cases hfresh

/-- **Giving a declaration a type, or contents for its type, preserves the invariant.** -/
theorem fill (h0 : c₀.Opened) (hb : Building c₀ own c) {ts : List Ty}
    (hdec : dec.body.isSynonym = false) (hc : Claims c id dec t)
    (hts : ∀ u ∈ ts, c.types.Has u)
    (hf : Fills c₀ (Function.update own id (some t)) id dec t ts c c') :
    Building c₀ (Function.update own id (some t)) c' := by
  have hg := hb.grows_of_claims hc
  have hdecl : c₀.status id = some (.pending dec none) := by
    rcases hc with hs | ⟨hs, -⟩ <;> exact hb.declared h0 hs
  refine ⟨hb.advances.trans hf.advances, ?_, ?_, ?_, ?_, ?_, ?_, ?_⟩
  · exact hf.puts.closed hb.closed fun u hu => hts u (TypeDec.mem_of_mem_types hu)
  · intro u s hu
    have hne : u ≠ t := by
      rintro rfl
      rw [hb.fresh_of_claims hc] at hu
      cases hu
    rw [hf.puts.shape_ne u hne, hb.kept u s hu]
  · intro k u hk
    by_cases hkid : k = id
    · subst hkid
      rcases hf.self with ⟨hs, -⟩ | ⟨hs, -⟩
      · rw [hs] at hk
        cases hk
      · rw [hs] at hk
        cases hk
        exact .owner (Function.update_self ..)
    · rw [hf.others k hkid] at hk
      exact (hb.resolved k u hk).mono hg
  · intro k dec' o hk
    by_cases hkid : k = id
    · subst hkid
      rw [Function.update_self]
      rcases hf.self with ⟨hs, -⟩ | ⟨hs, -⟩
      · rw [hs] at hk
        cases hk
        rfl
      · rw [hs] at hk
        cases hk
    · rw [hf.others k hkid] at hk
      rw [Function.update_of_ne hkid, hb.pending k dec' o hk]
  · intro k u hk
    by_cases hkid : k = id
    · subst hkid
      rw [Function.update_self] at hk
      cases hk
      refine ⟨dec, hdecl, hdec, hb.fresh_of_claims hc, fun hr => ?_, fun u hu => ?_⟩
      · rcases hf.self with ⟨-, rfl⟩ | ⟨hs, -⟩
        · exact hf.puts.shape_eq
        · exact absurd hs (hr t)
      · rcases hf.self with ⟨hs, -⟩ | ⟨-, hd⟩
        · rw [hs] at hu
          cases hu
        · exact ⟨ts, hf.puts.shape_eq, hd⟩
    · rw [Function.update_of_ne hkid] at hk
      obtain ⟨dec', ho⟩ := hb.owned k u hk
      exact ⟨dec', ho.congr (hf.others k hkid)
        (hf.puts.shape_ne u (hb.ne_of_claims hc hk hkid)) hg⟩
  · intro i j u hi hj
    by_cases hiid : i = id <;> by_cases hjid : j = id
    · rw [hiid, hjid]
    · rw [hiid, Function.update_self] at hi
      rw [Function.update_of_ne hjid] at hj
      cases hi
      exact absurd rfl (hb.ne_of_claims hc hj hjid)
    · rw [hjid, Function.update_self] at hj
      rw [Function.update_of_ne hiid] at hi
      cases hj
      exact absurd rfl (hb.ne_of_claims hc hi hiid)
    · rw [Function.update_of_ne hiid] at hi
      rw [Function.update_of_ne hjid] at hj
      exact hb.unique i j u hi hj
  · intro u s hu
    by_cases hut : u = t
    · exact Or.inr ⟨id, by rw [hut, Function.update_self]⟩
    · rw [hf.puts.shape_ne u hut] at hu
      rcases hb.origin u s hu with h | ⟨k, hk⟩
      · exact Or.inl h
      · exact Or.inr ⟨k, hg k u hk⟩

/-- **Settling a declaration without touching the arena preserves the invariant**: it is poisoned, or a
synonym that is resolved to what it stands for. -/
theorem settle (h0 : c₀.Opened) (hb : Building c₀ own c) {o : Option Ty} {s : NamedType}
    (hs : c.status id = some (.pending dec o)) (hadv : c.Advances c') (hty : c'.types = c.types)
    (hother : ∀ k, k ≠ id → c'.status k = c.status k) (hself : c'.status id = some s)
    (hsettled : s = .poisoned ∨
      ∃ u, s = .resolved u ∧ dec.body.isSynonym = true ∧ Stands c₀ own id u) :
    Building c₀ own c' := by
  refine ⟨hb.advances.trans hadv, hty ▸ hb.closed, hty ▸ hb.kept, ?_, ?_, ?_, hb.unique,
    hty ▸ hb.origin⟩
  · intro k u hk
    by_cases hkid : k = id
    · subst hkid
      rw [hself] at hk
      cases hk
      rcases hsettled with h | ⟨v, h, -, hst⟩
      · cases h
      · cases h
        exact hst
    · exact hb.resolved k u (hother k hkid ▸ hk)
  · intro k dec' o' hk
    by_cases hkid : k = id
    · subst hkid
      rw [hself] at hk
      cases hk
      rcases hsettled with h | ⟨v, h, -⟩ <;> cases h
    · exact hb.pending k dec' o' (hother k hkid ▸ hk)
  · intro k u hk
    obtain ⟨dec', ho⟩ := hb.owned k u hk
    refine ⟨dec', ?_⟩
    by_cases hkid : k = id
    · subst hkid
      have hdec : dec' = dec := by
        have := ho.declared.symm.trans (hb.declared h0 hs)
        cases this
        rfl
      subst hdec
      refine ⟨ho.declared, ho.constructs, ho.fresh, fun _ => ?_, fun v hv => ?_⟩
      · rw [hty]
        exact ho.blank fun v hv => by rw [hs] at hv; cases hv
      · rcases hsettled with h | ⟨w, -, hsyn, -⟩
        · rw [hself, h] at hv
          cases hv
        · rw [ho.constructs] at hsyn
          cases hsyn
    · exact ho.congr (hother k hkid) (by rw [hty]) (.refl own)

end Building

/-! ## Declarations that are met within themselves -/

theorem TypeBody.isSynonym_iff {b : TypeBody} : b.isSynonym = true ↔ ∃ m, b = .synonym m := by
  cases b <;> simp [isSynonym]

/-- A chain from a declaration on begins with that declaration. -/
theorem dropWhile_ne_eq {chain : List NamedTypeId} (h : id ∈ chain) :
    ∃ pre post, chain = pre ++ id :: post ∧ chain.dropWhile (· ≠ id) = id :: post := by
  induction chain with
  | nil => cases h
  | cons k chain ih =>
    by_cases hk : k = id
    · exact ⟨[], chain, by rw [hk]; rfl, by simp [hk]⟩
    · obtain ⟨pre, post, hl, hd⟩ := ih ((List.mem_cons.mp h).resolve_left (Ne.symm hk))
      exact ⟨k :: pre, post, by rw [hl]; rfl, by rw [List.dropWhile_cons_of_pos (by simpa using hk), hd]⟩

/-- A declaration of an open chain that does not construct a type is a synonym. -/
theorem Building.synonym_of_open (h0 : c₀.Opened) (hb : Building c₀ own c)
    {chain : List NamedTypeId} (ho : c.Open chain) (hk : k ∈ chain) (hc : c.constructs k = false) :
    ∃ dec m, c₀.status k = some (.pending dec none) ∧ dec.body = .synonym m := by
  obtain ⟨dec, o, hs⟩ := ho k hk
  rw [Checker.constructs, hs] at hc
  have hsyn : dec.body.isSynonym = true := by simpa using hc
  obtain ⟨m, hm⟩ := TypeBody.isSynonym_iff.mp hsyn
  exact ⟨dec, m, hb.declared h0 hs, hm⟩

/-- Along synonyms every declaration stands for what the last one stands for. -/
theorem stands_of_isChain (hk : Stands c₀ own k t) :
    ∀ {pre : List NamedTypeId},
      (∀ j ∈ pre, ∃ dec m, c₀.status j = some (.pending dec none) ∧ dec.body = .synonym m) →
      (pre ++ [k]).IsChain c₀.Mentions → ∀ i, (pre ++ [k]).head? = some i → Stands c₀ own i t
  | [], _, _, i, hi => by
    cases hi
    exact hk
  | j :: pre, hpre, hlink, i, hi => by
    cases hi
    obtain ⟨dec, m, hs, hm⟩ := hpre j List.mem_cons_self
    have hrest := stands_of_isChain hk (fun j' hj' => hpre j' (List.mem_cons_of_mem _ hj'))
      hlink.tail
    obtain ⟨j', hj'⟩ : ∃ j', (pre ++ [k]).head? = some j' := by cases pre <;> simp
    have hstep : c₀.Mentions j j' := (List.isChain_cons.mp hlink).1 j' hj'
    obtain ⟨dec', m', hs', hm', hl⟩ := hstep
    rw [hs] at hs'
    cases hs'
    rw [hm, TypeBody.mentions, List.mem_singleton] at hm'
    subst hm'
    exact .synonym hs hm hl (hrest j' hj')

/-! ## The steps of a resolution -/

theorem HandsOut.building (h : HandsOut k c t c') (h0 : c₀.Opened) (hb : Building c₀ own c)
    (hk : c.constructs k = true) :
    ∃ own', own.Grows own' ∧ Building c₀ own' c' ∧ own' k = some t := by
  cases h with
  | again hs => exact ⟨own, .refl own, hb, hb.pending k _ _ hs⟩
  | @new dec _ b hs hfresh hp =>
    have hdec : dec.body.isSynonym = false := by simpa [Checker.constructs, hs] using hk
    have hc : Claims c k dec t := Or.inr ⟨hs, hfresh⟩
    have hts : ∀ u ∈ ([] : List Ty), c.types.Has u := by simp
    refine ⟨_, hb.grows_of_claims hc, hb.fill h0 hdec hc hts ⟨?_, hp, ?_, ?_⟩,
      Function.update_self ..⟩
    · exact (Checker.Advances.puts hp).trans (.mark hs (.handOut _ _))
    · exact fun j hj => Checker.status_mark_ne hj
    · exact Or.inl ⟨Checker.status_mark_self (c := { c with types := b }) hs, rfl⟩

theorem Completes.claims {ts : List Ty} (h : Completes id dec ts c t c') : Claims c id dec t := by
  cases h with
  | again hs => exact Or.inl hs
  | new hs hfresh => exact Or.inr ⟨hs, hfresh⟩

theorem Meets.building {chain : List NamedTypeId} {r : Option Ty} (h : Meets chain id c r c')
    (h0 : c₀.Opened) (hb : Building c₀ own c) (ho : c.Open chain)
    (hlink : (chain ++ [id]).IsChain c₀.Mentions) :
    ∃ own', own.Grows own' ∧ Building c₀ own' c' ∧ ∀ t, r = some t → Stands c₀ own' id t := by
  cases h with
  | @resolved t hs =>
    refine ⟨own, .refl own, hb, fun u hu => ?_⟩
    cases hu
    exact hb.resolved id t hs
  | poisoned => exact ⟨own, .refl own, hb, fun u hu => by cases hu⟩
  | @again dec o k t _ hs hmem hfind hout =>
    obtain ⟨hk, as, bs, hseg, has⟩ := List.find?_eq_some_iff_append.mp hfind
    obtain ⟨pre, post, hchain, hdrop⟩ := dropWhile_ne_eq hmem
    obtain ⟨own', hg, hb', hown⟩ := hout.building h0 hb hk
    refine ⟨own', hg, hb', fun u hu => ?_⟩
    cases hu
    have hsplit : chain ++ [id] = pre ++ ((as ++ [k]) ++ (bs ++ [id])) := by
      rw [hchain, List.append_assoc, ← hdrop, hseg]
      simp
    have hinfix : (as ++ [k]).IsChain c₀.Mentions :=
      (hsplit ▸ hlink).right_of_append.left_of_append
    refine stands_of_isChain (.owner hown) (fun j hj => ?_) hinfix id ?_
    · have hjc : j ∈ chain := by
        rw [hchain, ← hdrop, hseg]
        exact List.mem_append_right _ (List.mem_append_left _ hj)
      exact hb.synonym_of_open h0 ho hjc (by simpa using has j hj)
    · have hhead : (as ++ k :: bs).head? = some id := by rw [← hseg, hdrop]; rfl
      cases as <;> simpa using hhead
  | endless => exact ⟨own, .refl own, hb.same (.reported _ _ _) rfl fun _ => rfl, fun u hu => by cases hu⟩

theorem Settles.building {qs : List (Option Ty)} {o r : Option Ty} (h : Settles id dec c qs r c')
    (h0 : c₀.Opened) (hb : Building c₀ own c) (hs : c.status id = some (.pending dec o))
    (hqs : List.Forall₂ (fun m q => ∀ t, q = some t → Denotes c₀ own m t) dec.body.mentions qs) :
    ∃ own', own.Grows own' ∧ Building c₀ own' c' ∧ ∀ t, r = some t → Stands c₀ own' id t := by
  have hadv := h.advances hs
  have hne : ∀ k, k ≠ id → c'.status k = c.status k := fun k hk => h.status_ne hk
  have hself := h.status_self hs
  cases h with
  | @synonym target t text hbody =>
    rw [hbody, TypeBody.mentions, List.forall₂_cons] at hqs
    obtain ⟨k, hk, hst⟩ := hqs.1 t rfl
    have hstands : Stands c₀ own id t := .synonym (hb.declared h0 hs) hbody hk hst
    refine ⟨own, .refl own, ?_, fun u hu => by cases hu; exact hstands⟩
    exact hb.settle h0 hs hadv rfl hne hself
      (Or.inr ⟨t, rfl, TypeBody.isSynonym_iff.mpr ⟨_, hbody⟩, hstands⟩)
  | @constructed ts t d text hdec hcomp =>
    have hd : List.Forall₂ (Denotes c₀ own) dec.body.mentions ts := by
      rw [List.forall₂_map_right_iff] at hqs
      exact hqs.imp fun m u hu => hu u rfl
    have hts : ∀ u ∈ ts, c.types.Has u := by
      refine forall_mem_of_forall₂ hd fun m u hu => ?_
      obtain ⟨k, -, hst⟩ := hu
      exact hb.has_of_stands h0 hst
    have hg := hb.grows_of_claims hcomp.claims
    obtain ⟨b, rfl, hp⟩ := hcomp.eq_withTypes
    refine ⟨_, hg, hb.fill h0 hdec hcomp.claims hts ⟨hadv, hp, hne, Or.inr ⟨hself, ?_⟩⟩, ?_⟩
    · exact hd.imp fun m u hu => hu.mono hg
    · intro u hu
      cases hu
      exact .owner (Function.update_self ..)
  | failed =>
    exact ⟨own, .refl own, hb.settle h0 hs hadv rfl hne hself (Or.inl rfl), fun u hu => by cases hu⟩

/-- **Finding names preserves the invariant, and finds what the names denote.** -/
theorem Finds.building {chain : List NamedTypeId} {ms : List Ident} {rs : List (Option Ty)}
    (h : Finds chain ms c rs c') (h0 : c₀.Opened) (hb : Building c₀ own c) (ho : c.Open chain)
    (hlink : c₀.Links chain ms) :
    ∃ own', own.Grows own' ∧ Building c₀ own' c' ∧
      List.Forall₂ (fun m r => ∀ t, r = some t → Denotes c₀ own' m t) ms rs := by
  induction h generalizing own with
  | nil => exact ⟨own, .refl own, hb, .nil⟩
  | @undefined chain m ms c c' rs hl hf ih =>
    obtain ⟨own', hg, hb', hd⟩ := ih (hb.same (.reported _ _ _) rfl fun _ => rfl) ho
      fun m' hm' => hlink m' (List.mem_cons_of_mem _ hm')
    exact ⟨own', hg, hb', .cons (fun t ht => by cases ht) hd⟩
  | @met chain m ms c c₁ c' id r rs hl hm hf ih =>
    have hl₀ : c₀.typeNames.lookup m.name = some id := hb.advances.typeNames_eq ▸ hl
    obtain ⟨own₁, hg₁, hb₁, hst⟩ := hm.building h0 hb ho (hlink m List.mem_cons_self id hl₀)
    obtain ⟨own', hg, hb', hd⟩ := ih hb₁ (hm.open_chain ho)
      fun m' hm' => hlink m' (List.mem_cons_of_mem _ hm')
    exact ⟨own', hg₁.trans hg, hb', .cons (fun t ht => ⟨id, hl₀, (hst t ht).mono hg⟩) hd⟩
  | @settled chain m ms c c₁ c₂ c' id dec o r qs rs hl hs hid hf hset hrest ih₁ ih₂ =>
    have hl₀ : c₀.typeNames.lookup m.name = some id := hb.advances.typeNames_eq ▸ hl
    have hdecl := hb.declared h0 hs
    have hchain := hlink m List.mem_cons_self id hl₀
    obtain ⟨own₁, hg₁, hb₁, hqs⟩ := ih₁ hb (ho.concat hs) (links_concat hdecl hchain)
    obtain ⟨o', hs₁⟩ := hf.pending ho hs
    obtain ⟨own₂, hg₂, hb₂, hst⟩ := hset.building h0 hb₁ hs₁ hqs
    obtain ⟨own', hg, hb', hd⟩ := ih₂ hb₂ (hset.open_chain (hf.open_chain (ho.concat hs)) hid)
      fun m' hm' => hlink m' (List.mem_cons_of_mem _ hm')
    exact ⟨own', (hg₁.trans hg₂).trans hg, hb',
      .cons (fun t ht => ⟨id, hl₀, (hst t ht).mono hg⟩) hd⟩

end TigerCheck
