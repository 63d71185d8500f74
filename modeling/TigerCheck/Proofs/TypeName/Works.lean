import TigerCheck.Proofs.Walk.Leaves

/-!
# What resolving a type name leaves alone

In whatever state the checker is, resolving a type name settles names that were not settled, and no others.
The names on its way cannot be settled further down: that they are met again is noticed. So a name that is
settled stays as it is.

* `Checker.Pending`: a declaration that is not settled. `Checker.Works`: what a resolution may change.
* `Check.Resolving`: an action does no more than a resolution may.
* **`Check.resolving_resolve`**: a resolution changes unsettled names only.
* `Check.restores_typeOf`: an occurrence of a type name leaves everything alone.
-/

namespace TigerCheck

open Check

namespace Checker

variable {chain : List NamedTypeId} {id : NamedTypeId} {c c' c'' : Checker}

/-- A declaration that is not settled. -/
def Pending (c : Checker) (id : NamedTypeId) : Prop := ∃ dec o, c.status id = some (.pending dec o)

/-- What resolving a type name may change: types, diagnostics, the journal, and names that are not settled,
where those of the chain stay unsettled. -/
structure Works (chain : List NamedTypeId) (c c' : Checker) : Prop where
  rest : c' = { c with
    types := c'.types, diagnostics := c'.diagnostics, namedTypes := c'.namedTypes, journal := c'.journal }
  diagnostics : c.diagnostics.entries.toList <+: c'.diagnostics.entries.toList
  names_eq : c'.namedTypes.size = c.namedTypes.size
  settled : ∀ id s, c.status id = some s → (∀ dec o, s ≠ .pending dec o) → c'.status id = some s
  pending : ∀ id ∈ chain, c.Pending id → c'.Pending id

theorem Works.refl (chain : List NamedTypeId) (c : Checker) : Works chain c c :=
  ⟨rfl, List.prefix_rfl, rfl, fun _ _ h _ => h, fun _ _ h => h⟩

theorem Works.trans (h : Works chain c c') (h' : Works chain c' c'') : Works chain c c'' where
  rest := by rw [h'.rest, h.rest]
  diagnostics := h.diagnostics.trans h'.diagnostics
  names_eq := h'.names_eq.trans h.names_eq
  settled id s hs hset := h'.settled id s (h.settled id s hs hset) hset
  pending id hid hp := h'.pending id hid (h.pending id hid hp)

theorem Works.of_longer {more : List NamedTypeId} (h : Works (chain ++ more) c c') : Works chain c c' :=
  { h with pending := fun id hid => h.pending id (List.mem_append_left _ hid) }

/-- Where only types and the journal are different. -/
theorem works_of_eq {types : Arena} {journal : Array Event} :
    Works chain c { c with types, journal } := ⟨rfl, List.prefix_rfl, rfl, fun _ _ h _ => h, fun _ _ h => h⟩

/-- An unsettled name may be changed, and a name of the chain must stay unsettled. -/
theorem Pending.works_mark (h : c.Pending id) {s : NamedType}
    (hs : id ∈ chain → ∃ dec o, s = .pending dec o) : Works chain c (c.mark id s) where
  rest := rfl
  diagnostics := List.prefix_rfl
  names_eq := by simp [mark]
  settled k t ht hset := by
    obtain ⟨dec, o, hp⟩ := h
    have hne : k ≠ id := by
      rintro rfl
      rw [hp] at ht
      exact hset dec o (Option.some.inj ht).symm
    rw [status_mark_ne hne, ht]
  pending k hk hp := by
    obtain ⟨_, _, hp'⟩ := h
    by_cases hki : k = id
    · subst hki
      obtain ⟨dec, o, rfl⟩ := hs hk
      exact ⟨dec, o, status_mark_self hp'⟩
    · obtain ⟨dec, o, hpk⟩ := hp
      exact ⟨dec, o, (status_mark_ne hki).trans hpk⟩

theorem Works.leaves (h : Works chain c c') (n : ℕ) (f : FrameId) : c.Leaves n f c' ∧ c.SameScopes c' := by
  have hframes : c'.frames = c.frames := by rw [h.rest]
  refine ⟨⟨h.diagnostics, hframes ▸ List.prefix_rfl, hframes ▸ List.prefix_rfl, Nat.le_of_eq h.names_eq.symm,
    h.settled, .of_frames_eq (congrArg (·.frames) hframes), ?_⟩, ?_, ?_, ?_⟩ <;>
    rw [h.rest]

end Checker

namespace Check

variable {α β : Type} {chain : List NamedTypeId} {m : Check α} {id : NamedTypeId} {dec : TypeDec} {c c' : Checker}

/-- An action does no more than resolving a type name may. -/
def Resolving (chain : List NamedTypeId) (m : Check α) : Prop :=
  ∀ ⦃c a c'⦄, m.run c = .ok (a, c') → c.Works chain c'

namespace Resolving

theorem pure (a : α) : Resolving chain (Pure.pure a) := by
  intro c b c' hrun
  cases hrun
  exact .refl chain c

theorem bind {k : α → Check β} (hm : Resolving chain m) (hk : ∀ a, Resolving chain (k a)) :
    Resolving chain (m >>= k) := by
  intro c b c' hrun
  obtain ⟨a, c₁, h₁, h₂⟩ := exists_of_run_bind hrun
  exact (hm h₁).trans (hk a h₂)

theorem map {k : α → β} (hm : Resolving chain m) : Resolving chain (k <$> m) := by
  rw [map_eq_pure_bind]
  exact hm.bind fun a => .pure (k a)

end Resolving

theorem resolving_fail {fault : Fault} {loc : Location} :
    Resolving chain (fail fault loc : Check (Option α)) := by
  intro c a c' hrun
  have hend : Yields (fail fault loc : Check (Option α)) c fun _ d => d = c' := ⟨a, c', hrun, rfl⟩
  obtain rfl := yields_fail.mp hend
  exact { Checker.Works.refl chain c with
    rest := rfl
    diagnostics := (leaves_reported 0 ⟨0⟩ c fault loc).diagnostics }

theorem resolving_newRecord {name : String} {fields : List Field} :
    Resolving chain (newRecord name fields) := by
  intro c t c' hrun
  cases hrun
  exact Checker.works_of_eq

theorem resolving_newArray {name : String} {element : Option Ty} :
    Resolving chain (newArray name element) := by
  intro c t c' hrun
  cases hrun
  exact Checker.works_of_eq

theorem resolving_setFields {i : RecordId} {fields : List Field} : Resolving chain (setFields i fields) := by
  intro c u c' hrun
  have hend : Yields (setFields i fields) c fun _ d => d = c' := ⟨u, c', hrun, rfl⟩
  obtain ⟨types, -, rfl⟩ := yields_setFields.mp hend
  exact Checker.works_of_eq

theorem resolving_setElement {i : ArrayId} {element : Ty} : Resolving chain (setElement i element) := by
  intro c u c' hrun
  have hend : Yields (setElement i element) c fun _ d => d = c' := ⟨u, c', hrun, rfl⟩
  obtain ⟨types, -, rfl⟩ := yields_setElement.mp hend
  exact Checker.works_of_eq

theorem status_of_run_namedType {s : NamedType} (h : (namedType id).run c = .ok (s, c')) :
    c = c' ∧ c.status id = some s := by
  have hend : Yields (namedType id) c fun t d => t = s ∧ d = c' := ⟨s, c', h, rfl, rfl⟩
  obtain ⟨t, ht, rfl, rfl⟩ := yields_namedType.mp hend
  exact ⟨rfl, ht⟩

theorem resolving_namedType : Resolving chain (namedType id) := by
  intro c s c' hrun
  obtain ⟨rfl, -⟩ := status_of_run_namedType hrun
  exact .refl chain c

theorem mark_of_run_setNamedType {s : NamedType} {u : Unit} (h : (setNamedType id s).run c = .ok (u, c')) :
    c' = c.mark id s := by
  have hend : Yields (setNamedType id s) c fun _ d => d = c' := ⟨u, c', h, rfl⟩
  obtain ⟨-, rfl⟩ := yields_setNamedType.mp hend
  rfl

/-- The entry of a declaration that is not settled is handed out, which leaves it unsettled. -/
theorem works_of_run_handOut {t : Ty} (hp : c.Pending id) (h : (handOut id dec).run c = .ok (t, c')) :
    c.Works chain c' := by
  unfold handOut at h
  obtain ⟨s, c₁, h₁, h⟩ := exists_of_run_bind h
  obtain ⟨rfl, -⟩ := status_of_run_namedType h₁
  split at h
  · cases h
    exact .refl chain _
  · have hset : ∀ {m : Check Ty}, Resolving (chain ++ [id]) m →
        (do
          let ty ← m
          setNamedType id (.pending dec (some ty))
          return ty).run c = .ok (t, c') → c.Works chain c' := by
      intro m hm hrun
      obtain ⟨ty, c₂, h₂, hrun⟩ := exists_of_run_bind hrun
      obtain ⟨_, c₃, h₃, hrun⟩ := exists_of_run_bind hrun
      cases hrun
      have hw := hm h₂
      have hp₂ := hw.pending id (List.mem_append_right _ (List.mem_singleton_self id)) hp
      rw [mark_of_run_setNamedType h₃]
      exact hw.of_longer.trans (hp₂.works_mark fun _ => ⟨_, _, rfl⟩)
    split at h
    · exact hset resolving_newArray h
    · exact hset resolving_newRecord h

/-- The first record or array along a chain is not settled. -/
theorem pending_of_run_firstConstructed : ∀ {ids : List NamedTypeId} {r : Option (NamedTypeId × TypeDec)}
    {c c' : Checker}, (firstConstructed ids).run c = .ok (r, c') → c = c' ∧ ∀ p ∈ r, c.Pending p.1
  | [], r, c, c', h => by
    cases h
    exact ⟨rfl, nofun⟩
  | id :: ids, r, c, c', h => by
    rw [firstConstructed] at h
    obtain ⟨s, c₁, h₁, h⟩ := exists_of_run_bind h
    obtain ⟨rfl, hs⟩ := status_of_run_namedType h₁
    split at h
    · next dec o =>
      split at h
      · exact pending_of_run_firstConstructed h
      · cases h
        refine ⟨rfl, fun p hp => ?_⟩
        cases hp
        exact ⟨dec, o, hs⟩
    · exact pending_of_run_firstConstructed h

theorem works_of_run_meetAgain {r : Option Ty} (hp : c.Pending id)
    (h : (meetAgain id dec chain).run c = .ok (r, c')) : c.Works chain c' := by
  unfold meetAgain at h
  split at h
  · obtain ⟨target, c₁, h₁, h⟩ := exists_of_run_bind h
    obtain ⟨rfl, htarget⟩ := pending_of_run_firstConstructed h₁
    split at h
    · next target targetDec =>
      obtain ⟨t, h₂, -⟩ := exists_of_run_map h
      exact works_of_run_handOut (htarget _ rfl) h₂
    · exact resolving_fail h
  · obtain ⟨t, h₂, -⟩ := exists_of_run_map h
    exact works_of_run_handOut hp h₂

theorem resolving_completeRecord {name : String} {fields : List Field} :
    Resolving chain (completeRecord id name fields) := by
  refine resolving_namedType.bind fun s => ?_
  split
  · exact resolving_setFields.bind fun _ => .pure _
  · exact resolving_newRecord

theorem resolving_completeArray {name : String} {element : Ty} :
    Resolving chain (completeArray id name element) := by
  refine resolving_namedType.bind fun s => ?_
  split
  · exact resolving_setElement.bind fun _ => .pure _
  · exact resolving_newArray

section

variable {find : Ident → Check (Option Ty)} (hfind : ∀ m, Resolving chain (find m))
include hfind

theorem resolving_resolveFields : ∀ fields : List TypedName, Resolving chain (resolveFields find fields)
  | [] => .pure _
  | f :: fs => (hfind f.typeName).bind fun _ => (resolving_resolveFields fs).bind fun _ => .pure _

theorem resolving_complete : Resolving chain (complete find id dec) := by
  unfold complete
  split
  · exact hfind _
  · refine (resolving_resolveFields hfind _).bind fun fields => ?_
    split
    · exact .map resolving_completeRecord
    · exact .pure _
  · refine (hfind _).bind fun element => ?_
    split
    · exact .map resolving_completeArray
    · exact .pure _

end

theorem works_of_run_settle {name : String} {ty : Option Ty} {u : Unit} (hid : id ∉ chain) (hp : c.Pending id)
    (h : (settle id name ty).run c = .ok (u, c')) : c.Works chain c' := by
  cases ty with
  | none =>
    rw [mark_of_run_setNamedType h]
    exact hp.works_mark fun hmem => absurd hmem hid
  | some ty =>
    have hend : Yields (settle id name (some ty)) c fun _ d => d = c' := ⟨u, c', h, rfl⟩
    simp only [settle, yields_bind, yields_get, yields_lift, yields_log, yields_setNamedType] at hend
    obtain ⟨display, -, -, rfl⟩ := hend
    have hnote : c.Works chain (c.note (.typeResolved name display)) := Checker.works_of_eq
    have hp' : (c.note (.typeResolved name display)).Pending id := hp
    exact hnote.trans (hp'.works_mark fun hmem => absurd hmem hid)

theorem resolving_findWith {resolve : NamedTypeId → Check (Option Ty)} (h : ∀ i, Resolving chain (resolve i))
    (name : Ident) : Resolving chain (findWith resolve name) := by
  intro c r c' hrun
  obtain ⟨_, c₁, h₁, hrun⟩ := exists_of_run_bind hrun
  cases h₁
  split at hrun
  · exact h _ hrun
  · exact resolving_fail hrun

/-- **Resolving a name changes unsettled names only**, and none of those that are being resolved already. -/
theorem resolving_resolve : ∀ (steps : ℕ) (chain : List NamedTypeId) (id : NamedTypeId),
    Resolving chain (resolve steps chain id)
  | 0, _, _ => by
    intro c r c' hrun
    cases hrun
  | steps + 1, chain, id => by
    intro c r c' hrun
    rw [resolve] at hrun
    obtain ⟨s, c₁, h₁, hrun⟩ := exists_of_run_bind hrun
    obtain ⟨rfl, hs⟩ := status_of_run_namedType h₁
    cases s with
    | resolved ty => exact Resolving.pure _ hrun
    | poisoned => exact Resolving.pure _ hrun
    | pending dec o =>
      dsimp only at hrun
      split at hrun
      · exact works_of_run_meetAgain ⟨dec, o, hs⟩ hrun
      · next hid =>
        obtain ⟨ty, c₂, h₂, hrun⟩ := exists_of_run_bind hrun
        obtain ⟨_, c₃, h₃, hrun⟩ := exists_of_run_bind hrun
        cases hrun
        have hw := resolving_complete
          (fun m => resolving_findWith (resolving_resolve steps (chain ++ [id])) m) h₂
        have hp₂ := hw.pending id (List.mem_append_right _ (List.mem_singleton_self id)) ⟨dec, o, hs⟩
        exact hw.of_longer.trans (works_of_run_settle hid hp₂ h₃)

theorem resolving_typeAt (id : NamedTypeId) : Resolving [] (typeAt id) := by
  intro c r c' hrun
  obtain ⟨_, c₁, h₁, hrun⟩ := exists_of_run_bind hrun
  cases h₁
  exact resolving_resolve _ _ _ hrun

variable {n : ℕ} {f : FrameId}

theorem Resolving.restores (h : Resolving chain m) : Restores n f m := by
  intro c a c' _ hrun
  obtain ⟨hl, hs⟩ := (h hrun).leaves n f
  exact ⟨hl, hs, trivial⟩

theorem restores_typeAt (id : NamedTypeId) : Restores n f (typeAt id) := (resolving_typeAt id).restores

theorem restores_typeOf (name : Ident) : Restores n f (typeOf name) :=
  (resolving_findWith resolving_typeAt name).restores

end Check

end TigerCheck
