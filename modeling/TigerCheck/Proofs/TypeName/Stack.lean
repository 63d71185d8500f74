import Mathlib.Data.List.Nodup
import Mathlib.Data.List.Perm.Subperm
import TigerCheck.Proofs.TypeName.Works

/-!
# The stack of a resolution

The chain of the declarations that are being resolved can be kept on one stack. A declaration is pushed
before its right-hand side is looked at, and popped afterwards, and whatever happens in between finds the
stack in that one place. Here names are resolved in this way, and a record is kept of every moment at
which something was pushed.

* `Checker.pendingNames`: the declarations that are not settled.
* `Check.Stacked`, `Check.resolveOn`: resolving a name with a stack.
* `Checker.Moment`: what is true of a stack, and of the state, at every moment of a resolution.
* `Check.OnStack`: an action with a stack does what an action without one does.
* **`Check.onStack_resolve`**: the stack makes no difference, comes back as it was, and holds each time
  different declarations that are not settled.
-/

namespace TigerCheck

open Check

namespace Checker

variable {c c' : Checker} {id : NamedTypeId} {chain more : List NamedTypeId}

/-! ## Declarations that are not settled -/

/-- Whether a declaration is not settled. -/
def isPending (c : Checker) (id : NamedTypeId) : Bool :=
  match c.status id with
  | some (.pending ..) => true
  | _ => false

/-- The declarations that are not settled. -/
def pendingNames (c : Checker) : List NamedTypeId :=
  ((List.range c.namedTypes.size).map NamedTypeId.mk).filter c.isPending

theorem isPending_iff : c.isPending id = true ↔ c.Pending id := by
  unfold isPending Pending
  split
  case h_1 dec o hs => exact iff_of_true rfl ⟨dec, o, hs⟩
  case h_2 hs => exact iff_of_false Bool.false_ne_true fun ⟨dec, o, h⟩ => hs dec o h

theorem mem_pendingNames : id ∈ c.pendingNames ↔ c.Pending id := by
  rw [pendingNames, List.mem_filter, isPending_iff, and_iff_right_iff_imp]
  rintro ⟨dec, o, hs⟩
  exact List.mem_map.mpr ⟨id.index, List.mem_range.mpr (lt_of_status hs), rfl⟩

theorem nodup_pendingNames (c : Checker) : c.pendingNames.Nodup := by
  refine (List.nodup_range.map fun i j h => ?_).filter _
  exact NamedTypeId.mk.inj h

theorem length_pendingNames_le (c : Checker) : c.pendingNames.length ≤ c.namedTypes.size := by
  refine (List.length_filter_le _ _).trans ?_
  rw [List.length_map, List.length_range]

/-- Different declarations that are not settled are no more than there are. -/
theorem Open.length_le (ho : c.Open chain) (hd : chain.Nodup) : chain.length ≤ c.pendingNames.length :=
  (List.subperm_of_subset hd fun k hk => mem_pendingNames.mpr (ho k hk)).length_le

theorem Works.open (h : c.Works chain c') (ho : c.Open chain) : c'.Open chain := fun k hk =>
  h.pending k hk (ho k hk)

/-- No declaration becomes unsettled again. -/
theorem Works.pending_of (h : c.Works chain c') (hp : c'.Pending id) : c.Pending id := by
  obtain ⟨dec, o, hs'⟩ := hp
  have hlt : id.index < c.namedTypes.size := h.names_eq ▸ lt_of_status hs'
  have hs : c.status id = some c.namedTypes[id.index] := Array.getElem?_eq_getElem hlt
  cases hcase : c.namedTypes[id.index] with
  | pending dec' o' => exact ⟨dec', o', hcase ▸ hs⟩
  | resolved t =>
    have hkept := h.settled id _ (hcase ▸ hs) (by simp)
    rw [hs'] at hkept
    cases hkept
  | poisoned =>
    have hkept := h.settled id _ (hcase ▸ hs) (by simp)
    rw [hs'] at hkept
    cases hkept

theorem Works.pendingNames_le (h : c.Works chain c') : c'.pendingNames.length ≤ c.pendingNames.length := by
  refine (List.subperm_of_subset c'.nodup_pendingNames fun k hk => ?_).length_le
  exact mem_pendingNames.mpr (h.pending_of (mem_pendingNames.mp hk))

/-- A moment of a resolution that began in a state, under a chain: a state that is reached, and what the
stack holds there. -/
structure Moment (c : Checker) (chain : List NamedTypeId) (now : Checker × List NamedTypeId) : Prop where
  works : c.Works chain now.1
  held : chain <+: now.2
  nodup : now.2.Nodup
  isOpen : now.1.Open now.2

/-- At no moment the stack holds more declarations than are not settled. -/
theorem Moment.length_le {now : Checker × List NamedTypeId} (h : c.Moment chain now) :
    now.2.length ≤ now.1.pendingNames.length := h.isOpen.length_le h.nodup

/-- What the beginning did not disturb is a moment of the whole. -/
theorem Moment.after {now : Checker × List NamedTypeId} (h : c'.Moment chain now) (hw : c.Works chain c') :
    c.Moment chain now := { h with works := hw.trans h.works }

theorem Moment.of_longer {now : Checker × List NamedTypeId} (h : c.Moment (chain ++ more) now) :
    c.Moment chain now where
  works := h.works.of_longer
  held := (List.prefix_append chain more).trans h.held
  nodup := h.nodup
  isOpen := h.isOpen

end Checker

/-! ## Resolving with a stack -/

/-- The declarations that are being resolved, outermost first, and the moments at which one was pushed. -/
structure Stack where
  held : List NamedTypeId
  moments : List (Checker × List NamedTypeId)

namespace Check

/-- Actions of the checker that have a stack. -/
abbrev Stacked := StateT Stack Check

/-- Push a declaration. -/
def push (id : NamedTypeId) : Stacked Unit := do
  let c ← (get : Check Checker)
  modify fun s => ⟨s.held ++ [id], s.moments ++ [(c, s.held ++ [id])]⟩

/-- Pop the declaration that was pushed last. -/
def pop : Stacked Unit := modify fun s => { s with held := s.held.dropLast }

/-- An action between a push and the pop that belongs to it. -/
def within {α : Type} (id : NamedTypeId) (m : Stacked α) : Stacked α := do
  push id
  let a ← m
  pop
  return a

/-- Fields with their types, if every type is found. -/
def fieldsOn (find : Ident → Stacked (Option Ty)) : List TypedName → Stacked (Option (List Field))
  | [] => return some []
  | f :: fs => do
    let ty ← find f.typeName
    let rest ← fieldsOn find fs
    return match ty, rest with
      | some ty, some rest => some (⟨f.name.name, ty⟩ :: rest)
      | _, _ => none

/-- The type of a declaration's right-hand side. -/
def completeOn (find : Ident → Stacked (Option Ty)) (id : NamedTypeId) (dec : TypeDec) :
    Stacked (Option Ty) := do
  match dec.body with
  | .synonym target => find target
  | .record fields =>
    match ← fieldsOn find fields with
    | some fields => some <$> liftM (completeRecord id dec.name.name fields)
    | none => return none
  | .array element =>
    match ← find element with
    | some element => some <$> liftM (completeArray id dec.name.name element)
    | none => return none

/-- The type that an occurrence of a name stands for. -/
def findOn (resolve : NamedTypeId → Stacked (Option Ty)) (name : Ident) : Stacked (Option Ty) := do
  match (← (get : Check Checker)).typeNames.lookup name.name with
  | some id => resolve id
  | none => (fail (.undefinedType name.name) name.loc : Check (Option Ty))

/-- The type of a declared name. The stack holds the declarations that are being resolved. -/
def resolveOn : Nat → NamedTypeId → Stacked (Option Ty)
  | 0, _ => throw Breach.exhausted
  | steps + 1, id => do
    match ← (namedType id : Check NamedType) with
    | .resolved ty => return some ty
    | .poisoned => return none
    | .pending dec _ =>
      let held := (← get).held
      if id ∈ held then (meetAgain id dec held : Check (Option Ty))
      else
        let ty ← within id (completeOn (findOn (resolveOn steps)) id dec)
        (settle id dec.name.name ty : Check Unit)
        return ty

/-! ## The stack makes no difference -/

variable {α β : Type} {chain : List NamedTypeId} {c : Checker} {id : NamedTypeId} {dec : TypeDec}

/-- In a state, with a chain on the stack, an action with a stack ends as one without a stack does. It
leaves the stack as it was, and the moments it has recorded are moments of a resolution. -/
def OnStack (chain : List NamedTypeId) (c : Checker) (m' : Stacked α) (m : Check α) : Prop :=
  (∃ e, m.run c = .error e ∧ ∀ ms, (m'.run ⟨chain, ms⟩).run c = .error e) ∨
    ∃ a c' more, m.run c = .ok (a, c') ∧ (∀ ms, (m'.run ⟨chain, ms⟩).run c = .ok ((a, ⟨chain, ms ++ more⟩), c')) ∧
      c.Works chain c' ∧ ∀ now ∈ more, c.Moment chain now

theorem run_stacked_bind (m : Stacked α) (f : α → Stacked β) (s : Stack) (c : Checker) :
    ((m >>= f).run s).run c = ((m.run s).run c).bind fun p => ((f p.1.1).run p.1.2).run p.2 := rfl

theorem run_check_bind (m : Check α) (f : α → Check β) (c : Checker) :
    (m >>= f).run c = (m.run c).bind fun p => (f p.1).run p.2 := rfl

namespace OnStack

/-- An action that does not look at the stack. -/
theorem lift {m : Check α} (h : ∀ a c', m.run c = .ok (a, c') → c.Works chain c') :
    OnStack chain c (liftM m) m := by
  have hrun : ∀ s : Stack, ((liftM m : Stacked α).run s).run c =
      (m.run c).bind fun p => .ok ((p.1, s), p.2) := fun _ => rfl
  cases hm : m.run c with
  | error e => exact .inl ⟨e, hm, fun ms => by rw [hrun, hm]; rfl⟩
  | ok p => exact .inr ⟨p.1, p.2, [], hm, fun ms => by rw [hrun, hm, List.append_nil]; rfl, h _ _ hm, nofun⟩

theorem pure (a : α) : OnStack chain c (Pure.pure a) (Pure.pure a) :=
  .inr ⟨a, c, [], rfl, fun ms => by rw [List.append_nil]; rfl, .refl chain c, nofun⟩

theorem bind {m' : Stacked α} {m : Check α} {f' : α → Stacked β} {f : α → Check β}
    (hm : OnStack chain c m' m)
    (hf : ∀ a c', m.run c = .ok (a, c') → c.Works chain c' → OnStack chain c' (f' a) (f a)) :
    OnStack chain c (m' >>= f') (m >>= f) := by
  simp only [OnStack, run_stacked_bind, run_check_bind]
  obtain ⟨e, hrun, hrun'⟩ | ⟨a, c₁, more₁, hrun, hrun', hw₁, hmore₁⟩ := hm
  · exact .inl ⟨e, by rw [hrun]; rfl, fun ms => by rw [hrun']; rfl⟩
  obtain ⟨e, hrest, hrest'⟩ | ⟨b, c₂, more₂, hrest, hrest', hw₂, hmore₂⟩ := hf a c₁ hrun hw₁
  · exact .inl ⟨e, by rw [hrun]; exact hrest, fun ms => by rw [hrun']; exact hrest' _⟩
  · refine .inr ⟨b, c₂, more₁ ++ more₂, by rw [hrun]; exact hrest, fun ms => ?_, hw₁.trans hw₂, ?_⟩
    · rw [hrun', ← List.append_assoc]
      exact hrest' _
    · intro now hnow
      rcases List.mem_append.mp hnow with hnow | hnow
      · exact hmore₁ now hnow
      · exact (hmore₂ now hnow).after hw₁

/-- Reading the state. -/
theorem get_bind {f' : Checker → Stacked β} {f : Checker → Check β} (h : OnStack chain c (f' c) (f c)) :
    OnStack chain c (liftM (get : Check Checker) >>= f') (get >>= f) := by
  refine (lift fun a c' hrun => ?_).bind fun a c' hrun _ => ?_
  · cases hrun
    exact .refl chain c
  · cases hrun
    exact h

/-- Reading the stack. -/
theorem held_bind (f' : List NamedTypeId → Stacked β) {m : Check β} (h : OnStack chain c (f' chain) m) :
    OnStack chain c (do f' (← get).held) m := h

/-- What an action with a stack does, if it ends, a resolution may do. -/
theorem works {m' : Stacked α} {m : Check α} (h : OnStack chain c m' m) {a : α} {c' : Checker}
    (hrun : m.run c = .ok (a, c')) : c.Works chain c' := by
  obtain ⟨e, hm, -⟩ | ⟨b, c₁, more, hm, -, hw, -⟩ := h
  · rw [hm] at hrun
    cases hrun
  · rw [hm] at hrun
    cases hrun
    exact hw

theorem map {m' : Stacked α} {m : Check α} {k : α → β} (hm : OnStack chain c m' m) :
    OnStack chain c (k <$> m') (k <$> m) := by
  rw [map_eq_pure_bind, map_eq_pure_bind]
  exact hm.bind fun a _ _ _ => .pure (k a)

/-- Between a push and its pop the chain is longer by one declaration, which is not settled. -/
theorem within {m' : Stacked α} {m : Check α} (hd : (chain ++ [id]).Nodup) (ho : c.Open (chain ++ [id]))
    (h : OnStack (chain ++ [id]) c m' m) : OnStack chain c (Check.within id m') m := by
  have hrun : ∀ ms, ((Check.within id m').run ⟨chain, ms⟩).run c =
      ((m'.run ⟨chain ++ [id], ms ++ [(c, chain ++ [id])]⟩).run c).bind fun p =>
        .ok ((p.1.1, { p.1.2 with held := p.1.2.held.dropLast }), p.2) := fun _ => rfl
  obtain ⟨e, hm, hm'⟩ | ⟨a, c', more, hm, hm', hw, hmore⟩ := h
  · exact .inl ⟨e, hm, fun ms => by rw [hrun, hm']; rfl⟩
  · refine .inr ⟨a, c', (c, chain ++ [id]) :: more, hm, fun ms => ?_, hw.of_longer, fun now hnow => ?_⟩
    · rw [hrun, hm', List.append_assoc]
      simp [Except.bind]
    · rcases List.mem_cons.mp hnow with rfl | hnow
      · exact ⟨.refl chain c, List.prefix_append chain [id], hd, ho⟩
      · exact (hmore now hnow).of_longer

end OnStack

section

variable {find' : Ident → Stacked (Option Ty)} {find : Ident → Check (Option Ty)}
  (hfind : ∀ m c, c.Open chain → OnStack chain c (find' m) (find m))
include hfind

theorem onStack_fields : ∀ (fields : List TypedName) (c : Checker), c.Open chain →
    OnStack chain c (fieldsOn find' fields) (resolveFields find fields)
  | [], _, _ => .pure _
  | f :: fs, c, ho =>
    (hfind f.typeName c ho).bind fun _ c₁ _ hw => (onStack_fields fs c₁ (hw.open ho)).bind fun _ _ _ _ => .pure _

theorem onStack_complete (ho : c.Open chain) :
    OnStack chain c (completeOn find' id dec) (complete find id dec) := by
  unfold completeOn complete
  cases dec.body with
  | synonym target => exact hfind target c ho
  | record fields =>
    refine (onStack_fields hfind fields c ho).bind fun fields c₁ _ _ => ?_
    cases fields with
    | none => exact .pure none
    | some fields => exact .map (.lift fun _ _ hrun => resolving_completeRecord hrun)
  | array element =>
    refine (hfind element c ho).bind fun element c₁ _ _ => ?_
    cases element with
    | none => exact .pure none
    | some element => exact .map (.lift fun _ _ hrun => resolving_completeArray hrun)

end

theorem onStack_find {f' : NamedTypeId → Stacked (Option Ty)} {f : NamedTypeId → Check (Option Ty)}
    (h : ∀ k, OnStack chain c (f' k) (f k)) (name : Ident) :
    OnStack chain c (findOn f' name) (findWith f name) := by
  refine .get_bind ?_
  cases c.typeNames.lookup name.name with
  | some k => exact h k
  | none => exact .lift fun _ _ hrun => resolving_fail hrun

/-- **The stack makes no difference**: it comes back as it was, and whenever something was pushed the
declarations on it were different, and none of them was settled. -/
theorem onStack_resolve : ∀ (steps : ℕ) {chain : List NamedTypeId} (id : NamedTypeId) {c : Checker},
    chain.Nodup → c.Open chain → OnStack chain c (resolveOn steps id) (resolve steps chain id)
  | 0, _, _, _, _, _ => .inl ⟨.exhausted, rfl, fun _ => rfl⟩
  | steps + 1, chain, id, c, hd, ho => by
    rw [resolveOn, resolve]
    refine (OnStack.lift fun _ _ hrun => resolving_namedType hrun).bind fun s c₁ hrun _ => ?_
    obtain ⟨rfl, hs⟩ := status_of_run_namedType hrun
    cases s with
    | resolved ty => exact .pure _
    | poisoned => exact .pure _
    | pending dec o =>
      have hp : c.Pending id := ⟨dec, o, hs⟩
      refine .held_bind (fun held => if id ∈ held then liftM (meetAgain id dec held) else do
        let ty ← within id (completeOn (findOn (resolveOn steps)) id dec)
        liftM (settle id dec.name.name ty)
        return ty) ?_
      by_cases hid : id ∈ chain
      · simp only [if_pos hid]
        exact .lift fun _ _ hrun => works_of_run_meetAgain hp hrun
      · simp only [if_neg hid]
        have hd' : (chain ++ [id]).Nodup := List.concat_eq_append ▸ hd.concat hid
        have ho' : c.Open (chain ++ [id]) := ho.concat hs
        have hbody : OnStack (chain ++ [id]) c (completeOn (findOn (resolveOn steps)) id dec)
            (complete (findWith (resolve steps (chain ++ [id]))) id dec) :=
          onStack_complete (fun m _ h => onStack_find (fun k => onStack_resolve steps k hd' h) m) ho'
        refine (OnStack.within hd' ho' hbody).bind fun ty c₂ hrun _ => ?_
        have hp₂ : c₂.Pending id :=
          (hbody.works hrun).pending id (List.mem_append_right _ (List.mem_singleton_self id)) hp
        exact (OnStack.lift fun _ _ h => works_of_run_settle hid hp₂ h).bind fun _ _ _ _ => .pure ty

end Check

end TigerCheck
