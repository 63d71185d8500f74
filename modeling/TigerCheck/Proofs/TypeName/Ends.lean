import TigerCheck.Proofs.TypeName.Stack
import TigerCheck.Proofs.TypeName.Run
import TigerCheck.Proofs.Walk.Program

/-!
# Resolutions end in every state

That the resolution of a name ends does not depend on how the state came about. In whatever state, with
whatever cycles among the declarations, and under whatever chain of declarations that are being resolved,
each step down makes the chain longer by a declaration that is not settled. So there are never more steps
down than such declarations, and with more steps than that the answer is the same.

One thing can go wrong in a state that no walk arrives at: a type that is noted for a declaration has no
entry in the arena.

* `Checker.Backed`: all types that are noted for declarations have entries.
* `Check.Extends`: with more steps an action does the same, if it did not run out of them.
* `Check.YieldsUnless`: an action ends as stated, or meets a handle without an entry.
* `Checker.Ended`: the state after the resolution of a name.
* **`Check.exists_outcome_resolve`**: a resolution has one outcome, whatever the number of steps, and
  leaves its stack clean.
-/

namespace TigerCheck

/-- The type that is noted for a declaration. -/
def NamedType.type? : NamedType → Option Ty
  | .pending _ t => t
  | .resolved t => some t
  | .poisoned => none

open Check

namespace Checker

variable {c c' : Checker} {chain : List NamedTypeId} {id : NamedTypeId} {b : Arena} {t : Ty} {s : NamedType}

/-- Every type that is noted for a declaration has an entry. -/
def Backed (c : Checker) : Prop := ∀ id s, c.status id = some s → ∀ t ∈ s.type?, c.types.Has t

/-- Every name that is bound is that of a declaration. -/
def Known (c : Checker) : Prop := ∀ name id, c.typeNames.lookup name = some id → ∃ s, c.status id = some s

theorem Backed.withTypes (h : c.Backed) (hb : ∀ u, c.types.Has u → b.Has u) :
    Backed { c with types := b } := fun id s hs t ht => hb t (h id s hs t ht)

theorem Backed.mark (h : c.Backed) (hs : ∀ t ∈ s.type?, c.types.Has t) : (c.mark id s).Backed := by
  intro k s' hk t ht
  by_cases hki : k = id
  · subst hki
    by_cases hlt : k.index < c.namedTypes.size
    · rw [status_mark_self (Array.getElem?_eq_getElem hlt)] at hk
      cases hk
      exact hs t ht
    · rw [status, mark, Array.getElem?_eq_none (by simpa using hlt)] at hk
      cases hk
  · exact h k s' (status_mark_ne hki ▸ hk) t ht

theorem Backed.handsOut (h : c.Backed) (hout : HandsOut id c t c') : c'.Backed ∧ c'.types.Has t := by
  cases hout with
  | again hs => exact ⟨h, h _ _ hs t rfl⟩
  | new hs _ hp => exact ⟨(h.withTypes fun _ => hp.has).mark fun u hu => by cases hu; exact hp.has_self, hp.has_self⟩

theorem Known.declare (h : c.Known) (dec : TypeDec) : (c.declare dec).Known := by
  intro name id hl
  rw [lookup_declare] at hl
  split at hl
  · cases hl
    exact ⟨_, status_declare_self c dec⟩
  · obtain ⟨s, hs⟩ := h name id hl
    exact ⟨s, status_declare_of_some hs⟩

theorem Works.known (h : c.Works chain c') (hk : c.Known) : c'.Known := by
  intro name id hl
  have hnames : c'.typeNames = c.typeNames := by rw [h.rest]
  obtain ⟨s, hs⟩ := hk name id (hnames ▸ hl)
  have hlt : id.index < c'.namedTypes.size := h.names_eq ▸ lt_of_status hs
  exact ⟨_, Array.getElem?_eq_getElem hlt⟩

/-- The state after the resolution of a name, with its answer: what was settled is unchanged, nothing
is unsettled that was not, the declarations of the chain are not settled yet, and the name is settled
unless it is one of theirs. -/
structure Ended (c : Checker) (chain : List NamedTypeId) (id : NamedTypeId) (r : Option Ty) (c' : Checker) :
    Prop where
  works : c.Works chain c'
  settled : ∀ k s, c.status k = some s → ¬ c.Pending k → c'.status k = some s
  pending : ∀ k, c'.Pending k → c.Pending k
  isOpen : c'.Open chain
  answered : id ∉ chain → c'.status id = some (.outcome r)

end Checker

namespace Check

variable {α β : Type} {c : Checker} {P : Prop}

/-! ## The number of steps -/

/-- The second action does what the first one does, unless that runs out of steps. -/
def Extends (m m' : Check α) : Prop := ∀ c, m.run c = .error .exhausted ∨ m'.run c = m.run c

namespace Extends

theorem refl (m : Check α) : Extends m m := fun _ => .inr rfl

theorem bind {m m' : Check α} {f f' : α → Check β} (hm : Extends m m') (hf : ∀ a, Extends (f a) (f' a)) :
    Extends (m >>= f) (m' >>= f') := by
  intro c
  rw [run_check_bind, run_check_bind]
  rcases hm c with hrun | hrun
  · exact .inl (by rw [hrun]; rfl)
  · rw [hrun]
    cases m.run c with
    | error e => exact .inr rfl
    | ok p => exact hf p.1 p.2

end Extends

section

variable {find find' : Ident → Check (Option Ty)} (h : ∀ m, Extends (find m) (find' m))
include h

theorem extends_resolveFields : ∀ fields : List TypedName,
    Extends (resolveFields find fields) (resolveFields find' fields)
  | [] => .refl _
  | f :: fs => (h f.typeName).bind fun _ => (extends_resolveFields fs).bind fun _ => .refl _

theorem extends_complete (id : NamedTypeId) (dec : TypeDec) :
    Extends (complete find id dec) (complete find' id dec) := by
  unfold complete
  cases dec.body with
  | synonym target => exact h target
  | record fields => exact (extends_resolveFields h fields).bind fun _ => .refl _
  | array element => exact (h element).bind fun _ => .refl _

end

theorem extends_findWith {f f' : NamedTypeId → Check (Option Ty)} (h : ∀ k, Extends (f k) (f' k)) (m : Ident) :
    Extends (findWith f m) (findWith f' m) := by
  refine (Extends.refl get).bind fun c => ?_
  cases c.typeNames.lookup m.name with
  | none => exact .refl _
  | some k => exact h k

/-- One step more makes no difference, unless there were too few. -/
theorem extends_resolve : ∀ (steps : ℕ) (chain : List NamedTypeId) (id : NamedTypeId),
    Extends (resolve steps chain id) (resolve (steps + 1) chain id)
  | 0, _, _ => fun _ => .inl rfl
  | steps + 1, chain, id => by
    rw [resolve, resolve]
    refine (Extends.refl _).bind fun s => ?_
    cases s with
    | resolved ty => exact .refl _
    | poisoned => exact .refl _
    | pending dec o =>
      dsimp only
      split
      · exact .refl _
      · exact (extends_complete (extends_findWith fun k => extends_resolve steps _ k) id dec).bind
          fun _ => .refl _

/-- A resolution that did not run out of steps has the same end with any number of steps more. -/
theorem run_resolve_add {steps : ℕ} {chain : List NamedTypeId} {id : NamedTypeId}
    (h : (resolve steps chain id).run c ≠ .error .exhausted) (k : ℕ) :
    (resolve (steps + k) chain id).run c = (resolve steps chain id).run c := by
  induction k with
  | zero => rfl
  | succ k ih =>
    rcases extends_resolve (steps + k) chain id c with hrun | hrun
    · exact absurd (ih ▸ hrun) h
    · exact hrun.trans ih

/-! ## Handles without an entry -/

/-- The action ends as stated; or a condition holds, and the action meets a handle without an entry. -/
def YieldsUnless (P : Prop) (m : Check α) (c : Checker) (Q : α → Checker → Prop) : Prop :=
  Yields m c Q ∨ (P ∧ m.run c = .error .dangling)

theorem YieldsUnless.mono {m : Check α} {Q R : α → Checker → Prop} (h : YieldsUnless P m c Q)
    (hQR : ∀ a c', m.run c = .ok (a, c') → Q a c' → R a c') : YieldsUnless P m c R := by
  rcases h with ⟨a, c', hm, hq⟩ | h
  · exact .inl ⟨a, c', hm, hQR a c' hm hq⟩
  · exact .inr h

theorem YieldsUnless.bind {m : Check α} {f : α → Check β} {Q : β → Checker → Prop} {R : α → Checker → Prop}
    (h : YieldsUnless P m c R)
    (hf : ∀ a c', m.run c = .ok (a, c') → R a c' → YieldsUnless P (f a) c' Q) :
    YieldsUnless P (m >>= f) c Q := by
  rcases h with ⟨a, c', hm, hr⟩ | ⟨hp, hm⟩
  · rcases hf a c' hm hr with h | ⟨hp, h⟩
    · exact .inl (yields_bind.mpr ⟨a, c', hm, h⟩)
    · exact .inr ⟨hp, by rw [run_check_bind, hm]; exact h⟩
  · exact .inr ⟨hp, by rw [run_check_bind, hm]; rfl⟩

theorem yieldsUnless_pure {a : α} {Q : α → Checker → Prop} (h : Q a c) : YieldsUnless P (pure a) c Q :=
  .inl (yields_pure.mpr h)

/-- An operation on a table that has no answer ends the action. -/
theorem run_lift_bind_error {x : Except Breach α} {e : Breach} (h : x = .error e) (f : α → Check β) :
    ((liftM x : Check α) >>= f).run c = .error e := by
  subst h
  rfl

theorem run_get_bind (f : Checker → Check β) : (get >>= f).run c = (f c).run c := rfl

theorem run_setFields_error {r : RecordId} (h : ¬ c.types.Has (.record r)) (fields : List Field) :
    (setFields r fields).run c = .error .dangling := by
  have herror : c.types.setFields r fields = .error .dangling := dif_neg h
  rw [setFields, run_get_bind]
  exact run_lift_bind_error herror _

theorem run_setElement_error {a : ArrayId} (h : ¬ c.types.Has (.array a)) (element : Ty) :
    (setElement a element).run c = .error .dangling := by
  have herror : c.types.setElement a element = .error .dangling := dif_neg h
  rw [setElement, run_get_bind]
  exact run_lift_bind_error herror _

theorem display_error {a : Arena} {t : Ty} (h : ¬ a.Has t) : a.display t = .error .dangling := by
  cases t with
  | record id =>
    have hnone : a.records[id.index]? = none := Array.getElem?_eq_none (Nat.le_of_not_lt h)
    rw [Arena.display, Arena.record, entry, hnone]
    rfl
  | array id =>
    have hnone : a.arrays[id.index]? = none := Array.getElem?_eq_none (Nat.le_of_not_lt h)
    rw [Arena.display, Arena.array, entry, hnone]
    rfl
  | _ => exact absurd trivial h

/-! ## Every resolution ends -/

/-- A state in the middle of a resolution, with a number of steps left that is enough for the declarations
that are neither settled nor in the chain. -/
structure Enough (P : Prop) (steps : ℕ) (chain : List NamedTypeId) (c : Checker) : Prop where
  backed : P ∨ c.Backed
  known : c.Known
  isOpen : c.Open chain
  room : c.pendingNames.length < steps + chain.length

variable {steps : ℕ} {chain : List NamedTypeId} {id : NamedTypeId} {dec : TypeDec} {o : Option Ty} {c' : Checker}

theorem Enough.works (h : Enough P steps chain c) (hw : c.Works chain c') (hb : P ∨ c'.Backed) :
    Enough P steps chain c' where
  backed := hb
  known := hw.known h.known
  isOpen := hw.open h.isOpen
  room := hw.pendingNames_le.trans_lt h.room

theorem yields_namedType_of {s : NamedType} (hs : c.status id = some s) :
    Yields (namedType id) c fun s' c' => s' = s ∧ c' = c := yields_namedType.mpr ⟨s, hs, rfl, rfl⟩

/-- A record that is completed has an entry. -/
theorem yieldsUnless_completeRecord (hb : P ∨ c.Backed) (hs : c.status id = some (.pending dec o))
    (name : String) (fields : List Field) :
    YieldsUnless P (completeRecord id name fields) c fun t c' => P ∨ (c'.Backed ∧ c'.types.Has t) := by
  refine YieldsUnless.bind (.inl (yields_namedType_of hs)) fun s c₁ _ ⟨hs₁, hc₁⟩ => ?_
  subst hs₁ hc₁
  split
  · next r hr =>
    obtain ⟨-, rfl⟩ := NamedType.pending.inj hr
    by_cases hhas : c₁.types.Has (.record r)
    · obtain ⟨b, hset, hput⟩ := Arena.puts_setFields fields (Arena.shape_record_of_has hhas)
      refine .inl (yields_bind.mpr (yields_setFields.mpr ⟨b, hset, yields_pure.mpr ?_⟩))
      exact hb.imp_right fun hb => ⟨hb.withTypes fun _ => hput.has, hput.has_self⟩
    · have hP : P := hb.resolve_right fun hb => hhas (hb id _ hs _ rfl)
      exact .inr ⟨hP, by rw [run_check_bind, run_setFields_error hhas]; rfl⟩
  · have hput := Arena.puts_newRecord (a := c₁.types) name fields
    refine .inl (yields_newRecord.mpr (hb.imp_right fun hb => ?_))
    exact ⟨hb.withTypes fun _ => hput.has, hput.has_self⟩

/-- An array that is completed has an entry. -/
theorem yieldsUnless_completeArray (hb : P ∨ c.Backed) (hs : c.status id = some (.pending dec o))
    (name : String) (element : Ty) :
    YieldsUnless P (completeArray id name element) c fun t c' => P ∨ (c'.Backed ∧ c'.types.Has t) := by
  refine YieldsUnless.bind (.inl (yields_namedType_of hs)) fun s c₁ _ ⟨hs₁, hc₁⟩ => ?_
  subst hs₁ hc₁
  split
  · next a ha =>
    obtain ⟨-, rfl⟩ := NamedType.pending.inj ha
    by_cases hhas : c₁.types.Has (.array a)
    · obtain ⟨b, hset, hput⟩ := Arena.puts_setElement element (Arena.shape_array_of_has hhas)
      refine .inl (yields_bind.mpr (yields_setElement.mpr ⟨b, hset, yields_pure.mpr ?_⟩))
      exact hb.imp_right fun hb => ⟨hb.withTypes fun _ => hput.has, hput.has_self⟩
    · have hP : P := hb.resolve_right fun hb => hhas (hb id _ hs _ rfl)
      exact .inr ⟨hP, by rw [run_check_bind, run_setElement_error hhas]; rfl⟩
  · have hput := Arena.puts_newArray (a := c₁.types) name (some element)
    refine .inl (yields_newArray.mpr (hb.imp_right fun hb => ?_))
    exact ⟨hb.withTypes fun _ => hput.has, hput.has_self⟩

/-- What resolving a name, or completing a declaration, ends in: if all types that are noted have entries,
so has the answer. -/
def Answers (P : Prop) (r : Option Ty) (c : Checker) : Prop := P ∨ (c.Backed ∧ ∀ t ∈ r, c.types.Has t)

theorem Answers.backed {r : Option Ty} (h : Answers P r c) : P ∨ c.Backed := h.imp_right And.left

theorem answers_none (h : P ∨ c.Backed) : Answers P none c := h.imp_right fun h => ⟨h, nofun⟩

theorem answers_some {t : Ty} (h : P ∨ (c.Backed ∧ c.types.Has t)) : Answers P (some t) c :=
  h.imp_right fun ⟨hb, ht⟩ => ⟨hb, fun u hu => by cases hu; exact ht⟩

section

variable {find : Ident → Check (Option Ty)} (hwork : ∀ m, Resolving chain (find m))
  (hfind : ∀ m c, Enough P steps chain c → YieldsUnless P (find m) c (Answers P))
include hwork hfind

theorem yieldsUnless_resolveFields : ∀ (fields : List TypedName) (c : Checker), Enough P steps chain c →
    YieldsUnless P (resolveFields find fields) c fun _ c' => Enough P steps chain c'
  | [], _, h => yieldsUnless_pure h
  | f :: fs, c, h => by
    refine (hfind f.typeName c h).bind fun _ c₁ hrun hr => ?_
    refine (yieldsUnless_resolveFields fs c₁ (h.works (hwork _ hrun) hr.backed)).bind fun _ _ _ h₂ => ?_
    exact yieldsUnless_pure h₂

theorem yieldsUnless_complete (h : Enough P steps chain c) (hid : id ∈ chain) :
    YieldsUnless P (complete find id dec) c (Answers P) := by
  unfold complete
  cases dec.body with
  | synonym target => exact hfind target c h
  | record fields =>
    refine (yieldsUnless_resolveFields hwork hfind fields c h).bind fun fields c₁ _ h₁ => ?_
    obtain ⟨_, _, hs⟩ := h₁.isOpen id hid
    cases fields with
    | none => exact yieldsUnless_pure (answers_none h₁.backed)
    | some fields =>
      exact (yieldsUnless_completeRecord h₁.backed hs _ fields).bind fun _ _ _ ht =>
        yieldsUnless_pure (answers_some ht)
  | array element =>
    refine (hfind element c h).bind fun element c₁ hrun hr => ?_
    obtain ⟨_, _, hs⟩ := (h.works (hwork _ hrun) hr.backed).isOpen id hid
    cases element with
    | none => exact yieldsUnless_pure (answers_none hr.backed)
    | some element =>
      exact (yieldsUnless_completeArray hr.backed hs _ element).bind fun _ _ _ ht =>
        yieldsUnless_pure (answers_some ht)

end

theorem yieldsUnless_settle {s : NamedType} {r : Option Ty} (hs : c.status id = some s) (hr : Answers P r c)
    (name : String) :
    YieldsUnless P (settle id name r) c fun _ c' => Answers P r c' ∧ c'.status id = some (.outcome r) := by
  cases r with
  | none =>
    refine .inl (yields_settle_none hs name ⟨answers_none ?_, Checker.status_mark_self hs⟩)
    exact hr.backed.imp_right fun hb => hb.mark nofun
  | some t =>
    by_cases ht : c.types.Has t
    · refine .inl (yields_settle hs ht name fun text => ⟨answers_some ?_, ?_⟩)
      · exact hr.backed.imp_right fun hb => ⟨hb.mark fun u hu => by cases hu; exact ht, ht⟩
      · exact Checker.status_mark_self (c := c.note _) hs
    · have hP : P := hr.resolve_right fun h => ht (h.2 t rfl)
      refine .inr ⟨hP, ?_⟩
      rw [settle, run_get_bind]
      exact run_lift_bind_error (display_error ht) _

theorem yieldsUnless_findWith {f : NamedTypeId → Check (Option Ty)} (h : Enough P steps chain c)
    (hf : ∀ k, (∃ s, c.status k = some s) → YieldsUnless P (f k) c (Answers P)) (m : Ident) :
    YieldsUnless P (findWith f m) c (Answers P) := by
  refine YieldsUnless.bind (.inl (yields_get.mpr ⟨rfl, rfl⟩ : Yields get c fun s c' => s = c ∧ c' = c))
    fun s c₁ _ ⟨hs, hc⟩ => ?_
  subst hs hc
  cases hl : c₁.typeNames.lookup m.name with
  | none => exact .inl (yields_fail.mpr (answers_none h.backed))
  | some k => exact hf k (h.known m.name k hl)

/-- **With enough steps the resolution of a name ends**, and the name is settled unless it is being
resolved already. -/
theorem yieldsUnless_resolve : ∀ (steps : ℕ) {chain : List NamedTypeId} {id : NamedTypeId} {c : Checker},
    chain.Nodup → Enough P steps chain c → (∃ s, c.status id = some s) →
    YieldsUnless P (resolve steps chain id) c fun r c' =>
      Answers P r c' ∧ (id ∉ chain → c'.status id = some (.outcome r))
  | 0, chain, _, c, hd, h, _ => by
    have hle := h.isOpen.length_le hd
    have hroom := h.room
    omega
  | steps + 1, chain, id, c, hd, h, hid => by
    obtain ⟨s, hs⟩ := hid
    rw [resolve]
    refine YieldsUnless.bind (.inl (yields_namedType_of hs)) fun s' c₁ _ hread => ?_
    obtain ⟨hs₁, hc₁⟩ := hread
    subst hs₁ hc₁
    cases s' with
    | resolved t =>
      have ht : P ∨ (c₁.Backed ∧ c₁.types.Has t) := h.backed.imp_right fun hb => ⟨hb, hb id _ hs t rfl⟩
      exact yieldsUnless_pure ⟨answers_some ht, fun _ => hs⟩
    | poisoned => exact yieldsUnless_pure ⟨answers_none h.backed, fun _ => hs⟩
    | pending dec o =>
      dsimp only
      split
      · next hmem =>
        refine .inl ((yields_meetAgain h.isOpen hmem hs).mono fun r c' hmeet => ⟨?_, absurd hmem⟩)
        cases hmeet with
        | resolved ht => exact answers_some (h.backed.imp_right fun hb => ⟨hb, hb id _ ht _ rfl⟩)
        | poisoned => exact answers_none h.backed
        | again _ _ _ hout => exact answers_some (h.backed.imp_right fun hb => hb.handsOut hout)
        | endless => exact answers_none h.backed
      · next hmem =>
        have hd' : (chain ++ [id]).Nodup := List.concat_eq_append ▸ hd.concat hmem
        have hmem' : id ∈ chain ++ [id] := List.mem_append_right _ (List.mem_singleton_self id)
        have h' : Enough P steps (chain ++ [id]) c₁ :=
          ⟨h.backed, h.known, h.isOpen.concat hs, by
            have := h.room
            rw [List.length_append, List.length_singleton]
            omega⟩
        have hwork : ∀ m, Resolving (chain ++ [id]) (findWith (resolve steps (chain ++ [id])) m) :=
          fun m => resolving_findWith (fun k => resolving_resolve steps (chain ++ [id]) k) m
        have hfind : ∀ m c, Enough P steps (chain ++ [id]) c →
            YieldsUnless P (findWith (resolve steps (chain ++ [id])) m) c (Answers P) := fun m c hc =>
          yieldsUnless_findWith hc (fun k hk => (yieldsUnless_resolve steps hd' hc hk).mono fun _ _ _ hr => hr.1) m
        refine (yieldsUnless_complete hwork hfind h' hmem').bind fun r c₂ hrun hr => ?_
        obtain ⟨_, _, hs₂⟩ := (resolving_complete hwork hrun).pending id hmem' ⟨dec, o, hs⟩
        refine (yieldsUnless_settle hs₂ hr dec.name.name).bind fun _ c₃ _ hset => ?_
        exact yieldsUnless_pure ⟨hset.1, fun _ => hset.2⟩

/-- With enough steps, and with any more, a resolution has one outcome. -/
theorem run_resolve_eq {steps steps' : ℕ} (hd : chain.Nodup) (h : Enough (¬ c.Backed) steps chain c)
    (hid : ∃ s, c.status id = some s) (hle : steps ≤ steps') :
    (resolve steps' chain id).run c = (resolve steps chain id).run c := by
  obtain ⟨k, rfl⟩ := Nat.exists_eq_add_of_le hle
  refine run_resolve_add (fun hrun => ?_) k
  obtain ⟨_, _, hok, -⟩ | ⟨-, herror⟩ := yieldsUnless_resolve steps hd h hid
  · rw [hrun] at hok
    cases hok
  · rw [hrun] at herror
    cases herror

/-- The steps that are allowed for the resolution of a name are enough. -/
theorem run_typeAt_ne_exhausted (hknown : c.Known) (hid : ∃ s, c.status id = some s) :
    (typeAt id).run c ≠ .error .exhausted := by
  have henough : Enough (¬ c.Backed) (c.namedTypes.size + 1) [] c :=
    ⟨(Classical.em c.Backed).symm, hknown, nofun, Nat.lt_succ_of_le c.length_pendingNames_le⟩
  rw [typeAt, run_get_bind]
  intro hrun
  obtain ⟨_, _, hok, -⟩ | ⟨-, herror⟩ := yieldsUnless_resolve _ List.nodup_nil henough hid
  · rw [hrun] at hok
    cases hok
  · rw [hrun] at herror
    cases herror

/-- The state after a resolution that ended. -/
theorem ended_of_run {steps : ℕ} {r : Option Ty} (ho : c.Open chain)
    (hrun : (resolve steps chain id).run c = .ok (r, c'))
    (hr : id ∉ chain → c'.status id = some (.outcome r)) : c.Ended chain id r c' where
  works := resolving_resolve steps chain id hrun
  settled k s hs hn := (resolving_resolve steps chain id hrun).settled k s hs fun dec o hp =>
    hn ⟨dec, o, hp ▸ hs⟩
  pending _ hp := (resolving_resolve steps chain id hrun).pending_of hp
  isOpen := (resolving_resolve steps chain id hrun).open ho
  answered := hr

/-- Where a resolution ended, so did the one with a stack. -/
theorem run_resolveOn {steps : ℕ} {r : Option Ty} (hd : chain.Nodup) (ho : c.Open chain)
    (hrun : (resolve steps chain id).run c = .ok (r, c')) :
    ∃ more, (∀ before, ((resolveOn steps id).run ⟨chain, before⟩).run c =
        .ok ((r, ⟨chain, before ++ more⟩), c')) ∧
      ∀ now ∈ more, c.Moment chain now ∧ now.2.length ≤ now.1.pendingNames.length := by
  obtain ⟨e, hm, -⟩ | ⟨_, _, more, hm, hm', -, hmore⟩ := onStack_resolve steps id hd ho
  · rw [hm] at hrun
    cases hrun
  · rw [hm] at hrun
    cases hrun
    exact ⟨more, hm', fun now hnow => ⟨hmore now hnow, (hmore now hnow).length_le⟩⟩

/-- **A resolution has one outcome**, whatever the number of steps, as long as there are more than
declarations that are neither settled nor being resolved. It comes to an end, unless the state notes a type
that has no entry; and then its stack is as it was, and never held more than declarations that are not
settled. -/
theorem exists_outcome_resolve (c : Checker) (chain : List NamedTypeId) (id : NamedTypeId) (hknown : c.Known)
    (hid : ∃ s, c.status id = some s) (hd : chain.Nodup) (ho : c.Open chain) :
    ∃ outcome, (∀ steps, c.pendingNames.length < steps + chain.length →
        (resolve steps chain id).run c = outcome) ∧
      ((outcome = .error .dangling ∧ ¬ c.Backed) ∨ ∃ r c', outcome = .ok (r, c') ∧ c.Ended chain id r c' ∧
        ∀ steps, c.pendingNames.length < steps + chain.length → ∃ more, (∀ before,
          ((resolveOn steps id).run ⟨chain, before⟩).run c = .ok ((r, ⟨chain, before ++ more⟩), c')) ∧
          ∀ now ∈ more, c.Moment chain now ∧ now.2.length ≤ now.1.pendingNames.length) := by
  have hfull := ho.length_le hd
  -- the least number of steps that is enough
  obtain ⟨least, hleast⟩ : ∃ n, n + chain.length = c.pendingNames.length + 1 :=
    ⟨c.pendingNames.length + 1 - chain.length, by omega⟩
  have henough : Enough (¬ c.Backed) least chain c :=
    ⟨(Classical.em c.Backed).symm, hknown, ho, by omega⟩
  have hsame : ∀ steps, c.pendingNames.length < steps + chain.length →
      (resolve steps chain id).run c = (resolve least chain id).run c := fun steps hlt =>
    run_resolve_eq hd henough hid (by omega)
  refine ⟨(resolve least chain id).run c, hsame, ?_⟩
  obtain ⟨r, c', hrun, -, hr⟩ | ⟨hunbacked, hrun⟩ := yieldsUnless_resolve least hd henough hid
  · exact .inr ⟨r, c', hrun, ended_of_run ho hrun hr, fun steps hlt =>
      run_resolveOn hd ho ((hsame steps hlt).trans hrun)⟩
  · exact .inl ⟨hrun, hunbacked⟩

/-- The names of `type a = {b: b}`, `type b = array of c`, `type c = a` and `type d = d` are bound. -/
def cyclicTypes : Checker :=
  [.record [⟨⟨"b", .unknown⟩, ⟨"b", .unknown⟩⟩], .array ⟨"c", .unknown⟩, .synonym ⟨"a", .unknown⟩,
    .synonym ⟨"d", .unknown⟩].zip ["a", "b", "c", "d"] |>.foldl
      (fun c (body, name) => c.declare ⟨⟨name, .unknown⟩, body, .unknown⟩) .initial

/-- While `a` is being resolved, `c` is found to stand for the record that is handed out for `a`. -/
theorem cyclicTypes_exists_outcome_resolve :
    ∃ c', (∀ steps, 4 < steps + 1 → (resolve steps [⟨2⟩] ⟨4⟩).run cyclicTypes = .ok (some (.record ⟨0⟩), c')) ∧
      cyclicTypes.Ended [⟨2⟩] ⟨4⟩ (some (.record ⟨0⟩)) c' := by
  have hinitial : Checker.initial.Known := Checker.initial_atRest.known
  have hknown : cyclicTypes.Known := (((hinitial.declare _).declare _).declare _).declare _
  have hopen : cyclicTypes.Open [⟨2⟩] := by
    intro k hk
    obtain rfl := List.mem_singleton.mp hk
    exact ⟨_, _, rfl⟩
  obtain ⟨outcome, hsame, hends⟩ :=
    exists_outcome_resolve cyclicTypes [⟨2⟩] ⟨4⟩ hknown ⟨_, rfl⟩ (List.nodup_singleton _) hopen
  have hpending : cyclicTypes.pendingNames.length = 4 := by decide +kernel
  have hanswer : outcome.map Prod.fst = .ok (some (.record ⟨0⟩)) := by
    rw [← hsame 4 (by rw [hpending]; decide)]
    decide +kernel
  rw [hpending] at hsame
  obtain ⟨rfl, -⟩ | ⟨r, c', rfl, hended, -⟩ := hends
  · cases hanswer
  · obtain rfl : r = some (.record ⟨0⟩) := Except.ok.inj hanswer
    exact ⟨c', hsame, hended⟩

end Check

end TigerCheck
