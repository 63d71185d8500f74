import TigerCheck.Proofs.Typing.Renaming
import TigerCheck.Proofs.Typing.System
import TigerCheck.Proofs.Walk.Steps

/-!
# What a check says about typing

As long as nothing was reported, the tables of the checker are an image of the declared types, and its
scopes are an image of the environments. A check ends in one of two ways: it reports something, and there
is no typing; or it reports nothing, and what it found is the only typing, whatever the table of declared
types holds besides.

* `Checker.valueTy`, `Checker.signed`, `Checker.env`: the environments that the scopes stand for.
* `Checker.Fine`: nothing was reported so far.
* `Judged`: the two ways in which a check ends. **`Judged.bind`**: one check after another.
* `ExpJudged`, `VarJudged`: the statement for one expression and for one variable.
-/

namespace TigerCheck

open Check

/-! ## The environments of a state -/

namespace Checker

variable {c c' : Checker} {ctx : Context} {ν ν' : Renaming} {n : ℕ} {name : String} {s : Signature}
  {t : Ty}

/-- The type of the variable that a name is bound to. -/
def valueTy (c : Checker) (name : String) : Option Ty := do
  let v ← c.values.lookup name
  let slot ← c.frames.vars[v.index]?
  slot.ty

/-- The signature of the function that a name is bound to, as its callers write it. -/
def signed (c : Checker) (name : String) : Option Signature := do
  let id ← c.functions.lookup name
  let p ← c.frames.functions[id.index]?
  let s ← p.signature
  return ⟨s.params.drop p.hiddenParams, s.result⟩

theorem valueTy_eq_some_iff : c.valueTy name = some t ↔
    ∃ v s, c.values.lookup name = some v ∧ c.frames.vars[v.index]? = some s ∧ s.ty = some t := by
  simp only [valueTy, bind, Option.bind_eq_some_iff]
  constructor
  · rintro ⟨v, hv, s, hs, ht⟩
    exact ⟨v, s, hv, hs, ht⟩
  · rintro ⟨v, s, hv, hs, ht⟩
    exact ⟨v, hv, s, hs, ht⟩

theorem signed_eq_some_iff : c.signed name = some s ↔ Rule.Signed c name s := by
  simp only [signed, bind, Option.bind_eq_some_iff, Rule.Signed, pure]
  constructor
  · rintro ⟨id, hid, p, hp, sig, hsig, h⟩
    exact ⟨id, p, sig, hid, hp, hsig, (Option.some.inj h).symm⟩
  · rintro ⟨id, p, sig, hid, hp, hsig, rfl⟩
    exact ⟨id, hid, p, hp, sig, hsig, rfl⟩

/-- The environments that the scopes of a state stand for, under new names for the types. -/
def env (c : Checker) (ν : Renaming) : Env where
  values name := (c.valueTy name).map (·.rename ν)
  functions name := (c.signed name).map (·.rename ν)
  types name := (c.typeNamed name).map (·.rename ν)

theorem env_values : (c.env ν).values name = (c.valueTy name).map (·.rename ν) := rfl

theorem env_functions : (c.env ν).functions name = (c.signed name).map (·.rename ν) := rfl

theorem env_types : (c.env ν).types name = (c.typeNamed name).map (·.rename ν) := rfl

theorem Sound.has_valueTy (hc : c.Sound) (h : c.valueTy name = some t) : c.types.Has t := by
  obtain ⟨v, s, -, hs, ht⟩ := valueTy_eq_some_iff.mp h
  exact hc.slots v s t hs ht

theorem valueTy_eq (hs : ctx.Sits c) (hg : c.Extends c') (hv : c'.values = c.values)
    (name : String) : c'.valueTy name = c.valueTy name := by
  rw [valueTy, valueTy, hv]
  cases hl : c.values.lookup name with
  | none => rfl
  | some v =>
    obtain ⟨s, hs', -⟩ := hs.values name v hl
    simp only [bind, Option.bind_some, hs', hg.frames.slot v s hs']

theorem signed_eq (hc : c.Sound) (hg : c.Extends c') (hf : c'.functions = c.functions)
    (name : String) : c'.signed name = c.signed name := by
  rw [signed, signed, hf]
  cases hl : c.functions.lookup name with
  | none => rfl
  | some id =>
    obtain ⟨p, hp⟩ := hc.functions name id hl
    simp only [bind, Option.bind_some, hp, hg.frames.function id p hp]

theorem map_rename_eq {o : Option Ty} (hag : ν.Agrees ν' c.types)
    (ho : ∀ t, o = some t → c.types.Has t) : o.map (·.rename ν') = o.map (·.rename ν) :=
  Option.map_congr fun t ht => hag.rename_eq (ho t ht)

theorem map_signed_rename_eq (hc : c.Sound) (hag : ν.Agrees ν' c.types) (name : String) :
    (c.signed name).map (·.rename ν') = (c.signed name).map (·.rename ν) := by
  refine Option.map_congr fun s hs => ?_
  obtain ⟨hp, hr⟩ := has_signed hc (signed_eq_some_iff.mp hs)
  exact hag.signature_eq hp hr

/-- **Behind a part of the program the environments are as they were before it.** -/
theorem Walked.env_eq (hw : c.Walked c') (hc : c.Sound) (hs : ctx.Sits c)
    (hag : ν.Agrees ν' c.types) : c'.env ν' = c.env ν := by
  have hvalues : (c'.env ν').values = (c.env ν).values := by
    funext name
    rw [env_values, env_values, valueTy_eq hs hw.grown hw.scopes.values_eq]
    exact map_rename_eq hag fun t ht => hc.has_valueTy ht
  have hfunctions : (c'.env ν').functions = (c.env ν).functions := by
    funext name
    rw [env_functions, env_functions, signed_eq hc hw.grown hw.scopes.functions_eq]
    exact map_signed_rename_eq hc hag name
  have htypes : (c'.env ν').types = (c.env ν).types := by
    funext name
    rw [env_types, env_types, hc.rest.typeNamed_eq hw.grown hw.scopes.typeNames_eq]
    exact map_rename_eq hag fun t ht => hc.rest.has_typeNamed ht
  exact Env.ext hvalues hfunctions htypes

/-! ## States without faults -/

/-- Nothing was reported so far: no type failed, every array has an element, and every name in scope
stands for something. The types have got their names below a bound. -/
structure Fine (c : Checker) (ν : Renaming) (n : ℕ) : Prop where
  clean : c.Clean
  elements : ∀ t e, c.types.shape t = some (.array e) → e.element ≠ none
  fits : ν.Fits c.types n
  values : ∀ name v, c.values.lookup name = some v → ∃ t, c.valueTy name = some t
  functions : ∀ name f, c.functions.lookup name = some f → ∃ s, c.signed name = some s

theorem Fine.element?_ne_none (h : c.Fine ν n) {id : ArrayId} (ht : c.types.Has (.array id)) :
    ∃ e, c.types.element? (.array id) = some e := by
  have hs := Arena.shape_array_of_has ht
  refine Option.ne_none_iff_exists'.mp fun hnone => ?_
  rw [Arena.element?, hs] at hnone
  exact h.elements _ _ hs hnone

/-- With the scopes of an earlier state without faults a state is without faults if its tables are. -/
theorem Fine.rescope {c'' : Checker} {n' : ℕ} (h : c.Fine ν n) (hc : c.Sound) (hs : ctx.Sits c)
    (hw : c.Walked c'') (h' : c'.Fine ν' n') (htypes : c''.types = c'.types)
    (hnamed : c''.namedTypes = c'.namedTypes) : c''.Fine ν' n' where
  clean id hid := by
    rw [status, hnamed] at hid
    exact h'.clean id hid
  elements := by
    rw [htypes]
    exact h'.elements
  fits := by
    rw [htypes]
    exact h'.fits
  values name v hv := by
    rw [hw.scopes.values_eq] at hv
    rw [valueTy_eq hs hw.grown hw.scopes.values_eq]
    exact h.values name v hv
  functions name f hf := by
    rw [hw.scopes.functions_eq] at hf
    rw [signed_eq hc hw.grown hw.scopes.functions_eq]
    exact h.functions name f hf

/-- A variable is bound: its slot is in the frames, and scopes that differ in its name only are open. -/
structure BindsValue (c : Checker) (name : String) (t : Ty) (frames : FrameTable)
    (values : Scopes VarId) : Prop where
  grows : c.frames.Grows frames
  found : ∃ (v : VarId) (s : Slot), values.lookup name = some v ∧
    frames.vars[v.index]? = some s ∧ s.ty = some t
  others : ∀ x, x ≠ name → values.lookup x = c.values.lookup x

namespace BindsValue

variable {frames : FrameTable} {values : Scopes VarId}

theorem grown (h : c.BindsValue name t frames values) :
    c.Extends { c with frames, values } :=
  ⟨fun _ _ h => h, fun _ _ h => h, h.grows, Nat.le_refl _, rfl⟩

theorem valueTy_self (h : c.BindsValue name t frames values) :
    valueTy { c with frames, values } name = some t := by
  obtain ⟨v, s, hv, hs, ht⟩ := h.found
  exact valueTy_eq_some_iff.mpr ⟨v, s, hv, hs, ht⟩

theorem valueTy_other (h : c.BindsValue name t frames values) (hs : ctx.Sits c) {x : String}
    (hx : x ≠ name) : valueTy { c with frames, values } x = c.valueTy x := by
  rw [valueTy, valueTy, h.others x hx]
  cases hl : c.values.lookup x with
  | none => rfl
  | some v =>
    obtain ⟨s, hs', -⟩ := hs.values x v hl
    simp only [bind, Option.bind_some, hs', h.grows.slot v s hs']

/-- **Behind the binding of a variable the environment has it.** -/
theorem env_eq (h : c.BindsValue name t frames values) (hc : c.Sound) (hs : ctx.Sits c)
    (ν : Renaming) :
    env { c with frames, values } ν = (c.env ν).bindValue name (t.rename ν) := by
  have hvalues : (env { c with frames, values } ν).values =
      ((c.env ν).bindValue name (t.rename ν)).values := by
    funext x
    change (valueTy { c with frames, values } x).map _ = Function.update (c.env ν).values name _ x
    by_cases hx : x = name
    · subst hx
      rw [h.valueTy_self, Function.update_self, Option.map_some]
    · rw [h.valueTy_other hs hx, Function.update_of_ne hx]
      rfl
  have hfunctions : (env { c with frames, values } ν).functions = (c.env ν).functions := by
    funext x
    change (signed { c with frames, values } x).map _ = (c.signed x).map _
    rw [signed_eq hc h.grown rfl]
  exact Env.ext hvalues hfunctions rfl

theorem fine (h : c.BindsValue name t frames values) (hc : c.Sound) (hs : ctx.Sits c)
    (hf : c.Fine ν n) : Fine { c with frames, values } ν n where
  clean := hf.clean
  elements := hf.elements
  fits := hf.fits
  values x v hv := by
    by_cases hx : x = name
    · exact ⟨t, hx ▸ h.valueTy_self⟩
    · rw [h.valueTy_other hs hx]
      exact hf.values x v (h.others x hx ▸ hv)
  functions x f hl := by
    rw [signed_eq hc h.grown rfl]
    exact hf.functions x f hl

end BindsValue

end Checker

/-! ## Judgements -/

/-- How a check ends. Either something was reported, and whatever the table of declared types is, as long
as it holds the types so far, there is no typing. Or nothing was reported, and there is exactly one
typing, provided that the table holds the types that came up meanwhile as well. -/
inductive Judged {α : Type} (c : Checker) (ν : Renaming) (c' : Checker) (n' : ℕ)
    (J : Arena → α → Prop) (A : Renaming → α → Prop) : Prop where
  | wrong : c.diagnostics.size < c'.diagnostics.size →
      (∀ b, c.types.Embeds ν b → ∀ x, ¬ J b x) → Judged c ν c' n' J A
  | right {ν' : Renaming} {x : α} : c'.diagnostics.size = c.diagnostics.size →
      ν.Agrees ν' c.types → c'.Fine ν' n' → A ν' x →
      (∀ b, c.types.Embeds ν b → ∀ y, J b y ↔ c'.types.Embeds ν' b ∧ y = x) → Judged c ν c' n' J A

section

variable {α β : Type} {c c₁ c' : Checker} {ν : Renaming} {n n₁ n' : ℕ} {J J' : Arena → α → Prop}
  {A A' : Renaming → α → Prop}

theorem Judged.of_iff (h : Judged c ν c' n' J A) (hJ : ∀ b x, J' b x ↔ J b x) :
    Judged c ν c' n' J' A := by
  cases h with
  | wrong hlt hno => exact .wrong hlt fun b hb x hx => hno b hb x ((hJ b x).mp hx)
  | right hq hag hf ha hiff =>
    exact .right hq hag hf ha fun b hb y => (hJ b y).trans (hiff b hb y)

theorem Judged.imp (h : Judged c ν c' n' J A) (hA : ∀ ν' x, A ν' x → A' ν' x) :
    Judged c ν c' n' J A' := by
  cases h with
  | wrong hlt hno => exact .wrong hlt hno
  | right hq hag hf ha hiff => exact .right hq hag hf (hA _ _ ha) hiff

/-- What is found may be read off what was checked. -/
theorem Judged.map {J : Arena → β → Prop} {B : Renaming → β → Prop} {f : β → α}
    (h : Judged c ν c' n' J B)
    (hA : ∀ ν' x, ν.Agrees ν' c.types → c'.Fine ν' n' → B ν' x → A ν' (f x)) :
    Judged c ν c' n' (fun b y => ∃ x, J b x ∧ y = f x) A := by
  cases h with
  | wrong hlt hno =>
    refine .wrong hlt fun b hb y hy => ?_
    obtain ⟨x, hx, -⟩ := hy
    exact hno b hb x hx
  | @right ν' x hq hag hf ha hiff =>
    refine .right hq hag hf (hA ν' x hag hf ha) fun b hb y => ?_
    constructor
    · rintro ⟨z, hz, rfl⟩
      obtain ⟨hb', rfl⟩ := (hiff b hb z).mp hz
      exact ⟨hb', rfl⟩
    · rintro ⟨hb', rfl⟩
      exact ⟨x, (hiff b hb x).mpr ⟨hb', rfl⟩, rfl⟩

/-- **One check after another**: there is a typing of the whole if there are typings of both parts. -/
theorem Judged.bind {J₁ : Arena → β → Prop} {A₁ : Renaming → β → Prop} {J₂ : β → Arena → α → Prop}
    (h₁ : Judged c ν c₁ n₁ J₁ A₁) (hg₁ : c.Extends c₁) (hclosed : c₁.types.Closed)
    (hg₂ : c₁.Extends c')
    (h₂ : ∀ ν₁ x, A₁ ν₁ x → ν.Agrees ν₁ c.types → c₁.Fine ν₁ n₁ → Judged c₁ ν₁ c' n' (J₂ x) A) :
    Judged c ν c' n' (fun b y => ∃ x, J₁ b x ∧ J₂ x b y) A := by
  cases h₁ with
  | wrong hlt hno =>
    refine .wrong (Nat.lt_of_lt_of_le hlt hg₂.diagnostics_le) fun b hb y hy => ?_
    obtain ⟨x, hx, -⟩ := hy
    exact hno b hb x hx
  | @right ν₁ x hq hag hf ha hiff =>
    cases h₂ ν₁ x ha hag hf with
    | wrong hlt hno =>
      refine .wrong (hq ▸ hlt) fun b hb y hy => ?_
      obtain ⟨x', hx, hy⟩ := hy
      obtain ⟨hb₁, rfl⟩ := (hiff b hb x').mp hx
      exact hno b hb₁ y hy
    | @right ν₂ z hq₂ hag₂ hf₂ ha₂ hiff₂ =>
      refine .right (hq₂.trans hq) (hag.trans hag₂ fun _ => hg₁.has) hf₂ ha₂ fun b hb y => ?_
      constructor
      · rintro ⟨x', hx, hy⟩
        obtain ⟨hb₁, rfl⟩ := (hiff b hb x').mp hx
        exact (hiff₂ b hb₁ y).mp hy
      · intro h
        have hb₁ := h.1.mono hag₂ hclosed hg₂.shape
        exact ⟨x, (hiff b hb x).mpr ⟨hb₁, rfl⟩, (hiff₂ b hb₁ y).mpr h⟩

/-- A condition that is checked before the rest. -/
theorem Judged.and {P : Arena → Prop} {q : Prop}
    (h₁ : Judged c ν c₁ n₁ (fun b (_ : Unit) => P b) fun _ _ => q) (hg₁ : c.Extends c₁)
    (hclosed : c₁.types.Closed) (hg₂ : c₁.Extends c')
    (h₂ : ∀ ν₁, q → ν.Agrees ν₁ c.types → c₁.Fine ν₁ n₁ → Judged c₁ ν₁ c' n' J A) :
    Judged c ν c' n' (fun b y => P b ∧ J b y) A :=
  (h₁.bind hg₁ hclosed hg₂ fun ν₁ _ hq => h₂ ν₁ hq).of_iff fun b y => by simp

/-- A check that leaves the state alone, with one typing. -/
theorem Judged.same {x : α} (hf : c.Fine ν n) (hA : A ν x)
    (hJ : ∀ b, c.types.Embeds ν b → ∀ y, J b y ↔ y = x) : Judged c ν c n J A :=
  .right rfl (.refl ν c.types) hf hA fun b hb y => (hJ b hb y).trans (and_iff_right hb).symm

/-- Only reports and types matter at the beginning of a check, and besides them what is in scope at its
end. -/
theorem Judged.within {d d' : Checker} (h : Judged c ν c' n' J A)
    (hq : d.diagnostics.size = c.diagnostics.size) (ht : d.types = c.types)
    (hq' : d'.diagnostics.size = c'.diagnostics.size) (ht' : d'.types = c'.types)
    (hf : ∀ ν', c'.Fine ν' n' → d'.Fine ν' n') : Judged d ν d' n' J A := by
  cases h with
  | wrong hlt hno =>
    refine .wrong (by rw [hq, hq']; exact hlt) ?_
    rw [ht]
    exact hno
  | right hsize hag hf' ha hiff =>
    refine .right (by rw [hq, hq']; exact hsize) ?_ (hf _ hf') ha ?_
    · rw [ht]
      exact hag
    · rw [ht, ht']
      exact hiff

/-- **A rule ends in what it gives, or reports that there is nothing**, if no part is missing. -/
theorem Judges.judged {P : β → Prop} {missing : Prop} {r : Option β} (view : Renaming → β → α)
    (h : Judges c P missing r c') (hm : ¬ missing) (hf : c.Fine ν n)
    (hJ : ∀ b, c.types.Embeds ν b → ∀ y, J b y ↔ ∃ t, P t ∧ y = view ν t) :
    Judged c ν c' n J fun ν' x => ∃ t, r = some t ∧ x = view ν' t := by
  cases h with
  | @found t hp =>
    refine .same hf ⟨t, rfl, rfl⟩ fun b hb y => ?_
    rw [hJ b hb y]
    simp only [hp, exists_eq_left]
  | missing h => exact absurd h hm
  | refused hno _ hlt =>
    refine .wrong hlt fun b hb x hx => ?_
    obtain ⟨t, ht, -⟩ := (hJ b hb x).mp hx
    exact hno t ht

/-- A rule that says yes or no. -/
theorem Decides.judged {P missing : Prop} {r : Bool} {J : Arena → Prop}
    (h : Decides c P missing r c') (hm : ¬ missing) (hf : c.Fine ν n)
    (hJ : ∀ b, c.types.Embeds ν b → (J b ↔ P)) :
    Judged c ν c' n (fun b (_ : Unit) => J b) fun _ _ => r = true := by
  cases h with
  | yes hp => exact .same (x := ()) hf rfl fun b hb y => iff_of_true ((hJ b hb).mpr hp) rfl
  | missing h => exact absurd h hm
  | refused hno _ hlt => exact .wrong hlt fun b hb _ hx => hno ((hJ b hb).mp hx)

end

/-! ## Statements -/

/-- What an expression or a variable was found to be: the type in its cell, under new names. -/
def Answers (ty : Option Ty) (ν : Renaming) (x : Ty) : Prop := ∃ t, ty = some t ∧ x = t.rename ν

/-- **The check of an expression decides its typing**, wherever the expression stands. -/
def ExpJudged (e : Exp) : Prop :=
  ∀ {ctx : Context} {c c' : Checker} {ν : Renaming} {n : ℕ} {e' : Exp}, c.Sound → ctx.Sits c →
    c.Fine ν n → (checkExp ctx e).run c = .ok (e', c') →
    Judged c ν c' (n + e.typeDecs) (fun b => e.Typed b (c.env ν) n ctx.inLoop) (Answers e'.ty)

/-- The check of a variable decides its typing. -/
def VarJudged (v : Var) : Prop :=
  ∀ {ctx : Context} {c c' : Checker} {ν : Renaming} {n : ℕ} {v' : Var}, c.Sound → ctx.Sits c →
    c.Fine ν n → (checkVar ctx v).run c = .ok (v', c') →
    Judged c ν c' (n + v.typeDecs) (fun b => v.Typed b (c.env ν) n ctx.inLoop) (Answers v'.ty)

section

variable {ctx : Context} {c c₁ c' : Checker} {ν : Renaming} {n n' : ℕ} {e e' : Exp} {v v' : Var}
  {name : Ident} {ty : Option Ty}

/-- A rule that gives a type. -/
theorem Judges.answers {P : Ty → Prop} {missing : Prop} {J : Arena → Ty → Prop}
    (h : Judges c P missing ty c') (hm : ¬ missing) (hf : c.Fine ν n)
    (hJ : ∀ b, c.types.Embeds ν b → ∀ y, J b y ↔ ∃ t, P t ∧ y = t.rename ν) :
    Judged c ν c' n J (Answers ty) := h.judged (fun ν t => t.rename ν) hm hf hJ

variable {α : Type} {J : Ty → Arena → α → Prop} {A : Renaming → α → Prop}

/-- **First an expression is checked, then the rest.** -/
theorem ExpJudged.bind (he : ExpJudged e) (hc : c.Sound) (hs : ctx.Sits c) (hf : c.Fine ν n)
    (h : (checkExp ctx e).run c = .ok (e', c₁)) (hg : c₁.Extends c')
    (hrest : ∀ ν₁ t, e'.ty = some t → ν.Agrees ν₁ c.types → c₁.env ν₁ = c.env ν →
      c₁.Fine ν₁ (n + e.typeDecs) → Judged c₁ ν₁ c' n' (J (t.rename ν₁)) A) :
    Judged c ν c' n' (fun b y => ∃ x, e.Typed b (c.env ν) n ctx.inLoop x ∧ J x b y) A := by
  obtain ⟨hw, -⟩ := walked_exp hc hs h
  refine (he hc hs hf h).bind hw.grown hw.sound.rest.closed hg fun ν₁ x hx hag hf₁ => ?_
  obtain ⟨t, ht, rfl⟩ := hx
  exact hrest ν₁ t ht hag (hw.env_eq hc hs hag) hf₁

theorem VarJudged.bind (hv : VarJudged v) (hc : c.Sound) (hs : ctx.Sits c) (hf : c.Fine ν n)
    (h : (checkVar ctx v).run c = .ok (v', c₁)) (hg : c₁.Extends c')
    (hrest : ∀ ν₁ t, v'.ty = some t → ν.Agrees ν₁ c.types → c₁.env ν₁ = c.env ν →
      c₁.Fine ν₁ (n + v.typeDecs) → Judged c₁ ν₁ c' n' (J (t.rename ν₁)) A) :
    Judged c ν c' n' (fun b y => ∃ x, v.Typed b (c.env ν) n ctx.inLoop x ∧ J x b y) A := by
  obtain ⟨hw, -⟩ := walked_var hc hs h
  refine (hv hc hs hf h).bind hw.grown hw.sound.rest.closed hg fun ν₁ x hx hag hf₁ => ?_
  obtain ⟨t, ht, rfl⟩ := hx
  exact hrest ν₁ t ht hag (hw.env_eq hc hs hag) hf₁

/-- First a type name is looked up, then the rest is checked. -/
theorem judged_typeOf (hc : c.Sound) (hs : ctx.Sits c) (hf : c.Fine ν n)
    (h : (typeOf name).run c = .ok (ty, c₁)) (hg : c₁.Extends c')
    (hrest : ∀ ν₁ t, ty = some t → ν.Agrees ν₁ c.types → c₁.env ν₁ = c.env ν →
      c₁.Fine ν₁ n → Judged c₁ ν₁ c' n' (J (t.rename ν₁)) A) :
    Judged c ν c' n' (fun b y => ∃ x, (c.env ν).types name.name = some x ∧ J x b y) A := by
  obtain ⟨hw, -⟩ := walked_typeOf hc h
  have hlook : Judged c ν c₁ n (fun _ x => (c.env ν).types name.name = some x) (Answers ty) := by
    refine ((yields_typeOf hc.rest name).of_run h).answers (not_not_intro hf.clean) hf
      fun b hb y => ?_
    simp only [Checker.env_types, Option.map_eq_some_iff, eq_comm (a := y)]
  refine hlook.bind hw.grown hw.sound.rest.closed hg fun ν₁ x hx hag hf₁ => ?_
  obtain ⟨t, ht, rfl⟩ := hx
  exact hrest ν₁ t ht hag (hw.env_eq hc hs hag) hf₁

end

end TigerCheck
