import TigerCheck.Proofs.Twin.Growth
import TigerCheck.Proofs.Typing.Judged

/-!
# States in which the same code means the same

Two states are alike if every name is bound in both or in neither, and what it stands for in the one is
paired with what it stands for in the other: the type of a variable, the signature of a function, and the
type under a type name. Slots, functions and type names may have different numbers in them.

* `Checker.TypesAlike`, `Checker.ValuesAlike`, `Checker.FunctionsAlike`: one namespace each.
* `Checker.Alike`: the tables and all namespaces. `Twin`: also the places at which the two runs are.
* **`Twin.walked`**: states stay alike behind parts of the program.
* `After`: two runs have grown alike, and what follows finds the same.
-/

namespace TigerCheck

open Check

namespace Checker

/-- A type name is bound on both sides or on neither, and stands for paired types. -/
def TypesAlike (c : Checker) (ρ : Pairing) (d : Checker) : Prop :=
  ∀ name, (c.typeNames.lookup name).isSome = (d.typeNames.lookup name).isSome ∧
    Option.Rel ρ (c.typeNamed name) (d.typeNamed name)

/-- A variable is bound on both sides or on neither, with paired types. -/
def ValuesAlike (c : Checker) (ρ : Pairing) (d : Checker) : Prop :=
  ∀ name, (c.values.lookup name).isSome = (d.values.lookup name).isSome ∧
    Option.Rel ρ (c.valueTy name) (d.valueTy name)

/-- A function is bound on both sides or on neither, with paired signatures. -/
def FunctionsAlike (c : Checker) (ρ : Pairing) (d : Checker) : Prop :=
  ∀ name, (c.functions.lookup name).isSome = (d.functions.lookup name).isSome ∧
    Option.Rel (Signature.Paired ρ) (c.signed name) (d.signed name)

/-- Two states in which every name means the same. -/
structure Alike (c : Checker) (ρ : Pairing) (d : Checker) : Prop where
  sound : c.Sound
  sound' : d.Sound
  mirrors : c.types.Mirrors ρ d.types
  types : c.TypesAlike ρ d
  values : c.ValuesAlike ρ d
  functions : c.FunctionsAlike ρ d

variable {c d c' d' : Checker} {ctx ctx' : Context} {ρ ρ' : Pairing}

theorem TypesAlike.extends (h : c.TypesAlike ρ d) (hc : c.AtRest) (hd : d.AtRest) (hg : c.Extends c')
    (hg' : d.Extends d') (hn : c'.typeNames = c.typeNames) (hn' : d'.typeNames = d.typeNames)
    (hle : ∀ s t, ρ s t → ρ' s t) : c'.TypesAlike ρ' d' := by
  intro name
  rw [hc.typeNamed_eq hg hn, hd.typeNamed_eq hg' hn', hn, hn']
  exact ⟨(h name).1, rel_imp (h name).2 hle⟩

theorem ValuesAlike.extends (h : c.ValuesAlike ρ d) (hs : ctx.Sits c) (hs' : ctx'.Sits d)
    (hg : c.Extends c') (hg' : d.Extends d') (hv : c'.values = c.values) (hv' : d'.values = d.values)
    (hle : ∀ s t, ρ s t → ρ' s t) : c'.ValuesAlike ρ' d' := by
  intro name
  rw [valueTy_eq hs hg hv, valueTy_eq hs' hg' hv', hv, hv']
  exact ⟨(h name).1, rel_imp (h name).2 hle⟩

theorem FunctionsAlike.extends (h : c.FunctionsAlike ρ d) (hc : c.Sound) (hd : d.Sound)
    (hg : c.Extends c') (hg' : d.Extends d') (hf : c'.functions = c.functions)
    (hf' : d'.functions = d.functions) (hle : ∀ s t, ρ s t → ρ' s t) : c'.FunctionsAlike ρ' d' := by
  intro name
  rw [signed_eq hc hg hf, signed_eq hd hg' hf', hf, hf']
  exact ⟨(h name).1, rel_imp (h name).2 fun _ _ hp => hp.imp hle⟩

/-- States stay alike where the same is reported. -/
theorem Alike.echo (h : c.Alike ρ d) (he : Echo c d c' d') : c'.Alike ρ d' := by
  induction he with
  | quiet => exact h
  | report fault loc _ ih =>
    exact ⟨ih.sound.reported fault loc, ih.sound'.reported fault loc, ih.mirrors, ih.types, ih.values,
      ih.functions⟩

end Checker

/-- Two runs of the same code, in states and at places where it means the same. -/
structure Twin (ρ : Pairing) (ctx ctx' : Context) (c d : Checker) : Prop where
  alike : c.Alike ρ d
  sits : ctx.Sits c
  sits' : ctx'.Sits d
  inLoop_eq : ctx.inLoop = ctx'.inLoop

/-- Two runs have grown alike, and what follows them finds the same. -/
structure After (free : Prop) (ρ : Pairing) (ctx ctx' : Context) (c d : Checker) (ρ' : Pairing)
    (c' d' : Checker) : Prop where
  grows : Grows free ρ c d ρ' c' d'
  twin : Twin ρ' ctx ctx' c' d'

variable {free : Prop} {ρ ρ₁ ρ' : Pairing} {ctx ctx' ctx₁ ctx₁' : Context} {c d c₁ d₁ c' d' : Checker}

/-- **States stay alike behind parts of the program.** -/
theorem Twin.walked (h : Twin ρ ctx ctx' c d) (hw : c.Walked c') (hw' : d.Walked d')
    (hm : c'.types.Mirrors ρ' d'.types) (hle : ∀ s t, ρ s t → ρ' s t) : Twin ρ' ctx ctx' c' d' where
  alike :=
    { sound := hw.sound
      sound' := hw'.sound
      mirrors := hm
      types := h.alike.types.extends h.alike.sound.rest h.alike.sound'.rest hw.grown hw'.grown
        hw.scopes.typeNames_eq hw'.scopes.typeNames_eq hle
      values := h.alike.values.extends h.sits h.sits' hw.grown hw'.grown hw.scopes.values_eq
        hw'.scopes.values_eq hle
      functions := h.alike.functions.extends h.alike.sound h.alike.sound' hw.grown hw'.grown
        hw.scopes.functions_eq hw'.scopes.functions_eq hle }
  sits := h.sits.walked hw
  sits' := h.sits'.walked hw'
  inLoop_eq := h.inLoop_eq

theorem Twin.grown (h : Twin ρ ctx ctx' c d) (hg : Grows free ρ c d ρ' c' d') (hw : c.Walked c')
    (hw' : d.Walked d') : After free ρ ctx ctx' c d ρ' c' d' :=
  ⟨hg, h.walked hw hw' hg.mirrors hg.le⟩

/-- Each run may go on by itself, as long as no new types are to stand for each other. -/
theorem Twin.apart (h : Twin ρ ctx ctx' c d) (hw : c.Walked c') (hw' : d.Walked d') :
    Twin ρ ctx ctx' c' d' :=
  h.walked hw hw' (h.alike.mirrors.kept hw.grown.shape hw'.grown.shape) fun _ _ hst => hst

/-- A loop around both places, or around neither. -/
theorem Twin.enterLoop (h : Twin ρ ctx ctx' c d) : Twin ρ ctx.enterLoop ctx'.enterLoop c d :=
  ⟨h.alike, h.sits.loops _, h.sits'.loops _, by simp [Context.enterLoop, Context.inLoop]⟩

namespace After

theorem refl (h : Twin ρ ctx ctx' c d) : After free ρ ctx ctx' c d ρ c d :=
  ⟨.same h.alike.mirrors (.refl c) (.refl d), h⟩

theorem trans (h : After free ρ ctx ctx' c d ρ₁ c₁ d₁) (h' : After free ρ₁ ctx₁ ctx₁' c₁ d₁ ρ' c' d') :
    After free ρ ctx₁ ctx₁' c d ρ' c' d' := ⟨h.grows.trans h'.grows, h'.twin⟩

/-- What follows a rule that reports the same on both sides. -/
theorem echo (h : Twin ρ ctx ctx' c d) (he : Echo c d c' d') : After free ρ ctx ctx' c d ρ c' d' :=
  h.grown (he.grows h.alike.mirrors) (he.left.walked h.alike.sound) (he.right.walked h.alike.sound')

end After

end TigerCheck
