import TigerCheck.Breach

/-!
# Operations one after another

A table is changed by operations, each of which may be done in some states of the table only. What one
operation does is told by a step lemma; here is how a run lemma comes from it.

* `Permitted`: operations, each of which may be done when its turn comes.
* **`Permitted.exists_foldlM`**: from steps to runs.
-/

namespace TigerCheck

variable {σ ω : Type} {step : σ → ω → Except Breach σ} {allowed : σ → ω → Prop}

/-- Operations, each of which is allowed in the state in which its turn comes. -/
def Permitted (step : σ → ω → Except Breach σ) (allowed : σ → ω → Prop) : σ → List ω → Prop
  | _, [] => True
  | s, o :: os => allowed s o ∧ ∀ s' ∈ (step s o).toOption, Permitted step allowed s' os

instance Permitted.decidable [∀ s o, Decidable (allowed s o)] :
    (s : σ) → (os : List ω) → Decidable (Permitted step allowed s os)
  | _, [] => inferInstanceAs (Decidable True)
  | s, o :: os =>
    have : ∀ s' : σ, Decidable (Permitted step allowed s' os) := fun s' => decidable s' os
    inferInstanceAs (Decidable (allowed s o ∧ ∀ s' ∈ (step s o).toOption, Permitted step allowed s' os))

/-- **Permitted operations can be done**, one after another, if an allowed one can be done wherever an
invariant `I` holds, and keeps it. What a run does, `R`, is put together from what its steps do. -/
theorem Permitted.exists_foldlM {I : σ → Prop} {R : σ → List ω → σ → Prop} (hnil : ∀ s, I s → R s [] s)
    (hcons : ∀ s o, I s → allowed s o →
      ∃ s', step s o = .ok s' ∧ I s' ∧ ∀ os s'', R s' os s'' → R s (o :: os) s'') :
    ∀ {os : List ω} {s : σ}, I s → Permitted step allowed s os →
      ∃ s', os.foldlM step s = .ok s' ∧ I s' ∧ R s os s'
  | [], s, hs, _ => ⟨s, rfl, hs, hnil s hs⟩
  | o :: os, s, hs, ⟨ho, hos⟩ => by
    obtain ⟨s₁, hs₁, hinv, hR⟩ := hcons s o hs ho
    obtain ⟨s₂, hs₂, hinv₂, hR₂⟩ := exists_foldlM hnil hcons hinv (hos s₁ (by rw [hs₁]; rfl))
    refine ⟨s₂, ?_, hinv₂, hR os s₂ hR₂⟩
    rw [List.foldlM_cons, hs₁]
    exact hs₂

end TigerCheck
