import TigerCheck.Proofs.Walk.Program

/-!
# Variables are reached where they are used

Code generation reads a variable of an enclosing function by following static links. The analysis tells
it how many, and at which offset the variable stands in the frame that it comes to.

* **`analyze_reaches`**: whatever the program, every variable that is bound by its analysis is reached
  from each of its uses.
-/

namespace TigerCheck

open Check

/-- **Every use of a variable reaches it.** A program whose variables are not bound yet has an analysis,
unless functions are nested deeper than levels count. Then every variable that is used in the checked
program, in the body of a function or outside every function, is not declared deeper than it is used;
following as many links as its access has hops leads from the frame of the code to the frame of the
variable, and there the variable is the slot at the offset of its access. -/
theorem analyze_reaches (p : Program) (hp : p.body.Unbound) :
    (∃ p' a, analyze p = .ok (p', a) ∧
      ∀ u ∈ p'.body.uses a.frames a.mainFrame 0, a.frames.Reaches u) ∨
    (maxLevel < p.body.nesting ∧ analyze p = .error .levelOverflow) := by
  rcases analyze_of_yieldsOr (yieldsOr_checkFromStart p) with
    ⟨p', a, c, ha, hends, -, -, hframes, -, hmain⟩ | h
  · refine Or.inl ⟨p', a, ha, ?_⟩
    rw [hframes, hmain]
    exact hends.reaches hp
  · exact Or.inr h

/-- A function in a function that reads a variable of the main program. -/
def nestedUse : Program where
  body := .letIn {} [
      .var { name := "x" } none (.int {} 7) .unknown none,
      .function ⟨{ name := "f" }, [], some { name := "int" }⟩
        (.letIn {} [.function ⟨{ name := "g" }, [], some { name := "int" }⟩
            (.var {} (.simple {} "x" none)) .unknown none]
          (.call {} { name := "g" } [] none)) .unknown none]
    (.call {} { name := "f" } [] none)

theorem nestedUse_reaches : nestedUse.body.Unbound ∧
    ((∃ p' a, analyze nestedUse = .ok (p', a) ∧
      ∀ u ∈ p'.body.uses a.frames a.mainFrame 0, a.frames.Reaches u) ∨
    (maxLevel < nestedUse.body.nesting ∧ analyze nestedUse = .error .levelOverflow)) :=
  have h : nestedUse.body.Unbound :=
    ⟨⟨trivial, ⟨⟨⟨rfl, trivial⟩, trivial⟩, trivial⟩⟩, trivial⟩
  ⟨h, analyze_reaches nestedUse h⟩

/-- The variable is read two levels below its own, in the frame of the inner function. -/
example : (analyze nestedUse).toOption.map (fun r => r.1.body.uses r.2.frames r.2.mainFrame 0) =
    some [⟨⟨0⟩, ⟨2⟩, 2⟩] := by decide +kernel

end TigerCheck
