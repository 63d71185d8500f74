import TigerCheck.Proofs.Scope.Program

/-!
# Names are resolved by the text alone

What a name stands for depends on the declarations around it and on nothing else: not on types, and not on
what is wrong elsewhere in the program. So every use is bound to the slot of the nearest declaration that it
is in the scope of, every call to the function of the nearest, and a name is reported as undefined where it
is in the scope of none.

* **`analyze_resolves`**: variables, calls and the undefined names of a program.
-/

namespace TigerCheck

open Check

/-- **Names are resolved by the scopes of the text**, in right and in wrong programs. A program whose cells
are empty has an analysis, unless functions are nested deeper than levels count. The analysis fills cells
and changes nothing else. In what is not dropped, every declaration and every parameter gets a handle of its
own; every use of a variable and every call gets what its name stands for at its place; and one diagnostic
is reported for each occurrence of a name that stands for nothing there, and for no other. -/
theorem analyze_resolves (p : Program) (hp : p.body.blank = p.body) :
    (∃ p' a, analyze p = .ok (p', a) ∧ p'.body.blank = p.body ∧
      AllDistinct ((p'.sites a.frames).flatMap (Site.slots a.frames)) ∧
      AllDistinct ((p'.sites a.frames).flatMap Site.functions) ∧
      (∀ pl head body id, Site.function pl head body id ∈ p'.sites a.frames →
        (a.frames.paramsOf id).length = head.params.length) ∧
      (∀ pl name binding, Site.use pl name binding ∈ p'.sites a.frames →
        binding = pl.values name.name) ∧
      (∀ pl callee function, Site.call pl callee function ∈ p'.sites a.frames →
        function = pl.functions callee.name) ∧
      a.diagnostics.undefined.Perm ((p'.sites a.frames).filterMap Site.unbound)) ∨
    (maxLevel < p.body.nesting ∧ analyze p = .error .levelOverflow) := by
  rcases analyze_surveyed hp with ⟨p', a, c, ha, hs, -, hframes, hdiag, -⟩ | h
  · refine .inl ⟨p', a, ha, hs.blank.trans hp, ?_⟩
    rw [hframes, hdiag]
    refine ⟨hs.slots_distinct, hs.functions_distinct, fun pl head body id h => ?_,
      fun _ _ _ h => hs.holds _ h, fun _ _ _ h => (hs.holds _ h).1, hs.undefined⟩
    obtain ⟨id, frame, link, params, rfl, hhead, -⟩ := hs.holds _ h
    rw [FrameTable.paramsOf_of_declared hhead.prototype]
    exact hhead.params.length_eq.symm
  · exact .inr h

/-- Names that are declared twice, in one run, in two and in nested blocks, and names that are not declared:
a function is called before and behind the run that shadows it, a variable is read in its own initializer,
and one of two parameters with one name is read. -/
def shadowedNames : Program where
  body := .letIn {} [
      .var { name := "x" } none (.var {} (.simple {} "x" none)) .unknown none,
      .function ⟨{ name := "f" }, [⟨{ name := "a" }, { name := "int" }⟩, ⟨{ name := "a" }, { name := "t" }⟩],
          some { name := "int" }⟩
        (.letIn {} [.var { name := "x" } none (.var {} (.simple {} "x" none)) .unknown none]
          (.binary {} .add (.var {} (.simple {} "a" none)) (.var {} (.simple {} "x" none)))) .unknown none,
      .function ⟨{ name := "f" }, [], none⟩ (.call {} { name := "h" } [] none) .unknown none,
      .var { name := "y" } none (.call {} { name := "f" } [.int {} 1, .int {} 2] none) .unknown none,
      .function ⟨{ name := "f" }, [], none⟩ (.call {} { name := "f" } [] none) .unknown none]
    (.forLoop {} { name := "y" } (.var {} (.simple {} "y" none)) (.int {} 9)
      (.seq {} [.call {} { name := "f" } [.var {} (.simple {} "y" none)] none,
        .call {} { name := "h" } [.var {} (.simple {} "z" none)] none]) none)

theorem shadowedNames_resolves : shadowedNames.body.blank = shadowedNames.body ∧
    ((∃ p' a, analyze shadowedNames = .ok (p', a) ∧ p'.body.blank = shadowedNames.body ∧
      AllDistinct ((p'.sites a.frames).flatMap (Site.slots a.frames)) ∧
      AllDistinct ((p'.sites a.frames).flatMap Site.functions) ∧
      (∀ pl head body id, Site.function pl head body id ∈ p'.sites a.frames →
        (a.frames.paramsOf id).length = head.params.length) ∧
      (∀ pl name binding, Site.use pl name binding ∈ p'.sites a.frames →
        binding = pl.values name.name) ∧
      (∀ pl callee function, Site.call pl callee function ∈ p'.sites a.frames →
        function = pl.functions callee.name) ∧
      a.diagnostics.undefined.Perm ((p'.sites a.frames).filterMap Site.unbound)) ∨
    (maxLevel < shadowedNames.body.nesting ∧ analyze shadowedNames = .error .levelOverflow)) :=
  ⟨rfl, analyze_resolves shadowedNames rfl⟩

/-- The variable, the function and the type without a declaration, each where it occurs; what occurs in the
dropped function is not reported. -/
example : (analyze shadowedNames).toOption.map (fun r => r.2.diagnostics.undefined.map (·.fault)) =
    some [.undefinedVariable "x", .undefinedType "t", .undefinedVariable "z", .undefinedFunction "h"] := by
  decide +kernel

end TigerCheck
