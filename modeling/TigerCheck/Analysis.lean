import TigerCheck.Checker.Walk

/-!
# Analysis of a program

What a walk leaves behind for code generation: the tables of types and frames, the diagnostics, and
the type of the program.

* `Analysis`, `Analysis.hasError`.
* `Checker.finish`: the analysis that a checker's state amounts to.
* `analyze`: the analysis of a program, with the program's cells filled.
* `Analysis.bindMainFrame`: the variables outside every function, as bindings.
-/

namespace TigerCheck

/-- The outcome of checking a program, or several expressions one after another. -/
structure Analysis where
  /-- The type of the program, or of the last expression. -/
  result : Option Ty
  types : Arena
  frames : FrameTable
  diagnostics : Diagnostics
  mainFrame : FrameId
  journal : Array Event

/-- Bind a variable under its own name. -/
def FrameTable.bindSlot (t : FrameTable) (values : Scopes VarId) (id : VarId) :
    Except Breach (Scopes VarId) := do
  return values.bind (← t.var id).name id

namespace Analysis

/-- Whether code generation must not run. -/
def hasError (a : Analysis) : Bool := a.diagnostics.hasError

/-- Reset a table of variables and bind every slot of the main frame in it, in order of offset. -/
def bindMainFrame (a : Analysis) (values : Scopes VarId) : Except Breach (Scopes VarId) := do
  let main ← a.frames.frame a.mainFrame
  main.slots.toList.foldlM a.frames.bindSlot values.reset

/-- The number of functions of the program, without the intrinsics. -/
def functionCount (a : Analysis) : Nat := a.frames.functions.toList.countP (!·.isIntrinsic)

end Analysis

/-- The analysis that a checker's state amounts to. -/
def Checker.finish (c : Checker) (result : Option Ty) : Analysis :=
  { result, types := c.types, frames := c.frames, diagnostics := c.diagnostics,
    mainFrame := c.mainFrame, journal := c.journal }

/-- Check a program, noting where the journal of the analysis begins. -/
def checkFromStart (p : Program) : Check Program := do
  Check.log .started
  checkProgram p

/-- The program with its cells filled, and its analysis. -/
def analyze (p : Program) : Except Breach (Program × Analysis) := do
  let (p, c) ← (checkFromStart p).run .initial
  let a := c.finish p.body.ty
  return (p, { a with journal := a.journal.push (.finished a.diagnostics.size) })

end TigerCheck
