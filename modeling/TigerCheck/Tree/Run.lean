import TigerCheck.Tree

/-!
# Runs of declarations

The declarations of a let block are handled in runs: a run is a longest stretch of neighbours of one
kind. The functions of a run may call each other, and its types may refer to each other.

* `Dec.runs`: the runs of a list.
* `Dec.leadingRun`: the first of them, which is known before the rest of the list is split.
* **`Dec.runs_eq_cons`**: the first run is the leading run, and the others are the runs of what follows
  it.
-/

namespace TigerCheck

namespace Dec

/-- Whether two declarations are of one kind. -/
def sameKind (d e : Dec) : Bool := d.kind == e.kind

/-- The runs of a list of declarations. -/
def runs (ds : List Dec) : List (List Dec) := ds.splitBy sameKind

/-- The longest stretch of one kind at the front of a list. -/
def leadingRun : List Dec → List Dec
  | [] => []
  | d :: ds => d :: ds.takeWhile (sameKind d)

@[simp] theorem runs_nil : runs [] = [] := rfl

theorem runs_cons (d : Dec) (ds : List Dec) :
    runs (d :: ds) = List.splitBy.loop sameKind ds d [] [] := rfl

theorem sameKind_iff {d e : Dec} : sameKind d e = true ↔ d.kind = e.kind := by
  simp [sameKind]

/-- Declarations of one kind are told apart from others in the same way. -/
theorem sameKind_eq {d e : Dec} (h : sameKind d e = true) : sameKind d = sameKind e := by
  funext f
  simp [sameKind, sameKind_iff.mp h]

theorem splitByLoop_cons (d e : Dec) (ds run : List Dec) (done : List (List Dec)) :
    List.splitBy.loop sameKind (e :: ds) d run done =
      cond (sameKind d e) (List.splitBy.loop sameKind ds e (d :: run) done)
        (List.splitBy.loop sameKind ds e [] ((d :: run).reverse :: done)) := rfl

theorem splitByLoop_sameKind (ds : List Dec) (d : Dec) (run : List Dec) (done : List (List Dec)) :
    List.splitBy.loop sameKind ds d run done =
      done.reverse ++ (run.reverse ++ d :: ds.takeWhile (sameKind d)) ::
        runs (ds.dropWhile (sameKind d)) := by
  induction ds generalizing d run done with
  | nil =>
    show ((d :: run).reverse :: done).reverse = _
    simp
  | cons e ds ih =>
    rw [splitByLoop_cons]
    cases h : sameKind d e with
    | true =>
      have he : sameKind e e = true := sameKind_iff.mpr rfl
      simp [ih, sameKind_eq h, he]
    | false => rw [ih]; simp [h, runs_cons, ih]

/-- The leading run comes first, and then the runs of what follows it. -/
theorem runs_eq_cons (d : Dec) (ds : List Dec) :
    runs (d :: ds) = leadingRun (d :: ds) :: runs (ds.dropWhile (sameKind d)) := by
  simp [runs_cons, splitByLoop_sameKind, leadingRun]

end Dec

end TigerCheck
