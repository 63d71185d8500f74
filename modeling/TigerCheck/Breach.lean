/-!
# Breaches of a table's contract

The tables of an analysis (types, frames, scopes) are addressed by handles. An operation that is
given a handle which denotes nothing, or that would close a scope nobody opened, has no answer; it
ends in a `Breach` instead, and leaves its table as it was.

* `Breach`: one constructor for each way in which a contract can be broken.
* `Breach.message`: the wording of the two breaches that have one.
-/

namespace TigerCheck

/-- The ways in which an operation on the tables of an analysis can have no answer. -/
inductive Breach where
  /-- A handle denotes no entry of its table. -/
  | dangling
  /-- The outermost scope was to be closed. -/
  | unmatchedExit
  /-- A variable was to be reached from a level outside the function that declares it. -/
  | outOfSight
  /-- A nesting level left the range of machine words. -/
  | levelOverflow
  /-- A function with a static link has no parameter for it. -/
  | missingLink
  /-- A bounded search ran out of steps before it met an answer. -/
  | exhausted
deriving DecidableEq

/-- The wording of a breach, where it has one. -/
def Breach.message : Breach → Option String
  | .unmatchedExit => some "exit() without a matching enter()"
  | .outOfSight => some "variable is not visible from this level"
  | _ => none

/-- The entry of a table under an index; an index beyond the table is dangling. -/
def entry {α : Type} (table : Array α) (i : Nat) : Except Breach α :=
  match table[i]? with
  | some a => .ok a
  | none => .error .dangling

theorem entry_eq_ok_iff {α : Type} {table : Array α} {i : Nat} {a : α} :
    entry table i = .ok a ↔ table[i]? = some a := by
  unfold entry
  cases table[i]? <;> simp

theorem entry_of_lt {α : Type} {table : Array α} {i : Nat} (h : i < table.size) :
    entry table i = .ok table[i] := by
  simp [entry, h]

end TigerCheck
