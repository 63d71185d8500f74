import TigerCheck.Proofs.Yields

/-!
# How a rule ends

A rule ends in one of three ways: it gives an answer and leaves the state alone; it gives none, because
a part had none; or it gives none and reports that.

* `Checker.Says`: states that differ in reports only.
* `Judges`, `Decides`: the ends of a rule with an answer, and of one that says yes or no.
* **`Judges.some_iff`**, **`Decides.iff`**: what the answer says about the condition.
* `Judges.lt_of_none`, `Decides.lt_of_false`: where a refusal was reported.
-/

namespace TigerCheck

/-- The second state is the first after some reports. -/
inductive Checker.Says (c : Checker) : Checker → Prop where
  | quiet : Says c c
  | report {c' : Checker} (fault : Fault) (loc : Location) : Says c c' →
      Says c (c'.reported fault loc)

theorem Checker.Says.trans {c c' c'' : Checker} (h : c.Says c') (h' : c'.Says c'') : c.Says c'' := by
  induction h' with
  | quiet => exact h
  | report fault loc _ ih => exact .report fault loc ih

theorem Checker.Says.le {c c' : Checker} (h : c.Says c') :
    c.diagnostics.size ≤ c'.diagnostics.size := by
  induction h with
  | quiet => exact Nat.le_refl _
  | report _ _ _ ih =>
    simp only [Checker.reported, Checker.note, Diagnostics.size_report]
    omega

theorem Checker.lt_reported (c : Checker) (fault : Fault) (loc : Location) :
    c.diagnostics.size < (c.reported fault loc).diagnostics.size := by
  simp [Checker.reported, Checker.note]

/-- The ends of a rule with an answer: it finds the one answer that satisfies a condition, or there is
none; that is reported unless a part was missing. -/
inductive Judges {α : Type} (c : Checker) (P : α → Prop) (missing : Prop) :
    Option α → Checker → Prop where
  | found {a : α} : (∀ b, P b ↔ b = a) → Judges c P missing (some a) c
  | missing : missing → (∀ b, ¬ P b) → Judges c P missing none c
  | refused {c' : Checker} : (∀ b, ¬ P b) → c.Says c' → c.diagnostics.size < c'.diagnostics.size →
      Judges c P missing none c'

/-- The ends of a rule that says yes or no. -/
inductive Decides (c : Checker) (P : Prop) (missing : Prop) : Bool → Checker → Prop where
  | yes : P → Decides c P missing true c
  | missing : missing → ¬ P → Decides c P missing false c
  | refused {c' : Checker} : ¬ P → c.Says c' → c.diagnostics.size < c'.diagnostics.size →
      Decides c P missing false c'

section

variable {α : Type} {c c' : Checker} {P : α → Prop} {R missing : Prop}

theorem Judges.toSays {r : Option α} (h : Judges c P missing r c') : c.Says c' := by
  cases h with
  | found => exact .quiet
  | missing => exact .quiet
  | refused _ hs => exact hs

theorem Judges.some_iff {r : Option α} {a : α} (h : Judges c P missing r c') : r = some a ↔ P a := by
  cases h with
  | found hp => rw [hp a, Option.some.injEq, eq_comm]
  | missing _ hp => simp [hp]
  | refused hp => simp [hp]

/-- A rule whose condition is that a known option holds the answer gives that option. -/
theorem Judges.eq_option {o r : Option α} (h : Judges c (fun a => o = some a) missing r c') : r = o :=
  Option.ext fun _ => h.some_iff

/-- No answer without a report means that a part was missing. -/
theorem Judges.lt_of_none (h : Judges c P missing none c') (hm : ¬ missing) :
    c.diagnostics.size < c'.diagnostics.size := by
  cases h with
  | missing h => exact absurd h hm
  | refused _ _ hlt => exact hlt

theorem Judges.eq_of_some {a : α} (h : Judges c P missing (some a) c') : c' = c := by
  cases h
  rfl

theorem Decides.toSays {b : Bool} (h : Decides c R missing b c') : c.Says c' := by
  cases h with
  | yes => exact .quiet
  | missing => exact .quiet
  | refused _ hs => exact hs

theorem Decides.iff {b : Bool} (h : Decides c R missing b c') : b = true ↔ R := by
  cases h with
  | yes hp => simp [hp]
  | missing _ hp => simp [hp]
  | refused hp => simp [hp]

theorem Decides.lt_of_false (h : Decides c R missing false c') (hm : ¬ missing) :
    c.diagnostics.size < c'.diagnostics.size := by
  cases h with
  | missing h => exact absurd h hm
  | refused _ _ hlt => exact hlt

theorem Decides.eq_of_true (h : Decides c R missing true c') : c' = c := by
  cases h
  rfl

theorem judges_fault (fault : Fault) (loc : Location) (h : ∀ a, ¬ P a) :
    Judges c P missing none (c.reported fault loc) :=
  .refused h (.report fault loc .quiet) (c.lt_reported fault loc)

theorem decides_fault (fault : Fault) (loc : Location) (h : ¬ R) :
    Decides c R missing false (c.reported fault loc) :=
  .refused h (.report fault loc .quiet) (c.lt_reported fault loc)

end

end TigerCheck
