import TigerCheck.Proofs.Solution
import TigerCheck.Proofs.TypeName.RunEnds

/-!
# How far the failure of a type spreads

A declaration that fails is poisoned, and should take with it every declaration that depends on it. It
takes only those that are settled later: a declaration that was settled with an entry handed out to it
keeps that entry, and nothing ever completes it.

* **`checkDecs_types_poisoned`**: what is poisoned at the end of a run, and what is complete.
* **`lateFailure_resolved`**: a declaration that depends on a failure and is resolved all the same.
-/

namespace TigerCheck

open Check

/-- **How a run of types with distinct names ends, wherever a walk comes to it.** Of the
declarations that depend on a failure those are poisoned that fail along the order in which the run is
settled. The others are resolved, although what they depend on is not. -/
theorem checkDecs_types_poisoned {ctx : Context} {c : Checker} (h : Arrives ctx c)
    (run : List TypeDec) (hnd : (run.map (·.name.name)).Nodup) :
    ∃ r c', (checkDecs ctx [] (run.map .type)).run c = .ok (r, c') ∧ RunEnds run c c' := by
  obtain ⟨r, c', hrun, -, c₁, plans, kept, c₀, rs, own, hc₁, htr, -⟩ := yields_types_atRest h.atRest run
  have hkept : kept = run := (htr.binds.kept_eq (fun _ _ => List.not_mem_nil) hnd).1
  subst hkept
  exact ⟨r, c', hrun, (htr.ends hnd).congr hc₁.types_eq hc₁.typeNamed_eq⟩

/-- A record that mentions a type that is missing, after a record that mentions it. While the first is
resolved the second is settled, with the entry that is handed out for the first. -/
def lateFailure : List TypeDec := [
  { name := { name := "a" }, body := .record [⟨{ name := "x" }, { name := "b" }⟩,
    ⟨{ name := "y" }, { name := "gone" }⟩] },
  { name := { name := "b" }, body := .record [⟨{ name := "z" }, { name := "a" }⟩] }]

theorem lateFailure_ends :
    (lateFailure.map (·.name.name)).Nodup ∧
    ∃ r c', (checkDecs ⟨0, Checker.initial.mainFrame, 0⟩ [] (lateFailure.map .type)).run
      Checker.inBlock = .ok (r, c') ∧ RunEnds lateFailure Checker.inBlock c' :=
  have hnd : (lateFailure.map (·.name.name)).Nodup := by decide
  ⟨hnd, checkDecs_types_poisoned (.block .start rfl) lateFailure hnd⟩

/-- The second declaration is settled before the first. -/
example : finishOrder lateFailure = ["b", "a"] := by decide

/-- **A declaration that depends on a failure can be resolved**: `b` mentions `a`, which fails, and ends up
with an entry that leads to the entry of `a`, which is left without fields. -/
theorem lateFailure_resolved :
    Checker.inBlock.DependsOnFailure lateFailure "b" ∧
    ∃ r c', (checkDecs ⟨0, Checker.initial.mainFrame, 0⟩ [] (lateFailure.map .type)).run
      Checker.inBlock = .ok (r, c') ∧ c'.Poisoned "a" ∧ ¬ c'.Poisoned "b" ∧
      c'.typeNamed "b" = some (.record ⟨1⟩) ∧
      c'.types.records = #[⟨"a", []⟩, ⟨"b", [⟨"z", .record ⟨0⟩⟩]⟩] := by
  have hgone : Checker.inBlock.typeNamed "gone" = none := by decide +kernel
  have ha : Checker.inBlock.DependsOnFailure lateFailure "a" :=
    .missing (m := { name := "gone" }) List.mem_cons_self (by simp [TypeBody.mentions]) (by decide) hgone
  have hb : Checker.inBlock.DependsOnFailure lateFailure "b" :=
    .mention (m := { name := "a" }) (List.mem_cons_of_mem _ List.mem_cons_self)
      (by simp [TypeBody.mentions]) trivial ha
  have hend : ((checkDecs ⟨0, Checker.initial.mainFrame, 0⟩ [] (lateFailure.map .type)).run
      Checker.inBlock).toOption.map (fun x =>
        (x.2.typeNames.lookup "a", x.2.typeNames.lookup "b", x.2.status ⟨2⟩, x.2.status ⟨3⟩,
          x.2.types.records)) =
      some (some ⟨2⟩, some ⟨3⟩, some .poisoned, some (.resolved (.record ⟨1⟩)),
        #[⟨"a", []⟩, ⟨"b", [⟨"z", .record ⟨0⟩⟩]⟩]) := by decide +kernel
  refine ⟨hb, ?_⟩
  generalize (checkDecs ⟨0, Checker.initial.mainFrame, 0⟩ [] (lateFailure.map .type)).run
    Checker.inBlock = x at hend
  cases x with
  | error b => cases hend
  | ok x =>
    obtain ⟨r, c'⟩ := x
    simp only [Except.toOption, Option.map_some, Option.some.injEq, Prod.mk.injEq] at hend
    obtain ⟨hla, hlb, hsa, hsb, hrecords⟩ := hend
    refine ⟨r, c', rfl, ⟨_, hla, hsa⟩, ?_, ?_, hrecords⟩
    · rintro ⟨id, hl, hs⟩
      rw [hlb] at hl
      cases hl
      rw [hsb] at hs
      cases hs
    · exact Checker.typeNamed_eq_some_iff.mpr ⟨_, hlb, hsb⟩

end TigerCheck
