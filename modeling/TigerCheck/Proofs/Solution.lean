import TigerCheck.Proofs.TypeName.Solved
import TigerCheck.Proofs.Walk.Arrives

/-!
# Recursive types are solved exactly

Types that refer to each other are resolved in whatever order they are met, with entries that are handed
out before they are complete. Wherever a run of types stands, in a program or in what a checker is asked
about later, what comes out are the equations that it states, and nothing besides.

* `Checker.Noted`: states that differ in the journal at most.
* `yields_types_atRest`: checking a run of types.
* **`checkDecs_types_solution`**: if every declaration of the run is resolved, the run is solved.
-/

namespace TigerCheck

open Check

/-- A state that differs in its journal at most. -/
structure Checker.Noted (c c₁ : Checker) : Prop where
  types_eq : c₁.types = c.types
  diagnostics_eq : c₁.diagnostics = c.diagnostics
  typeNames_eq : c₁.typeNames = c.typeNames
  namedTypes_eq : c₁.namedTypes = c.namedTypes

namespace Checker.Noted

theorem refl (c : Checker) : c.Noted c := ⟨rfl, rfl, rfl, rfl⟩

theorem note (c : Checker) (e : Event) : c.Noted (c.note e) := ⟨rfl, rfl, rfl, rfl⟩

theorem typeNamed_eq {c c₁ : Checker} (h : c.Noted c₁) : c₁.typeNamed = c.typeNamed := by
  funext n
  simp only [typeNamed, status, h.typeNames_eq, h.namedTypes_eq]

end Checker.Noted

/-- Between runs, a run of types is checked as a whole: its names are bound, and its declarations are
resolved. -/
theorem yields_types_atRest {ctx : Context} {c : Checker} (hc : c.AtRest) (run : List TypeDec) :
    Yields (checkDecs ctx [] (run.map .type)) c fun r c' =>
      r.1 = run.map .type ∧ ∃ c₁ plans kept c₀ rs own, c.Noted c₁ ∧
        TypeRun c₁ run plans kept c₀ rs own c' ∧ (r.2 = true ↔ .dropped ∉ plans ∧ none ∉ rs) := by
  cases run with
  | nil =>
    rw [List.map_nil, checkDecs]
    refine yields_pure.mpr ⟨rfl, c, [], [], c, [], fun _ => none, .refl c,
      ⟨hc, .nil, .nil, hc.opened.building⟩, by simp⟩
  | cons d run =>
    have hsame : ∀ e ∈ run.map Dec.type, Dec.sameKind (.type d) e = true := by
      intro e he
      obtain ⟨f, -, rfl⟩ := List.mem_map.mp he
      rfl
    have hlead : Dec.leadingRun (.type d :: run.map .type) = (d :: run).map .type := by
      rw [Dec.leadingRun, List.takeWhile_eq_self_iff.mpr hsame, List.map_cons]
    have hrest : (run.map Dec.type).dropWhile (Dec.sameKind (.type d)) = [] :=
      List.dropWhile_eq_nil_iff.mpr hsame
    have h : YieldsOr False (checkDecs ctx [] (.type d :: run.map .type)) c fun r c' =>
        r.1 = (d :: run).map .type ∧ ∃ c₁ plans kept c₀ rs own, c.Noted c₁ ∧
          TypeRun c₁ (d :: run) plans kept c₀ rs own c' ∧
          (r.2 = true ↔ .dropped ∉ plans ∧ none ∉ rs) := by
      refine yieldsOr_checkDecs ?_
      rw [hlead, hrest]
      refine ((yields_typeRun_atRest hc d run).mono fun plans c₀ h₀ => ⟨h₀.1, ?_⟩).or
      refine (h₀.2.mono fun r c' h' => ?_).or
      obtain ⟨hr, kept, rs, own, hbind, hf, hb, hok⟩ := h'
      rw [checkDecs]
      exact yieldsOr_pure ⟨by rw [hr, List.append_nil], _, plans, kept, c₀, rs, own, .note c _,
        ⟨hc.note _, hbind, hf, hb⟩, by rw [Bool.and_true, hok]⟩
    rcases h with h | ⟨hfalse, -⟩
    · exact h
    · exact hfalse.elim

/-- **A run of types with distinct names is solved if all of its declarations are resolved**, wherever
a walk comes to it: each record and each array declaration has an entry of its own, with
the types that the names in its right-hand side stand for at the end of the run, each synonym stands for
the type of its target, and nothing else is added. -/
theorem checkDecs_types_solution {ctx : Context} {c : Checker} (h : Arrives ctx c)
    (run : List TypeDec) (hnd : (run.map (·.name.name)).Nodup) :
    ∃ r c', (checkDecs ctx [] (run.map .type)).run c = .ok (r, c') ∧
      ((∀ d ∈ run, ∃ t, c'.typeNamed d.name.name = some t) → Solution run c c') := by
  obtain ⟨r, c', hrun, -, c₁, plans, kept, c₀, rs, own, hc₁, htr, -⟩ := yields_types_atRest h.atRest run
  refine ⟨r, c', hrun, fun hall => ?_⟩
  have hkept : kept = run := (htr.binds.kept_eq (fun _ _ => List.not_mem_nil) hnd).1
  exact (htr.solution hkept hnd hall).congr hc₁.types_eq

/-- Lists, with a synonym on the way back: `link` is met while `list` and `lists` are resolved. -/
def linkedLists : List TypeDec := [
  { name := { name := "list" }, body := .record [⟨{ name := "head" }, { name := "int" }⟩,
    ⟨{ name := "all" }, { name := "lists" }⟩, ⟨{ name := "tail" }, { name := "link" }⟩] },
  { name := { name := "lists" }, body := .array { name := "link" } },
  { name := { name := "link" }, body := .synonym { name := "list" } }]

/-- The beginning of a program that is a block. -/
def Checker.inBlock : Checker := (Checker.initial.note .started).entered

theorem linkedLists_solution :
    ∃ r c', (checkDecs ⟨0, Checker.initial.mainFrame, 0⟩ [] (linkedLists.map .type)).run
      Checker.inBlock = .ok (r, c') ∧
      (∀ d ∈ linkedLists, ∃ t, c'.typeNamed d.name.name = some t) ∧
      Solution linkedLists Checker.inBlock c' := by
  have hstart : Arrives ⟨0, Checker.initial.mainFrame, 0⟩ Checker.inBlock := .block .start rfl
  obtain ⟨r, c', hrun, hsol⟩ := checkDecs_types_solution hstart linkedLists (by decide)
  have hnamed : ((checkDecs ⟨0, Checker.initial.mainFrame, 0⟩ [] (linkedLists.map .type)).run
      Checker.inBlock).toOption.map (fun x => linkedLists.map fun d => x.2.typeNamed d.name.name) =
      some [some (.record ⟨0⟩), some (.array ⟨0⟩), some (.record ⟨0⟩)] := by decide +kernel
  rw [hrun] at hnamed
  have hall : ∀ d ∈ linkedLists, ∃ t, c'.typeNamed d.name.name = some t := by
    have hlist := Option.some.inj hnamed
    simp only [linkedLists, List.map_cons, List.map_nil, List.cons.injEq, and_true] at hlist
    simp [linkedLists, hlist]
  exact ⟨r, c', hrun, hall, hsol hall⟩

end TigerCheck
