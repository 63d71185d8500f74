import TigerCheck.Analysis
import TigerCheck.Proofs.Annotations
import TigerCheck.Proofs.Walk.Entered
import TigerCheck.Tree.Build

/-!
# Types that are seen are final

Records and arrays are handed out before their parts are known. But they are completed before the next
expression is checked: whatever a check sees of the arena is there at the end.

* `ExpHole.visit`: the walk over a program as far as one of its expressions.
* `Checker.Settled`, `Arena.Within`: no type name is pending; what an arena has is in another one.
* **`analyze_final`**: the states around every check agree with the final tables, and so do all cells.
-/

namespace TigerCheck

open Check

/-- The walk over the program `h.plug x` as far as the check of `x`. -/
def ExpHole.visit (x : Exp) (h : ExpHole) : Except Breach (Stop Exp × Checker) :=
  (h.enter x ⟨0, Checker.initial.mainFrame, 0⟩).run (Checker.initial.note .started)

/-- No declared type name is pending. -/
def Checker.Settled (c : Checker) : Prop := ∀ id dec handedOut, c.status id ≠ some (.pending dec handedOut)

/-- The records and arrays of an arena are in another one, each under its id and as it is. -/
def Arena.Within (a b : Arena) : Prop :=
  (∀ (r : RecordId) e, a.records[r.index]? = some e → b.records[r.index]? = some e) ∧
    ∀ (r : ArrayId) e, a.arrays[r.index]? = some e → b.arrays[r.index]? = some e

theorem Checker.Extends.within {c c' : Checker} (h : c.Extends c') : c.types.Within c'.types :=
  ⟨fun _ _ => h.record, fun _ _ => h.array⟩

/-- The walk over a program stops in a sound state. -/
theorem ExpHole.fair_visit {x : Exp} {h : ExpHole} {s : Stop Exp} {c₀ : Checker}
    (hvisit : h.visit x = .ok (s, c₀)) : Fair x s c₀ := by
  have hw := Checker.walked_note Checker.initial_sound .started
  exact h.stops x _ _ hw.sound (Checker.initial_sits.walked hw) s c₀ hvisit

/-- The walk over a program visits each of its expressions that is not passed over. -/
theorem ExpHole.visit_ends {x e' : Exp} {h : ExpHole} {c₁ : Checker}
    (hrun : (checkExp ⟨0, Checker.initial.mainFrame, 0⟩ (h.plug x)).run (Checker.initial.note .started) =
      .ok (e', c₁)) :
    h.visit x = .error .exhausted ∨ ∃ s c₀ y c, h.visit x = .ok (s, c₀) ∧
      (checkExp s.ctx x).run c₀ = .ok (y, c) ∧ (s.next y).run c = .ok (e', c₁) := by
  have hsplits := h.splits x ⟨0, Checker.initial.mainFrame, 0⟩
  rcases hsplits.stops _ e' c₁ hrun with ⟨s, c₀, hs⟩ | hs
  · rw [hsplits.goes_on _ s c₀ hs] at hrun
    obtain ⟨y, c, hy, hnext⟩ := exists_of_run_bind hrun
    exact .inr ⟨s, c₀, y, c, hs, hy, hnext⟩
  · exact .inl hs

/-- **Types that are seen are final.** Whenever the check of an expression is entered or left, no type name is
pending. An analysis ends unless functions are nested deeper than levels count. Then every record and array that
was there when an expression was entered or left has the same entry in the final arena; all expressions
are entered and left but those in declarations that are passed over. If the cells of the program were empty,
those of the checked one agree with the final tables. -/
theorem analyze_final (p : Program) (hblank : p.body.blank = p.body) :
    (∀ (h : ExpHole) x s c₀, p.body = h.plug x → h.visit x = .ok (s, c₀) →
      c₀.Settled ∧ ∀ y c₁, (checkExp s.ctx x).run c₀ = .ok (y, c₁) → c₁.Settled) ∧
    ((∃ p' a, analyze p = .ok (p', a) ∧
      (∀ (h : ExpHole) x, p.body = h.plug x → h.visit x = .error .exhausted ∨
        ∃ s c₀ y c₁, h.visit x = .ok (s, c₀) ∧ (checkExp s.ctx x).run c₀ = .ok (y, c₁) ∧
          c₀.types.Within a.types ∧ c₁.types.Within a.types) ∧
      ∀ n ∈ p'.body.notes, n.Holds a.types a.frames) ∨
    (maxLevel < p.body.nesting ∧ analyze p = .error .levelOverflow)) := by
  have hw := Checker.walked_note Checker.initial_sound .started
  refine ⟨fun h x s c₀ _ hvisit => ?_, ?_⟩
  · have hfair := ExpHole.fair_visit hvisit
    exact ⟨hfair.sound.rest.settled, fun y c₁ hy => (walked_exp hfair.sound hfair.sits hy).1.sound.rest.settled⟩
  · rcases analyze_ends p with ⟨p', a, c, ha, hrun, -, htypes, hframes, -⟩ | h
    swap
    · exact .inr h
    obtain ⟨body, c₂, frames, hbody, hfin, rfl, rfl⟩ := exists_of_run_checkFromStart hrun
    have htraced := traced_exp hw.sound (Checker.initial_sits.walked hw) hbody
    have hw₂ := (walked_exp hw.sound (Checker.initial_sits.walked hw) hbody).1
    obtain ⟨fr, hfr, -⟩ := ((Checker.initial_sits.walked hw).walked hw₂).frame
    obtain ⟨frames', hfin', -, -, hgrows, -⟩ := hw₂.sound.linked.finalize hfr
    obtain rfl := Except.ok.inj (hfin.symm.trans hfin')
    refine .inl ⟨_, a, ha, fun h x hplace => ?_, fun n hn => ?_⟩
    · rw [hplace] at hbody
      rcases ExpHole.visit_ends hbody with hpassed | ⟨s, c₀, y, c₁, hvisit, hy, hnext⟩
      · exact .inl hpassed
      · have hfair := ExpHole.fair_visit hvisit
        have hg₁ := hfair.goes_on y c₁ hy body c₂ hnext
        have hg₀ := (walked_exp hfair.sound hfair.sits hy).1.grown.trans hg₁
        rw [htypes]
        exact .inr ⟨s, c₀, y, c₁, hvisit, hy, hg₀.within, hg₁.within⟩
    · have hholds := htraced.notes_hold hblank n hn
      have hg : c₂.Extends { c₂ with frames } :=
        ⟨fun _ _ h => h, fun _ _ h => h, hgrows, Nat.le_refl _, rfl⟩
      rw [htypes, hframes]
      exact hholds.extends hg

/-- A block with a list type, and lists of lists; a nested block declares more types and uses both. -/
def listsOfLists : Program where
  body := Build.letIn [Build.typeDec "list" (Build.recordOf [("head", "int"), ("tail", "list")]),
      Build.typeDec "lists" (Build.arrayOf "list"),
      Build.functionDec "first" [("ls", "lists")] (some "list")
        (Build.var (Build.element (Build.simple "ls") (Build.int 0))),
      Build.varDec "ls" none (Build.array "lists" (Build.int 3)
        (Build.record "list" [("head", Build.int 1), ("tail", Build.nil)]))]
    (Build.letIn [Build.typeDec "pair" (Build.recordOf [("left", "lists"), ("right", "pair")]),
        Build.varDec "p" (some "pair") (Build.record "pair" [("left", Build.named "ls"), ("right", Build.nil)])]
      (Build.seq [Build.call "first" [Build.var (Build.field (Build.simple "p") "left")],
        Build.var (Build.field (Build.field (Build.simple "p") "right") "middle")]))

/-- All that is noted in the checked program holds, although one of its fields does not exist. -/
theorem analyze_final_listsOfLists : listsOfLists.body.blank = listsOfLists.body ∧
    ∃ p' a, analyze listsOfLists = .ok (p', a) ∧ ∀ n ∈ p'.body.notes, n.Holds a.types a.frames := by
  refine ⟨rfl, ?_⟩
  rcases (analyze_final listsOfLists rfl).2 with ⟨p', a, ha, -, hnotes⟩ | ⟨hdeep, -⟩
  · exact ⟨p', a, ha, hnotes⟩
  · exact absurd hdeep (by decide +kernel)

/-- Nine things are noted, and one fault is reported. -/
example : (analyze listsOfLists).toOption.map (fun r => (r.2.diagnostics.entries.size, r.1.body.notes.length)) =
    some (1, 9) := by
  decide +kernel

end TigerCheck
