import Mathlib.Logic.Equiv.Basic
import TigerCheck.Proofs.Relabel.Start
import TigerCheck.Tree.Build

/-!
# Namespaces do not touch each other

Variables, functions, types and record fields can be renamed independently of each other. All that a check finds
out stays the same, whatever the new names are, as long as different names stay different: no name is looked up
in the table of another namespace, and none has a meaning of its own but those that are bound from the start.

* `Names.labels`: new names, and all handles as they are.
* `Analysis.Renamed`: an analysis, and the same analysis with new names.
* **`analyze_renamed`**: the analysis of a renamed program.
-/

namespace TigerCheck

open Check

/-- New names, and all handles as they are. -/
def Names.labels (ν : Names) : Relabelling := { ν with handle := fun _ i => i }

theorem Names.Faithful.labels {ν : Names} (h : ν.Faithful) : ν.labels.Faithful :=
  ⟨h, fun _ => strictMono_id⟩

variable {ν : Names}

/-- A type has no name in it. -/
@[simp] theorem Ty.relabel_labels (t : Ty) : t.relabel ν.labels = t := by cases t <;> rfl

@[simp] theorem VarId.relabel_labels (v : VarId) : v.relabel ν.labels = v := rfl

@[simp] theorem FrameId.relabel_labels (f : FrameId) : f.relabel ν.labels = f := rfl

@[simp] theorem Signature.relabel_labels (s : Signature) : s.relabel ν.labels = s := by
  simp [Signature.relabel]

@[simp] theorem Origin.relabel_labels (o : Origin) : o.relabel ν.labels = o := by
  cases o <;> simp [Origin.relabel]

/-! ## Analyses -/

def Slot.nameless (s : Slot) : Slot := { s with name := "" }

def Frame.nameless (f : Frame) : Frame := { f with name := "" }

def Prototype.nameless (p : Prototype) : Prototype := { p with name := "" }

/-- An analysis, and the same analysis with new names. -/
structure Analysis.Renamed (ν : Names) (a b : Analysis) : Prop where
  result_eq : b.result = a.result
  slots_eq : b.frames.vars.map Slot.nameless = a.frames.vars.map Slot.nameless
  frames_eq : b.frames.frames.map Frame.nameless = a.frames.frames.map Frame.nameless
  functions_eq : b.frames.functions.map Prototype.nameless = a.frames.functions.map Prototype.nameless
  records_eq : b.types.records = a.types.records.map (·.relabel ν.labels)
  arrays_eq : b.types.arrays = a.types.arrays.map (·.relabel ν.labels)
  reports_eq : b.diagnostics.entries.toList.map (fun d => (d.location, d.fault.variant)) =
    a.diagnostics.entries.toList.map (fun d => (d.location, d.fault.variant))

theorem map_eq_of_aligned {α β γ : Type} {R : α → β → Prop} {xs : Array α} {ys : Array β} {f : α → γ} {g : β → γ}
    (h : Aligned (fun i => i) R xs ys) (hR : ∀ x y, R x y → g y = f x) : ys.map g = xs.map f := by
  refine Array.ext_getElem? fun i => ?_
  rw [Array.getElem?_map, Array.getElem?_map]
  have hrel := h i
  generalize xs[i]? = x at hrel
  generalize ys[i]? = y at hrel
  cases hrel with
  | none => rfl
  | some h => exact congrArg some (hR _ _ h)

/-- States that are the same up to names have the same analysis. -/
theorem Stage.Match.renamed (hν : ν.Faithful) {limit : Handle → ℕ} {c d : Checker}
    (h : @Stage.Match ν.labels ⟨hν.labels, limit, True, [], []⟩ c d) (result : Option Ty) :
    (c.finish result).Renamed ν (d.finish result) where
  result_eq := rfl
  slots_eq := map_eq_of_aligned h.vars fun s s' hs => by
    obtain ⟨hlevel, hoffset, hframe, hkind⟩ := hs.place_eq trivial
    have hty := hs.ty_eq
    simp only [Ty.relabel_labels, FrameId.relabel_labels, Option.map_id'] at hty hframe
    cases s
    cases s'
    simp_all [Slot.nameless]
  frames_eq := map_eq_of_aligned h.frames fun f f' hf => by
    have hlevel := hf.level_eq trivial
    have hparent := hf.parent_eq trivial
    have hslots := hf.slots_eq trivial
    have hlayout := hf.layout_eq trivial
    simp only [FrameId.relabel_labels, VarId.relabel_labels, Ty.relabel_labels, Option.map_id', Array.map_id'] at hparent hslots hlayout
    cases f
    cases f'
    simp_all [Frame.nameless]
  functions_eq := map_eq_of_aligned h.functions fun p p' hp => by
    have hsignature := hp.signature_eq
    have horigin := hp.origin_eq
    simp only [Signature.relabel_labels, Origin.relabel_labels, Option.map_id'] at hsignature horigin
    cases p
    cases p'
    simp_all [Prototype.nameless]
  records_eq := by
    have hrecords : d.types.records.map id = c.types.records.map (·.relabel ν.labels) :=
      map_eq_of_aligned h.records fun _ _ h => h
    rwa [Array.map_id] at hrecords
  arrays_eq := by
    have harrays : d.types.arrays.map id = c.types.arrays.map (·.relabel ν.labels) :=
      map_eq_of_aligned h.arrays fun _ _ h => h
    rwa [Array.map_id] at harrays
  reports_eq := by
    obtain ⟨posts, posts', hc, hd, hposts⟩ := h.diagnostics
    change d.diagnostics.entries.toList.map _ = c.diagnostics.entries.toList.map _
    rw [hc, hd]
    clear hc hd
    induction hposts with
    | nil => rfl
    | cons hpost _ ih => exact List.cons_eq_cons.mpr ⟨Prod.ext hpost.1 hpost.2.variant_eq, ih⟩

mutual

theorem Exp.nesting_relabel (ρ : Relabelling) : ∀ e : Exp, (e.relabel ρ).nesting = e.nesting
  | .nil _ | .int _ _ | .string _ _ | .breakLoop _ => rfl
  | .var _ v => by simp only [Exp.relabel, Exp.nesting, v.nesting_relabel ρ]
  | .call _ _ args _ => by simp only [Exp.relabel, Exp.nesting, nestings_relabelAll ρ args]
  | .binary _ _ left right => by simp only [Exp.relabel, Exp.nesting, left.nesting_relabel ρ, right.nesting_relabel ρ]
  | .record _ _ inits => by simp only [Exp.relabel, Exp.nesting, initNestings_relabelInits ρ inits]
  | .seq _ items => by simp only [Exp.relabel, Exp.nesting, nestings_relabelAll ρ items]
  | .assign _ target value => by simp only [Exp.relabel, Exp.nesting, target.nesting_relabel ρ, value.nesting_relabel ρ]
  | .cond _ test thenPart none => by
    simp only [Exp.relabel, Exp.nesting, test.nesting_relabel ρ, thenPart.nesting_relabel ρ]
  | .cond _ test thenPart (some elsePart) => by
    simp only [Exp.relabel, Exp.nesting, test.nesting_relabel ρ, thenPart.nesting_relabel ρ, elsePart.nesting_relabel ρ]
  | .whileLoop _ test body => by simp only [Exp.relabel, Exp.nesting, test.nesting_relabel ρ, body.nesting_relabel ρ]
  | .doWhile _ body test => by simp only [Exp.relabel, Exp.nesting, body.nesting_relabel ρ, test.nesting_relabel ρ]
  | .forLoop _ _ low high body _ => by
    simp only [Exp.relabel, Exp.nesting, low.nesting_relabel ρ, high.nesting_relabel ρ, body.nesting_relabel ρ]
  | .letIn _ decs body => by simp only [Exp.relabel, Exp.nesting, decNestings_relabelDecs ρ decs, body.nesting_relabel ρ]
  | .array _ _ size init => by simp only [Exp.relabel, Exp.nesting, size.nesting_relabel ρ, init.nesting_relabel ρ]

theorem Var.nesting_relabel (ρ : Relabelling) : ∀ v : Var, (v.relabel ρ).nesting = v.nesting
  | .simple .. => rfl
  | .field _ base _ _ => by simp only [Var.relabel, Var.nesting, base.nesting_relabel ρ]
  | .element _ base index => by simp only [Var.relabel, Var.nesting, base.nesting_relabel ρ, index.nesting_relabel ρ]

theorem Dec.nesting_relabel (ρ : Relabelling) : ∀ d : Dec, (d.relabel ρ).nesting = d.nesting
  | .type _ => rfl
  | .function _ body _ _ => by simp only [Dec.relabel, Dec.nesting, body.nesting_relabel ρ]
  | .var _ _ init _ _ => by simp only [Dec.relabel, Dec.nesting, init.nesting_relabel ρ]

theorem nestings_relabelAll (ρ : Relabelling) : ∀ es : List Exp, nestings (relabelAll ρ es) = nestings es
  | [] => rfl
  | e :: es => by simp only [relabelAll, nestings, e.nesting_relabel ρ, nestings_relabelAll ρ es]

theorem initNestings_relabelInits (ρ : Relabelling) : ∀ is : List (Ident × Exp),
    initNestings (relabelInits ρ is) = initNestings is
  | [] => rfl
  | (_, e) :: is => by simp only [relabelInits, initNestings, e.nesting_relabel ρ, initNestings_relabelInits ρ is]

theorem decNestings_relabelDecs (ρ : Relabelling) : ∀ ds : List Dec, decNestings (relabelDecs ρ ds) = decNestings ds
  | [] => rfl
  | d :: ds => by simp only [relabelDecs, decNestings, d.nesting_relabel ρ, decNestings_relabelDecs ρ ds]

end

/-! ## Renamed programs -/

/-- **Namespaces do not touch each other.** Variables, functions, types and fields of a program get new names,
different ones for different names of a namespace, and the intrinsics, `int` and `string` keep theirs. The
renamed program is checked to the checked program renamed: all cells are the same. The result, the slots, frames
and functions are the same but for their names, and the same faults are reported at the same places. Only if
functions are nested deeper than levels count, an analysis may break off. -/
theorem analyze_renamed (ν : Names) (hν : ν.Faithful) (hkeeps : ν.KeepsBuiltins) (p : Program) :
    (∃ p' a b, analyze p = .ok (p', a) ∧ analyze (p.relabel ν.labels) = .ok (p'.relabel ν.labels, b) ∧
      a.Renamed ν b) ∨
    (maxLevel < p.body.nesting ∧
      (analyze p = .error .levelOverflow ∨ analyze (p.relabel ν.labels) = .error .levelOverflow)) := by
  rcases analyze_ends p with ⟨p', a, c, ha, hrun, hresult, htypes, hframes, hreports, -⟩ | ⟨hdeep, h⟩
  swap
  · exact .inr ⟨hdeep, .inl h⟩
  rcases analyze_ends (p.relabel ν.labels) with ⟨q, b, d, hb, hrun', hresult', htypes', hframes', hreports', -⟩ |
    ⟨hdeep, h⟩
  swap
  · exact .inr ⟨hdeep.trans_eq (p.body.nesting_relabel _), .inr h⟩
  refine .inl ⟨p', a, b, ha, ?_⟩
  obtain ⟨body, c₁, frames, hbody, hfin, rfl, rfl⟩ := exists_of_run_checkFromStart hrun
  obtain ⟨body', d₁, frames', hbody', hfin', rfl, rfl⟩ := exists_of_run_checkFromStart hrun'
  let S : Stage ν.labels := ⟨hν.labels, Checker.count { c₁ with frames }, True, [], []⟩
  have hend : ∀ {e : Checker} {frames : FrameTable}, e.frames.finalize Checker.initial.mainFrame = .ok frames →
      (finalize Checker.initial.mainFrame).run e = .ok ((), { e with frames }) := by
    intro e frames hfin
    obtain ⟨_, _, hrun, rfl⟩ := (yields_finalize.mpr ⟨frames, hfin, rfl⟩ :
      Yields (finalize Checker.initial.mainFrame) e fun _ e' => e' = { e with frames })
    exact hrun
  -- both the walk and the layout of the main frame carry over
  obtain ⟨-, hexp⟩ := Stage.carries_exp (S := S) p.body ⟨0, Checker.initial.mainFrame, 0⟩ _ _ _ hbody
  obtain ⟨hle, hfinal⟩ := Stage.carries_finalize (S := S) Checker.initial.mainFrame _ _ _ (hend hfin)
  obtain ⟨rfl, hM⟩ := hexp _ _ _ hbody' (S.match_initial hkeeps (fun _ _ _ => rfl) rfl rfl) hle
  obtain ⟨-, hM⟩ := hfinal _ _ _ (hend hfin') hM le_rfl
  have hsame := Stage.Match.renamed hν hM body.ty
  refine ⟨hb, ?_, ?_, ?_, ?_, ?_, ?_, ?_⟩
  · rw [hresult, hresult', Exp.ty_relabel]
    change body.ty.map (·.relabel ν.labels) = body.ty
    simp only [Ty.relabel_labels, Option.map_id']
  · rw [hframes, hframes']
    exact hsame.slots_eq
  · rw [hframes, hframes']
    exact hsame.frames_eq
  · rw [hframes, hframes']
    exact hsame.functions_eq
  · rw [htypes, htypes']
    exact hsame.records_eq
  · rw [htypes, htypes']
    exact hsame.arrays_eq
  · rw [hreports, hreports']
    exact hsame.reports_eq

/-- In every namespace two names are exchanged: variables called `staticLink` with those called `x`, and so on. -/
def exchanged : Names where
  value := Equiv.swap "x" "staticLink"
  function := Equiv.swap "x" "y"
  typeName := Equiv.swap "x" "frame"
  field := Equiv.swap "x" "int"

/-- A type, a function, a parameter, a variable and a field share one name. A field that does not exist is asked for. -/
def oneName : Program where
  body := Build.letIn [Build.typeDec "x" (Build.recordOf [("x", "int")]),
      Build.functionDec "x" [("x", "x")] (some "int") (Build.var (Build.field (Build.simple "x") "x")),
      Build.varDec "x" (some "x") (Build.record "x" [("x", Build.int 1)])]
    (Build.seq [Build.call "x" [Build.named "x"], Build.var (Build.field (Build.simple "x") "y")])

/-- The names of the program are exchanged, and all that is found out stays the same. -/
theorem analyze_renamed_oneName : exchanged.Faithful ∧ exchanged.KeepsBuiltins ∧
    ∃ p' a b, analyze oneName = .ok (p', a) ∧
      analyze (oneName.relabel exchanged.labels) = .ok (p'.relabel exchanged.labels, b) ∧ a.Renamed exchanged b := by
  have hfaithful : exchanged.Faithful :=
    ⟨Equiv.injective _, Equiv.injective _, Equiv.injective _, Equiv.injective _⟩
  have hkeeps : exchanged.KeepsBuiltins := ⟨by decide, by decide, by decide⟩
  refine ⟨hfaithful, hkeeps, ?_⟩
  rcases analyze_renamed exchanged hfaithful hkeeps oneName with h | ⟨hdeep, -⟩
  · exact h
  · exact absurd hdeep (by decide +kernel)

/-- Only the field that does not exist is reported. -/
example : (analyze oneName).toOption.map (fun r => r.2.diagnostics.entries.toList.map (·.fault)) =
    some [.unknownField "y"] := by
  decide +kernel

end TigerCheck
