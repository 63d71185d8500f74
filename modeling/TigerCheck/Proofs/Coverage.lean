import TigerCheck.Proofs.Scope.Program
import TigerCheck.Proofs.Walk.Followed
import TigerCheck.Report

/-!
# Every node is checked once

Whatever is wrong with a program, the check of a node goes through all its parts, so nothing that can be
reported is missed and nothing is reported or allocated twice. The declarations whose names occur earlier in
their runs are the exception: they are passed over, with all that is in them.

* `watchFromStart_eq`: a watched walk over a program.
* `slotCount`, `Site.isFunction`: how much a site adds to the tables.
* **`analyze_covers`**: the nodes that are checked, and the tables that this leaves behind.
-/

namespace TigerCheck

open Check

/-- **The walk over a program checks every live node once**, in the order of evaluation. -/
theorem watchFromStart_eq (p : Program) {p' : Program} {c : Checker}
    (h : (checkFromStart p).run .initial = .ok (p', c)) :
    ((watchFromStart p).run []).run .initial = .ok ((p', p.body.nodes []), c) := by
  have hw := Checker.walked_note Checker.initial_sound .started
  have hbody : Watched.Follows (watchFromStart p) (checkFromStart p) .initial (p.body.nodes []) := by
    unfold watchFromStart checkFromStart checkProgram
    refine .lift _ fun _ c₁ h₁ => .lift _ fun _ c₂ h₂ => ?_
    obtain rfl := eq_of_run_log h₁
    cases h₂
    exact .last (expFollowed p.body hw.sound (Checker.initial_sits.walked hw)) fun _ _ _ =>
      .lift _ fun _ _ _ => .pure _
  rw [hbody [], h]
  rfl

/-! ## The sizes of the tables -/

/-- The number of slots that belong to a site: one for a variable or a counter; for a function, one for the
static link and one for each parameter. -/
def Site.slotCount : Site → ℕ
  | .slot .. => 1
  | .function _ head _ _ => 1 + head.params.length
  | _ => 0

/-- The number of slots that belong to some sites. -/
def slotCount : List Site → ℕ
  | [] => 0
  | s :: sites => s.slotCount + slotCount sites

/-- Whether a function is declared at a site. -/
def Site.isFunction : Site → Bool
  | .function .. => true
  | _ => false

/-- Where just the items from some place on have a property, there are as many of them. -/
theorem countP_of_getElem? {α : Type} {q : α → Bool} {k : ℕ} {l : List α}
    (h : ∀ i x, l[i]? = some x → q x = decide (k ≤ i)) : l.countP q = l.length - k := by
  have htake : (l.take k).countP q = 0 := by
    refine List.countP_eq_zero.mpr fun x hx => ?_
    obtain ⟨i, hi, hx⟩ := List.mem_take_iff_getElem.mp hx
    rw [h i x (List.getElem?_eq_some_iff.mpr ⟨by omega, hx⟩), decide_eq_false (by omega)]
    exact Bool.false_ne_true
  have hdrop : (l.drop k).countP q = (l.drop k).length := by
    refine List.countP_eq_length.mpr fun x hx => ?_
    obtain ⟨i, hi, hx⟩ := List.mem_drop_iff_getElem.mp hx
    rw [h (k + i) x (List.getElem?_eq_some_iff.mpr ⟨Nat.add_comm i k ▸ hi, hx⟩), decide_eq_true (Nat.le_add_right ..)]
  rw [← List.take_append_drop k l, List.countP_append, htake, hdrop, Nat.zero_add, List.length_drop,
    List.take_append_drop]

namespace ProgramSurveyed

variable {p p' : Program} {c : Checker}

theorem length_slots (h : ProgramSurveyed p p' c) {s : Site} (hs : s ∈ p'.sites c.frames) :
    (s.slots c.frames).length = s.slotCount := by
  cases s with
  | function pl head body cell =>
    obtain ⟨id, frame, link, params, rfl, hhead, -⟩ := h.holds _ hs
    rw [Site.slots_of_declared hhead.prototype, List.length_cons, List.length_map, Site.slotCount,
      hhead.params.length_eq, Nat.add_comm]
  | use | call | typeName | slot => rfl

/-- There is a slot for every variable and counter, and for the link and the parameters of every function. -/
theorem size_vars (h : ProgramSurveyed p p' c) : c.frames.vars.size = slotCount (p'.sites c.frames) := by
  have hcount : ∀ sites : List Site, (∀ s ∈ sites, s ∈ p'.sites c.frames) →
      (sites.flatMap (Site.slots c.frames)).length = slotCount sites := by
    intro sites hsub
    induction sites with
    | nil => rfl
    | cons s sites ih =>
      obtain ⟨hs, hsub⟩ := List.forall_mem_cons.mp hsub
      rw [List.flatMap_cons, List.length_append, h.length_slots hs, ih hsub, slotCount]
  rw [← hcount _ fun _ hs => hs, h.slots, length_handles, Nat.sub_zero]

theorem length_functions (sites : List Site) :
    (sites.flatMap Site.functions).length = sites.countP Site.isFunction := by
  induction sites with
  | nil => rfl
  | cons s sites ih =>
    rw [List.flatMap_cons, List.length_append, ih, List.countP_cons, Nat.add_comm]
    cases s <;> rfl

theorem length_frames (t : FrameTable) (sites : List Site) :
    (sites.flatMap (Site.frames t)).length = sites.countP Site.isFunction := by
  induction sites with
  | nil => rfl
  | cons s sites ih =>
    rw [List.flatMap_cons, List.length_append, ih, List.countP_cons, Nat.add_comm]
    cases s <;> rfl

/-- A function of the table is an intrinsic or declared in the program, by its handle. -/
theorem isIntrinsic_eq (h : ProgramSurveyed p p' c) {i : ℕ} {f : Prototype}
    (hf : c.frames.functions[i]? = some f) : f.isIntrinsic = decide (i < Intrinsic.all.length) := by
  by_cases hi : i < Intrinsic.all.length
  · have hinitial : Checker.initial.frames.functions[i]? = some (Intrinsic.all[i].prototype) := by
      rw [Checker.initial_tables.2.2.1]
      simp [hi]
    have hgrown := h.grown.function ⟨i⟩ _ hinitial
    rw [decide_eq_true hi, ← Option.some.inj (hgrown.symm.trans hf)]
    rfl
  · have hmem : some (FunctionId.mk i) ∈ (p'.sites c.frames).flatMap Site.functions := by
      rw [h.functions]
      exact mem_handles_of_lt (fun i => some (FunctionId.mk i)) (Nat.le_of_not_lt hi)
        (Array.getElem?_eq_some_iff.mp hf).1
    obtain ⟨s, hs, hcell⟩ := List.mem_flatMap.mp hmem
    cases s with
    | function pl head body cell =>
      obtain ⟨id, frame, link, params, rfl, hhead, -⟩ := h.holds _ hs
      cases List.mem_singleton.mp hcell
      rw [decide_eq_false hi, ← Option.some.inj (hhead.prototype.symm.trans hf)]
      rfl
    | use | call | typeName | slot => cases hcell

/-- There is a function for every declaration of one, beside the intrinsics. -/
theorem countP_functions (h : ProgramSurveyed p p' c) :
    c.frames.functions.toList.countP (!·.isIntrinsic) = (p'.sites c.frames).countP Site.isFunction := by
  have hlength := congrArg List.length h.functions
  rw [length_handles, length_functions] at hlength
  rw [hlength]
  refine countP_of_getElem? fun i f hf => ?_
  rw [h.isIntrinsic_eq (Array.getElem?_toList.symm.trans hf), ← decide_not]
  exact decide_eq_decide.mpr Nat.not_lt

/-- There is a frame for every function, beside the main frame. -/
theorem size_frames (h : ProgramSurveyed p p' c) :
    c.frames.frames.size = (p'.sites c.frames).countP Site.isFunction + 1 := by
  have hlength := congrArg List.length h.frames
  obtain ⟨fr, hfr, -⟩ := h.main
  have hlt := (Array.getElem?_eq_some_iff.mp hfr).1
  rw [length_handles, length_frames] at hlength
  omega

end ProgramSurveyed

/-- **Every live node is checked exactly once, and no other.** A program whose cells are empty has an
analysis, unless functions are nested deeper than levels count. The walk begins the check of every live
expression and variable once, and of no other. Afterwards every live variable, counter and function has a
handle of its own, all cells in dropped declarations are empty, and the tables hold what the live
declarations ask for and nothing else. -/
theorem analyze_covers (p : Program) (hp : p.body.blank = p.body) (elapsedMs : ℕ) :
    (∃ p' a c, analyze p = .ok (p', a) ∧ (checkFromStart p).run .initial = .ok (p', c) ∧
      ((watchFromStart p).run []).run .initial = .ok ((p', p.body.nodes []), c) ∧
      (p.body.nodes []).Nodup ∧
      AllDistinct ((p'.sites a.frames).flatMap (Site.slots a.frames)) ∧
      AllDistinct ((p'.sites a.frames).flatMap Site.functions) ∧
      (∀ d ∈ p'.body.dropped, d.blank = d) ∧
      (Stats.ofAnalysis a elapsedMs).slots = slotCount (p'.sites a.frames) ∧
      (Stats.ofAnalysis a elapsedMs).functions = (p'.sites a.frames).countP Site.isFunction ∧
      (Stats.ofAnalysis a elapsedMs).frames = (p'.sites a.frames).countP Site.isFunction + 1) ∨
    (maxLevel < p.body.nesting ∧ analyze p = .error .levelOverflow) := by
  rcases analyze_surveyed hp with ⟨p', a, c, ha, hs, hrun, hframes, -, -⟩ | h
  · refine .inl ⟨p', a, c, ha, hrun, watchFromStart_eq p hrun, p.body.nodup_nodes [], ?_⟩
    unfold Stats.ofAnalysis Analysis.functionCount
    rw [hframes]
    refine ⟨hs.slots_distinct, hs.functions_distinct, ?_, hs.size_vars, hs.countP_functions, hs.size_frames⟩
    rw [hs.dropped]
    exact p.body.allBlank_dropped hp
  · exact .inr h

/-- A call of a function that is not declared, a record literal of such a type, and declarations that are
dropped, with calls and declarations in all of them. -/
def faultyParts : Program where
  body := .letIn {} [
      .function ⟨{ name := "f" }, [⟨{ name := "a" }, { name := "int" }⟩], none⟩
        (.call {} { name := "g" } [
            .letIn {} [.var { name := "x" } none (.int {} 1) .unknown none]
              (.var {} (.simple {} "x" none)),
            .record {} { name := "t" } [({ name := "b" }, .call {} { name := "f" } [] none)]] none)
        .unknown none,
      .function ⟨{ name := "f" }, [], none⟩
        (.forLoop {} { name := "i" } (.int {} 0) (.int {} 1) (.nil {}) none) .unknown none,
      .var { name := "y" } (some { name := "t" }) (.int {} 2) .unknown none,
      .var { name := "y" } none (.call {} { name := "f" } [.int {} 3] none) .unknown none]
    (.forLoop {} { name := "j" } (.string {} "") (.nil {})
      (.assign {} (.field {} (.simple {} "y" none) { name := "b" } none) (.breakLoop {})) none)

theorem faultyParts_covers : faultyParts.body.blank = faultyParts.body ∧
    ((∃ p' a c, analyze faultyParts = .ok (p', a) ∧ (checkFromStart faultyParts).run .initial = .ok (p', c) ∧
      ((watchFromStart faultyParts).run []).run .initial = .ok ((p', faultyParts.body.nodes []), c) ∧
      (faultyParts.body.nodes []).Nodup ∧
      AllDistinct ((p'.sites a.frames).flatMap (Site.slots a.frames)) ∧
      AllDistinct ((p'.sites a.frames).flatMap Site.functions) ∧
      (∀ d ∈ p'.body.dropped, d.blank = d) ∧
      (Stats.ofAnalysis a 5).slots = slotCount (p'.sites a.frames) ∧
      (Stats.ofAnalysis a 5).functions = (p'.sites a.frames).countP Site.isFunction ∧
      (Stats.ofAnalysis a 5).frames = (p'.sites a.frames).countP Site.isFunction + 1) ∨
    (maxLevel < faultyParts.body.nesting ∧ analyze faultyParts = .error .levelOverflow)) :=
  ⟨rfl, analyze_covers faultyParts rfl 5⟩

/-- Two of the variables, one counter, and the link and the parameter of one function have slots. -/
example : (analyze faultyParts).toOption.map (fun r => ((Stats.ofAnalysis r.2 5).slots,
    (Stats.ofAnalysis r.2 5).functions, (Stats.ofAnalysis r.2 5).frames)) = some (5, 1, 2) := by
  decide +kernel

end TigerCheck
