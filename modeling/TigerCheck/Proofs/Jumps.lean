import TigerCheck.Proofs.Tame.Faults
import TigerCheck.Proofs.Walk.Program
import TigerCheck.Proofs.Walk.Traced

/-!
# Breaks and loops

A break leaves the innermost loop whose body it stands in, and the body of a function is in no loop of the
functions around it. The checker counts loops on its way; here a break is judged by what is met on the way
up from it.

* `Enclosure`: the body of a loop, or that of a function.
* `Jump`: a break, with the bodies it stands in. `InLoop`, `Jump.Stray`: whether it has a loop to leave.
* `Exp.jumps`, `Var.jumps`, `Dec.jumps`: the breaks in a tree, in the order of evaluation.
* `Diagnostics.strays`: where breaks outside loops were reported.
* `Diagnostics.Judges`: just the strays among some breaks were reported.
* **`Traced.judges`**: the check of a part judges the live breaks in it.
* **`analyze_jumps`**: so does the analysis of a program.
-/

namespace TigerCheck

open Check

/-! ## Breaks -/

/-- What counts on the way up from a break: the body of a loop, or that of a function. -/
inductive Enclosure where
  | loop
  | function
deriving DecidableEq

/-- A break, and the bodies that it stands in, from the inside out. -/
structure Jump where
  mark : Mark
  within : List Enclosure

/-- The body of a loop is met on the way up, not past the innermost function. -/
def InLoop (within : List Enclosure) : Prop := Enclosure.loop ∈ within.takeWhile (· ≠ .function)

instance (within : List Enclosure) : Decidable (InLoop within) := by unfold InLoop; infer_instance

namespace Jump

/-- A break without a loop to leave. -/
def Stray (j : Jump) : Prop := ¬ InLoop j.within

instance (j : Jump) : Decidable j.Stray := by unfold Stray; infer_instance

/-- A break that is in place gives no value, and a stray one has no type. -/
def judged (j : Jump) : Jump := { j with mark := j.mark.typed (if j.Stray then none else some .void) }

end Jump

/-- The places of the stray breaks among some. -/
def strays (js : List Jump) : List Location := (js.filter (·.Stray)).map (·.mark.loc)

theorem strays_append (js ks : List Jump) : strays (js ++ ks) = strays js ++ strays ks := by
  rw [strays, List.filter_append, List.map_append]
  rfl

mutual

/-- The breaks in an expression, given the bodies around it. Tests and bounds stand outside their loop. -/
def Exp.jumps (within : List Enclosure) : Exp → List Jump
  | .nil _ | .int _ _ | .string _ _ => []
  | .var _ v => v.jumps within
  | .call _ _ args _ => jumpsAll within args
  | .binary _ _ left right => left.jumps within ++ right.jumps within
  | .record _ _ inits => jumpsInits within inits
  | .seq _ items => jumpsAll within items
  | .assign _ target value => target.jumps within ++ value.jumps within
  | .cond _ test thenPart none => test.jumps within ++ thenPart.jumps within
  | .cond _ test thenPart (some elsePart) =>
    test.jumps within ++ thenPart.jumps within ++ elsePart.jumps within
  | .whileLoop _ test body => test.jumps within ++ body.jumps (.loop :: within)
  | .doWhile _ body test => body.jumps (.loop :: within) ++ test.jumps within
  | .forLoop _ _ low high body _ =>
    low.jumps within ++ high.jumps within ++ body.jumps (.loop :: within)
  | .breakLoop m => [⟨m, within⟩]
  | .letIn _ decs body => jumpsDecs within decs ++ body.jumps within
  | .array _ _ size init => size.jumps within ++ init.jumps within

/-- The breaks in a variable. -/
def Var.jumps (within : List Enclosure) : Var → List Jump
  | .simple .. => []
  | .field _ base _ _ => base.jumps within
  | .element _ base index => base.jumps within ++ index.jumps within

/-- The breaks in a declaration. -/
def Dec.jumps (within : List Enclosure) : Dec → List Jump
  | .type _ => []
  | .function _ body _ _ => body.jumps (.function :: within)
  | .var _ _ init _ _ => init.jumps within

def jumpsAll (within : List Enclosure) : List Exp → List Jump
  | [] => []
  | e :: es => e.jumps within ++ jumpsAll within es

def jumpsInits (within : List Enclosure) : List (Ident × Exp) → List Jump
  | [] => []
  | (_, e) :: inits => e.jumps within ++ jumpsInits within inits

def jumpsDecs (within : List Enclosure) : List Dec → List Jump
  | [] => []
  | d :: ds => d.jumps within ++ jumpsDecs within ds

end

theorem jumpsDecs_append (within : List Enclosure) (ds es : List Dec) :
    jumpsDecs within (ds ++ es) = jumpsDecs within ds ++ jumpsDecs within es := by
  induction ds with
  | nil => rfl
  | cons d ds ih => rw [List.cons_append, jumpsDecs, jumpsDecs, ih, List.append_assoc]

/-- There is no break in a run of types. -/
theorem jumpsDecs_types (within : List Enclosure) (ts : List TypeDec) : ∀ o : OpenRun,
    jumpsDecs within (liveDecs o (ts.map .type)) = [] := by
  induction ts with
  | nil => exact fun _ => rfl
  | cons t ts ih =>
    intro o
    rw [List.map_cons, liveDecs]
    split
    · exact ih _
    · exact ih _

/-! ## Reports of stray breaks -/

/-- The places where a break outside every loop was reported, in order. -/
def Diagnostics.strays (ds : Diagnostics) : List Location :=
  (ds.entries.toList.filter (·.fault = .breakOutsideLoop)).map (·.location)

namespace Diagnostics

variable {ds ds' ds'' : Diagnostics} {js js' ks ks' : List Jump}

/-- Reports of other faults leave those of breaks as they are. -/
theorem strays_eq {rs : List Diagnostic} (hrs : ∀ r ∈ rs, r.fault ≠ .breakOutsideLoop)
    (heq : ds'.entries.toList = ds.entries.toList ++ rs) : ds'.strays = ds.strays := by
  have hnone : rs.filter (·.fault = .breakOutsideLoop) = [] :=
    List.filter_eq_nil_iff.mpr fun r hr hbreak => hrs r hr (of_decide_eq_true hbreak)
  rw [strays, heq, List.filter_append, hnone, List.append_nil]
  rfl

/-- Of some breaks, just the strays were reported, and every break has got its type. -/
structure Judges (ds ds' : Diagnostics) (js js' : List Jump) : Prop where
  reported : ds'.strays = ds.strays ++ TigerCheck.strays js
  judged : js' = js.map Jump.judged

namespace Judges

theorem nil (h : ds'.strays = ds.strays) : ds.Judges ds' [] [] := ⟨h.trans (List.append_nil _).symm, rfl⟩

theorem append (h : ds.Judges ds' js js') (h' : ds'.Judges ds'' ks ks') :
    ds.Judges ds'' (js ++ ks) (js' ++ ks') where
  reported := by rw [h'.reported, h.reported, strays_append, List.append_assoc]
  judged := by rw [h.judged, h'.judged, List.map_append]

/-- What comes before the breaks may report other faults. -/
theorem before (h : ds'.Judges ds'' js js') (heq : ds'.strays = ds.strays) : ds.Judges ds'' js js' :=
  (nil heq).append h

/-- What comes after the breaks may report other faults. -/
theorem behind (h : ds.Judges ds' js js') (heq : ds''.strays = ds'.strays) : ds.Judges ds'' js js' where
  reported := heq.trans h.reported
  judged := h.judged

end Judges

end Diagnostics

namespace Check

variable {α : Type} {F : Fault → Prop} {m : Check α} {c c' : Checker} {a : α}

theorem ReportsOnly.strays_eq (h : ReportsOnly F m) (hF : ¬ F .breakOutsideLoop)
    (hm : m.run c = .ok (a, c')) : c'.diagnostics.strays = c.diagnostics.strays := by
  obtain ⟨rs, hrs, heq⟩ := h c a c' hm
  exact Diagnostics.strays_eq (fun r hr hbreak => hF (hbreak ▸ hrs r hr)) heq

/-- A typing rule reports no break. -/
theorem Passive.strays_eq {ok : Prop} {good : α → Prop} (h : Passive Fault.IsPlain ok m good)
    (hm : m.run c = .ok (a, c')) : c'.diagnostics.strays = c.diagnostics.strays :=
  (ReportsOnly.of_passive h).strays_eq id hm

/-- The name of a function may be unknown, which is no break either. -/
theorem strays_call {loc : Location} {callee : Ident} {target : Option Rule.Target} {args : ℕ} {fit : Bool}
    {ty : Option Ty} (h : (Rule.call loc callee target args fit).run c = .ok (ty, c')) :
    c'.diagnostics.strays = c.diagnostics.strays := by
  have hplain : ∀ f : Fault, f.IsPlain → f ≠ .breakOutsideLoop := by
    rintro _ hf rfl
    exact hf
  have hrule : Passive (· ≠ .breakOutsideLoop) (fit = true) (Rule.call loc callee target args fit) (· ≠ none) :=
    passive_call hplain target nofun
  exact (ReportsOnly.of_passive hrule).strays_eq (fun hne => hne rfl) h

theorem strays_simple {loc : Location} {name : String} {r : Option VarId × Option Ty}
    (h : (Rule.simple loc name).run c = .ok (r, c')) : c'.diagnostics.strays = c.diagnostics.strays := by
  have hrule : Passive (· = .undefinedVariable name) True (Rule.simple loc name) (·.2 ≠ none) :=
    passive_simple rfl
  exact (ReportsOnly.of_passive hrule).strays_eq nofun h

theorem strays_typeOf {name : Ident} {ty : Option Ty} (h : (typeOf name).run c = .ok (ty, c')) :
    c'.diagnostics.strays = c.diagnostics.strays := (reportsOnly_typeOf name).strays_eq id h

/-- Nor does the end of the declaration of a variable. -/
theorem strays_declared {typeName : Option Ident} {init : Mark} {literal : Bool} {d : Option Ty × Bool}
    (h : (Rule.declared typeName init literal).run c = .ok (d, c')) :
    c'.diagnostics.strays = c.diagnostics.strays := by
  cases typeName with
  | none => exact (passive_inferred init).strays_eq h
  | some typeName =>
    rw [Rule.declared, Rule.annotated_eq] at h
    obtain ⟨ty, c₁, h₁, h₂⟩ := exists_of_run_bind h
    exact ((passive_against ty init).strays_eq h₂).trans (strays_typeOf h₁)

end Check

/-! ## The course of a check -/

/-- The live breaks in a part, before and after its check. -/
def Part.jumps (within : List Enclosure) : Part → List Jump × List Jump
  | .exp e e' => (e.live.jumps within, e'.live.jumps within)
  | .var v v' => (v.live.jumps within, v'.live.jumps within)
  | .items es es' => (jumpsAll within (liveAll es), jumpsAll within (liveAll es'))
  | .inits is is' => (jumpsInits within (liveInits is), jumpsInits within (liveInits is'))
  | .decs o ds ds' => (jumpsDecs within (liveDecs o ds), jumpsDecs within (liveDecs o ds'))

/-- Loops are counted as they are met on the way up. -/
def Context.Counts (ctx : Context) (within : List Enclosure) : Prop := ctx.inLoop = true ↔ InLoop within

theorem Context.counts_enterLoop (ctx : Context) (within : List Enclosure) :
    ctx.enterLoop.Counts (.loop :: within) :=
  ⟨fun _ => List.mem_cons_self, fun _ => decide_eq_true (Nat.succ_pos _)⟩

theorem Context.counts_function (level : ℕ) (frame : FrameId) (within : List Enclosure) :
    Context.Counts ⟨level, frame, 0⟩ (.function :: within) :=
  ⟨nofun, nofun⟩

/-- **The check of a part judges the live breaks in it**, whatever else is wrong there. -/
theorem Traced.judges {ctx : Context} {part : Part} {c c' : Checker} (h : Traced ctx part c c') :
    ∀ {within : List Enclosure}, ctx.Counts within →
      c.diagnostics.Judges c'.diagnostics (part.jumps within).1 (part.jumps within).2 := by
  induction h with
  | nil | int | string | noItem | noInit | noDec => exact fun _ => .nil rfl
  | @jump ctx c m hloop =>
    intro within hw
    have hin : ¬ Jump.Stray ⟨m, within⟩ := not_not_intro (hw.mp hloop)
    refine ⟨?_, ?_⟩
    · simp [Part.jumps, Exp.live, Exp.jumps, strays, hin]
    · simp [Part.jumps, Exp.live, Exp.jumps, Jump.judged, hin]
  | @stray ctx c m hloop =>
    intro within hw
    have hout : Jump.Stray ⟨m, within⟩ := fun hin => Bool.false_ne_true (hloop.symm.trans (hw.mpr hin))
    refine ⟨?_, ?_⟩
    · simp [Part.jumps, Exp.live, Exp.jumps, strays, hout, Diagnostics.strays, Checker.reported, Diagnostics.report]
    · simp [Part.jumps, Exp.live, Exp.jumps, Jump.judged, hout]
  | var _ ih | seq _ ih => exact ih
  | call _ _ hrule ih =>
    exact fun hw => (ih hw).behind (strays_call hrule)
  | binary _ _ hrule ihl ihr =>
    exact fun hw => ((ihl hw).append (ihr hw)).behind ((passive_binary _ _).strays_eq hrule)
  | record hty _ hfields _ ih =>
    exact fun hw => (ih hw).before (((passive_recordFields _).strays_eq hfields).trans (strays_typeOf hty))
  | assign _ _ hrule iht ihv =>
    exact fun hw => ((iht hw).append (ihv hw)).behind ((passive_assign _ _).strays_eq hrule)
  | condNone _ _ hrule iht ihp =>
    exact fun hw => ((iht hw).append (ihp hw)).behind ((passive_cond _ _ _).strays_eq hrule)
  | condSome _ _ _ hrule iht ihp ihe =>
    exact fun hw => (((iht hw).append (ihp hw)).append (ihe hw)).behind ((passive_cond _ _ _).strays_eq hrule)
  | @whileLoop ctx _ _ _ _ _ _ _ _ _ _ _ _ hrule iht ihb =>
    exact fun hw => ((iht hw).append (ihb (ctx.counts_enterLoop _))).behind ((passive_loop _ _).strays_eq hrule)
  | @doWhile ctx _ _ _ _ _ _ _ _ _ _ _ _ hrule ihb iht =>
    exact fun hw => ((ihb (ctx.counts_enterLoop _)).append (iht hw)).behind ((passive_loop _ _).strays_eq hrule)
  | @forLoop ctx _ _ _ _ _ _ _ _ _ _ _ _ _ _ _ _ _ _ _ hbounds _ _ _ ihl ihh ihb =>
    exact fun hw => (((ihl hw).append (ihh hw)).behind ((passive_bounds _ _).strays_eq hbounds)).append
      (ihb (ctx.counts_enterLoop _))
  | letIn _ _ ihd ihb => exact fun hw => (ihd hw).append (ihb hw)
  | array hty _ _ _ hrule ihz ihi =>
    exact fun hw => (((ihz hw).append (ihi hw)).behind ((passive_array _ _ _).strays_eq hrule)).before
      (strays_typeOf hty)
  | simple hrule =>
    exact fun _ => .nil (strays_simple hrule)
  | field _ hrule ih => exact fun hw => (ih hw).behind ((passive_field _).strays_eq hrule)
  | element _ _ hrule ihb ihi =>
    exact fun hw => ((ihb hw).append (ihi hw)).behind ((passive_element _ _).strays_eq hrule)
  | item _ harg _ ih ihs =>
    exact fun hw => ((ih hw).behind ((passive_arg _ _).strays_eq harg)).append (ihs hw)
  | init hplace _ hinit _ ih ihs =>
    exact fun hw => (((ih hw).before ((passive_place _).strays_eq hplace)).behind
      ((passive_init _ _).strays_eq hinit)).append (ihs hw)
  | types hrun _ _ ih =>
    intro within hw
    simp only [Part.jumps, liveDecs_append, jumpsDecs_append, jumpsDecs_types, List.nil_append]
    exact (ih hw).before ((reportsOnly_typeRun _).strays_eq id hrun)
  | opened hk hd hopen _ _ ih =>
    intro within hw
    simp only [Part.jumps, liveDecs_opens hk, liveDecs_opens (hd ▸ hk), hd]
    exact (ih hw).before ((reportsOnly_openRun _).strays_eq id hopen)
  | dropped hk hseen hr _ ih =>
    intro within hw
    simp only [Part.jumps, liveDecs_of_mem hk hseen]
    obtain ⟨rs, hrs, heq⟩ := hr.exists_entries
    exact (ih hw).before (Diagnostics.strays_eq (fun r hmem hbreak =>
      Fault.noConfusion ((hrs r hmem).symm.trans hbreak)) heq)
  | @function ctx _ _ _ _ _ h _ _ _ _ _ _ _ _ _ hseen _ _ _ hbody _ ih ihs =>
    intro within hw
    have hreports := (passive_body _ _).strays_eq hbody
    simp only [Part.jumps, liveDecs_function hseen]
    exact ((ih (Context.counts_function h.level h.frame within)).behind hreports).append (ihs hw)
  | «variable» hseen _ hdecl _ _ _ ih ihs =>
    intro within hw
    simp only [Part.jumps, liveDecs_var hseen]
    exact ((ih hw).behind (strays_declared hdecl)).append (ihs hw)

/-! ## Programs -/

/-- **Breaks outside loops are reported, and no others.** An analysis ends unless functions are nested deeper
than levels count. Take the breaks of the program, without the declarations that are dropped because their
names occur earlier in their runs. Those that meet no body of a loop on the way up to the innermost function
are reported, each once and in the order of evaluation; nothing else is reported as such a break. In the
checked program the breaks are the same ones; a reported one has no type, and every other gives no value. -/
theorem analyze_jumps (p : Program) :
    (∃ p' a, analyze p = .ok (p', a) ∧ a.diagnostics.strays = strays (p.body.live.jumps []) ∧
      p'.body.live.jumps [] = (p.body.live.jumps []).map Jump.judged) ∨
    (maxLevel < p.body.nesting ∧ analyze p = .error .levelOverflow) := by
  rcases analyze_ends p with ⟨p', a, c, ha, hrun, -, -, -, hdiag, -⟩ | h
  · obtain ⟨body, c₁, frames, hbody, -, rfl, rfl⟩ := exists_of_run_checkFromStart hrun
    have hw := Checker.walked_note Checker.initial_sound .started
    have htraced := traced_exp hw.sound (Checker.initial_sits.walked hw) hbody
    have hoffLoops : Context.Counts ⟨0, Checker.initial.mainFrame, 0⟩ [] := ⟨nofun, nofun⟩
    obtain ⟨hreported, hjudged⟩ := htraced.judges hoffLoops
    refine .inl ⟨_, a, ha, ?_, hjudged⟩
    rw [hdiag]
    exact hreported
  · exact .inr h

/-- A break in a procedure that is declared in the body of a loop, and one behind the declaration. -/
def procedureInLoop : Program where
  body := .whileLoop {} (.int {} 1) (.letIn {}
    [.function ⟨{ name := "f" }, [], none⟩ (.breakLoop { loc := ⟨2, 3⟩ }) .unknown none]
    (.breakLoop { loc := ⟨3, 3⟩ }))

/-- The loop is not that of the procedure. -/
example : (analyze procedureInLoop).toOption.map (fun r => r.2.diagnostics.strays) = some [⟨2, 3⟩] := by
  decide +kernel

end TigerCheck
