import TigerCheck.Proofs.Flow.Walk
import TigerCheck.Proofs.Walk.Stop

/-!
# Where types are in the middle of a walk

Types are where they may be not only when a walk has ended, but also wherever it enters an expression.

* `upholds_enterEach`, `upholds_enterInits`, `upholds_enterDecs`: walks over lists of which one part is missing.
* **`ExpHole.upholds`**: the walk as far as a missing expression leaves a proper state behind.
-/

namespace TigerCheck

open Check

/-- A walk that stops in a proper state. -/
abbrev StopsProper {α : Type} (m : Check (Stop α)) (c : Checker) : Prop := Upholds m c fun _ _ => True

section

variable {α β : Type} {c : Checker} {ctx : Context}

/-- What comes behind the stop does not matter. -/
theorem StopsProper.andThen {m : Check (Stop α)} {f : α → Check β} (h : StopsProper m c) :
    StopsProper (do let s ← m; return s.andThen f) c := h.bind fun _ _ hc₁ _ _ => .pure hc₁ trivial

/-- A check may come before the stop. -/
theorem StopsProper.exp {e : Exp} {f : Exp → Check (Stop α)} (hc : c.Proper)
    (h : ∀ e' {c₁ : Checker}, c₁.Proper → StopsProper (f e') c₁) : StopsProper (checkExp ctx e >>= f) c :=
  (upholds_exp e ctx hc).bind fun e' _ hc₁ _ _ => h e' hc₁

theorem upholds_var (v : Var) : VarUpholds v := upholdsCases.all.2.1 v

/-! ## Lists -/

variable {hole : Check (Stop Exp)} (hhole : ∀ {c : Checker}, c.Proper → StopsProper hole c)
include hhole

theorem upholds_enterEach (after : List Exp) : ∀ (before : List Exp) (params : List Ty) {c : Checker}, c.Proper →
    StopsProper (enterEach ctx hole after params before) c
  | [], params, c, hc => by
    rw [enterEach]
    exact (hhole hc).andThen
  | e :: before, params, c, hc => by
    rw [enterEach]
    refine .exp hc fun e' _ hc₁ => (upholds_arg hc₁ _ _).bind fun _ _ hc₂ _ _ => ?_
    exact (upholds_enterEach after before _ hc₂).andThen

theorem upholds_enterInits {loc : Location} {typeName : String} {name : Ident} (after : List (Ident × Exp)) :
    ∀ (before : List (Ident × Exp)) (fields : Option (List Field)) {c : Checker}, c.Proper →
      StopsProper (enterInits ctx hole loc typeName name after fields before) c
  | [], fields, c, hc => by
    rw [enterInits]
    exact (upholds_place hc _ _ _).bind fun _ _ hc₁ _ _ => (hhole hc₁).andThen
  | (other, e) :: before, fields, c, hc => by
    rw [enterInits]
    refine (upholds_place hc _ _ _).bind fun _ _ hc₁ _ _ => StopsProper.exp hc₁ fun e' _ hc₂ => ?_
    refine (upholds_init hc₂ _ _).bind fun _ _ hc₃ _ _ => ?_
    exact (upholds_enterInits after before _ hc₃).andThen

omit hhole

theorem upholds_enterDecs {d : Dec} {hole : Plan → Check (Stop (Dec × Bool))}
    (hhole : ∀ (plan : Plan) {c : Checker}, c.Proper → plan.Proper c.frames → StopsProper (hole plan) c)
    (after : List Dec) : ∀ (before : List Dec) (plans : List Plan) {c : Checker}, c.Proper →
      (∀ p ∈ plans, p.Proper c.frames) → StopsProper (enterDecs ctx d hole after plans before) c
  | [], plans, c, hc, hp => by
    have hnext : ∀ (plans : List Plan) {c : Checker}, c.Proper → (∀ p ∈ plans, p.Proper c.frames) →
        StopsProper (do
          let s ← hole (plans.headD .dropped)
          return s.andThen fun r => do
            let t ← checkDecs ctx plans.tail after
            return (r.1 :: t.1, r.2 && t.2)) c := fun plans _ hc hp =>
      (hhole _ hc (Plan.proper_headD hp)).andThen
    rw [enterDecs]
    exact .ite (fun _ => (upholds_openRun hc _).bind fun plans _ hc₁ _ hp₁ => hnext plans hc₁ hp₁)
      fun _ => hnext plans hc hp
  | e :: before, plans, c, hc, hp => by
    have hnext : ∀ (plans : List Plan) {c : Checker}, c.Proper → (∀ p ∈ plans, p.Proper c.frames) →
        StopsProper (do
          let r ← checkDec ctx (plans.headD .dropped) e
          let s ← enterDecs ctx d hole after plans.tail before
          return s.andThen fun t => return (r.1 :: t.1, r.2 && t.2)) c := by
      intro plans c hc hp
      refine (decUpholds (upholdsCases.all.2.2 e) ctx _ hc (Plan.proper_headD hp)).bind fun _ _ hc₁ hw₁ _ => ?_
      exact (upholds_enterDecs hhole after before _ hc₁
        fun p hmem => (hp p (List.mem_of_mem_tail hmem)).widen hw₁).andThen
    rw [enterDecs]
    exact .ite (fun _ => (upholds_openRun hc _).bind fun plans _ hc₁ _ hp₁ => hnext plans hc₁ hp₁)
      fun _ => hnext plans hc hp

end

/-! ## Holes -/

mutual

/-- **The walk over an expression enters its missing part in a proper state.** -/
theorem ExpHole.upholds (x : Exp) (ctx : Context) : ∀ (h : ExpHole) {c : Checker}, c.Proper →
    StopsProper (h.enter x ctx) c
  | .here, c, hc => .pure hc trivial
  | .var m v, c, hc => by
    rw [ExpHole.enter]
    exact (v.upholds x ctx hc).andThen
  | .arg m callee before h after function, c, hc => by
    rw [ExpHole.enter]
    exact (upholds_target hc _).bind fun _ _ hc₁ _ _ =>
      (upholds_enterEach (h.upholds x ctx) after before _ hc₁).andThen
  | .binaryLeft m op h right, c, hc => by
    rw [ExpHole.enter]
    exact (h.upholds x ctx hc).andThen
  | .binaryRight m op left h, c, hc => by
    rw [ExpHole.enter]
    exact .exp hc fun _ _ hc₁ => (h.upholds x ctx hc₁).andThen
  | .init m typeName before name h after, c, hc => by
    rw [ExpHole.enter]
    refine (upholds_typeOf hc _).bind fun _ _ hc₁ _ _ => ?_
    refine (upholds_recordFields hc₁ _ _ _).bind fun _ _ hc₂ _ _ => ?_
    exact (upholds_enterInits (h.upholds x ctx) after before _ hc₂).andThen
  | .item m before h after, c, hc => by
    rw [ExpHole.enter]
    exact (upholds_enterEach (h.upholds x ctx) after before _ hc).andThen
  | .assignTarget m v value, c, hc => by
    rw [ExpHole.enter]
    exact (v.upholds x ctx hc).andThen
  | .assignValue m target h, c, hc => by
    rw [ExpHole.enter]
    exact (upholds_var target ctx hc).bind fun _ _ hc₁ _ _ => (h.upholds x ctx hc₁).andThen
  | .condTest m h thenPart none, c, hc => by
    rw [ExpHole.enter]
    exact (h.upholds x ctx hc).andThen
  | .condTest m h thenPart (some elsePart), c, hc => by
    rw [ExpHole.enter]
    exact (h.upholds x ctx hc).andThen
  | .condThen m test h none, c, hc => by
    rw [ExpHole.enter]
    exact .exp hc fun _ _ hc₁ => (h.upholds x ctx hc₁).andThen
  | .condThen m test h (some elsePart), c, hc => by
    rw [ExpHole.enter]
    exact .exp hc fun _ _ hc₁ => (h.upholds x ctx hc₁).andThen
  | .condElse m test thenPart h, c, hc => by
    rw [ExpHole.enter]
    exact .exp hc fun _ _ hc₁ => .exp hc₁ fun _ _ hc₂ => (h.upholds x ctx hc₂).andThen
  | .whileTest m h body, c, hc => by
    rw [ExpHole.enter]
    exact (h.upholds x ctx hc).andThen
  | .whileBody m test h, c, hc => by
    rw [ExpHole.enter]
    exact .exp hc fun _ _ hc₁ => (h.upholds x _ hc₁).andThen
  | .doBody m h test, c, hc => by
    rw [ExpHole.enter]
    exact (h.upholds x _ hc).andThen
  | .doTest m body h, c, hc => by
    rw [ExpHole.enter]
    exact .exp hc fun _ _ hc₁ => (h.upholds x ctx hc₁).andThen
  | .forLow m counter h high body _, c, hc => by
    rw [ExpHole.enter]
    exact (h.upholds x ctx hc).andThen
  | .forHigh m counter low h body _, c, hc => by
    rw [ExpHole.enter]
    exact .exp hc fun _ _ hc₁ => (h.upholds x ctx hc₁).andThen
  | .forBody m counter low high h _, c, hc => by
    rw [ExpHole.enter]
    refine .exp hc fun _ _ hc₁ => .exp hc₁ fun _ _ hc₂ => (upholds_bounds hc₂ _ _).bind fun _ _ hc₃ _ _ => ?_
    exact upholds_counter hc₃ _ _ fun _ _ hc₄ _ => (h.upholds x _ hc₄).andThen
  | .letDec m before d after body, c, hc => by
    rw [ExpHole.enter]
    refine (upholds_enterScopes hc).bind fun _ _ hc₁ _ _ => ?_
    exact (upholds_enterDecs (d.upholds x ctx) after before [] hc₁ (List.forall_mem_nil _)).andThen
  | .letBody m decs h, c, hc => by
    rw [ExpHole.enter]
    refine (upholds_enterScopes hc).bind fun _ _ hc₁ _ _ => ?_
    refine (upholds_checkDecs (fun d _ => upholdsCases.all.2.2 d) [] hc₁ (List.forall_mem_nil _)).bind
      fun _ _ hc₂ _ _ => ?_
    exact (h.upholds x ctx hc₂).andThen
  | .arraySize m typeName h init, c, hc => by
    rw [ExpHole.enter]
    exact (upholds_typeOf hc _).bind fun _ _ hc₁ _ _ => (h.upholds x ctx hc₁).andThen
  | .arrayInit m typeName size h, c, hc => by
    rw [ExpHole.enter]
    refine (upholds_typeOf hc _).bind fun _ _ hc₁ _ _ => ?_
    exact StopsProper.exp hc₁ fun _ _ hc₂ => (h.upholds x ctx hc₂).andThen

theorem VarHole.upholds (x : Exp) (ctx : Context) : ∀ (h : VarHole) {c : Checker}, c.Proper →
    StopsProper (h.enter x ctx) c
  | .field m v name position, c, hc => by
    rw [VarHole.enter]
    exact (v.upholds x ctx hc).andThen
  | .elementBase m v index, c, hc => by
    rw [VarHole.enter]
    exact (v.upholds x ctx hc).andThen
  | .elementIndex m base h, c, hc => by
    rw [VarHole.enter]
    exact (upholds_var base ctx hc).bind fun _ _ hc₁ _ _ => (h.upholds x ctx hc₁).andThen

theorem DecHole.upholds (x : Exp) (ctx : Context) : ∀ (h : DecHole) (plan : Plan) {c : Checker}, c.Proper →
    plan.Proper c.frames → StopsProper (h.enter x ctx plan) c
  | .function head h loc id, .functionBody header, c, hc, hplan => by
    rw [DecHole.enter]
    refine (upholds_enterValues hc).bind fun _ _ hc₁ hw₁ _ => ?_
    refine (upholds_bindParams _ _ hc₁ fun v hv => hw₁.shows (hplan v hv)).bind fun _ _ hc₂ _ _ => ?_
    exact (h.upholds x _ hc₂).andThen
  | .var name typeName h loc slot, .variable first, c, hc, _ => by
    rw [DecHole.enter]
    refine (upholds_boundSince hc _ _).bind fun _ _ hc₁ _ _ => .ite (fun _ => .throw) fun _ => ?_
    exact (h.upholds x ctx hc₁).andThen
  | .function .., .dropped, _, _, _ | .function .., .typeBody _, _, _, _ | .function .., .variable _, _, _, _
  | .var .., .dropped, _, _, _ | .var .., .typeBody _, _, _, _ | .var .., .functionBody _, _, _, _ => .throw

end

end TigerCheck
