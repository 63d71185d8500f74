import TigerCheck.Proofs.Tree.Nodes
import TigerCheck.Proofs.Walk.Variables

/-!
# Which nodes are checked

The walk over a program can be watched: it is repeated with a note of the position of every expression and
every variable whose check begins. Watching does not change the walk, and the notes list every live node
once, in the order of evaluation, whatever is wrong with the program.

* `Watched`: checks with notes. `watchExp`, `watchVar`, `watchDecs`, …: the walk with notes.
* `watchDecs_planned`, `watchDecs_opens`: declarations are watched run by run.
* `Watched.Follows`: a watched check does what the check does, and notes given positions.
-/

namespace TigerCheck

open Check

/-- Checks that also note positions. -/
abbrev Watched := StateT (List Position) Check

/-- Note a position. -/
def Watched.note (p : Position) : Watched Unit := modify (· ++ [p])

/-! ## The walk with notes -/

mutual

/-- Check an expression, and note the nodes that are checked. -/
def watchExp (ctx : Context) (p : Position) : Exp → Watched Exp
  | .var m v => do
    Watched.note p
    let v ← watchVar ctx (0 :: p) v
    return .var (m.typed v.ty) v
  | .nil m => do
    Watched.note p
    return .nil (m.typed (some .nil))
  | .int m n => do
    Watched.note p
    return .int (m.typed (some .int)) n
  | .string m s => do
    Watched.note p
    return .string (m.typed (some .string)) s
  | .call m callee args function => do
    Watched.note p
    let target ← Rule.target? callee.name
    let (args, fit) ← watchEach ctx p 0 (Rule.Target.expects target args.length) args
    let ty ← Rule.call m.loc callee target args.length fit
    return .call (m.typed ty) callee args (target.map (·.id) <|> function)
  | .binary m op left right => do
    Watched.note p
    let left ← watchExp ctx (0 :: p) left
    let right ← watchExp ctx (1 :: p) right
    let ty ← Rule.binary op m.loc left.ty right.ty
    return .binary (m.typed ty) op left right
  | .record m typeName inits => do
    Watched.note p
    let ty ← typeOf typeName
    let fields ← Rule.recordFields m.loc typeName inits.length ty
    let (inits, fit) ← watchInits ctx p 0 m.loc typeName.name fields inits
    return .record (m.typed (if fit then ty else none)) typeName inits
  | .seq m items => do
    Watched.note p
    let (items, fit) ← watchEach ctx p 0 [] items
    return .seq (m.typed (if fit then lastTy items else none)) items
  | .assign m target value => do
    Watched.note p
    let target ← watchVar ctx (0 :: p) target
    let value ← watchExp ctx (1 :: p) value
    let ty ← Rule.assign target.mark value.mark
    return .assign (m.typed ty) target value
  | .cond m test thenPart none => do
    Watched.note p
    let test ← watchExp ctx (0 :: p) test
    let thenPart ← watchExp ctx (1 :: p) thenPart
    let ty ← Rule.cond m.loc test.mark thenPart.mark none
    return .cond (m.typed ty) test thenPart none
  | .cond m test thenPart (some elsePart) => do
    Watched.note p
    let test ← watchExp ctx (0 :: p) test
    let thenPart ← watchExp ctx (1 :: p) thenPart
    let elsePart ← watchExp ctx (2 :: p) elsePart
    let ty ← Rule.cond m.loc test.mark thenPart.mark (some elsePart.mark)
    return .cond (m.typed ty) test thenPart (some elsePart)
  | .whileLoop m test body => do
    Watched.note p
    let test ← watchExp ctx (0 :: p) test
    let body ← watchExp ctx.enterLoop (1 :: p) body
    let ty ← Rule.loop test.mark body.mark
    return .whileLoop (m.typed ty) test body
  | .doWhile m body test => do
    Watched.note p
    let body ← watchExp ctx.enterLoop (0 :: p) body
    let test ← watchExp ctx (1 :: p) test
    let ty ← Rule.loop test.mark body.mark
    return .doWhile (m.typed ty) body test
  | .forLoop m counter low high body _ => do
    Watched.note p
    let low ← watchExp ctx (0 :: p) low
    let high ← watchExp ctx (1 :: p) high
    let fit ← Rule.bounds m.loc low.ty high.ty
    enterValues
    let slot ← alloc ctx.frame counter.name (some .int) .loopCounter
    bindValue counter.name slot
    let body ← watchExp ctx.enterLoop (2 :: p) body
    exitValues
    let ty := if fit && body.ty.isSome then some .void else none
    return .forLoop (m.typed ty) counter low high body (some slot)
  | .breakLoop m => do
    Watched.note p
    let ty ← if ctx.inLoop then pure (some Ty.void) else fail .breakOutsideLoop m.loc
    return .breakLoop (m.typed ty)
  | .letIn m decs body => do
    Watched.note p
    enterScopes
    let (decs, fit) ← watchDecs ctx p 1 [] decs
    let body ← watchExp ctx (0 :: p) body
    exitScopes
    return .letIn (m.typed (if fit then body.ty else none)) decs body
  | .array m typeName size init => do
    Watched.note p
    let ty ← typeOf typeName
    let size ← watchExp ctx (0 :: p) size
    let init ← watchExp ctx (1 :: p) init
    let ty ← Rule.array typeName ty size.mark init.mark
    return .array (m.typed ty) typeName size init

/-- Check a variable, and note the nodes that are checked. -/
def watchVar (ctx : Context) (p : Position) : Var → Watched Var
  | .simple m name binding => do
    Watched.note p
    let (slot, ty) ← Rule.simple m.loc name
    return .simple (m.typed ty) name (slot <|> binding)
  | .field m base name position => do
    Watched.note p
    let base ← watchVar ctx (0 :: p) base
    let (found, ty) ← Rule.field m.loc base.mark name
    return .field (m.typed ty) base name (found <|> position)
  | .element m base index => do
    Watched.note p
    let base ← watchVar ctx (0 :: p) base
    let index ← watchExp ctx (1 :: p) index
    let ty ← Rule.element base.mark index.mark
    return .element (m.typed ty) base index

def watchEach (ctx : Context) (p : Position) (i : ℕ) : List Ty → List Exp → Watched (List Exp × Bool)
  | _, [] => return ([], true)
  | params, e :: es => do
    let e ← watchExp ctx (i :: p) e
    let ok ← Rule.arg params.head? e.mark
    let (es, oks) ← watchEach ctx p (i + 1) params.tail es
    return (e :: es, ok && oks)

def watchInits (ctx : Context) (p : Position) (i : ℕ) (loc : Location) (typeName : String) :
    Option (List Field) → List (Ident × Exp) → Watched (List (Ident × Exp) × Bool)
  | fields, [] => return ([], fields.isSome)
  | fields, (name, e) :: inits => do
    let fields ← Rule.place loc typeName name fields
    let e ← watchExp ctx (i :: p) e
    let ok ← Rule.init (fields.bind (·.head?)) e.mark
    let (inits, oks) ← watchInits ctx p (i + 1) loc typeName (fields.map (·.tail)) inits
    return ((name, e) :: inits, ok && oks)

/-- Check a declaration as planned, and note the nodes that are checked. -/
def watchDec (ctx : Context) (p : Position) : Plan → Dec → Watched (Dec × Bool)
  | .typeBody id, .type dec => do
    let ty ← typeAt id
    return (.type dec, ty.isSome)
  | .functionBody header, .function head body loc _ => do
    enterValues
    bindParams head.params header.params
    let body ← watchExp ⟨header.level, header.frame, 0⟩ p body
    exitValues
    finalize header.frame
    let ok ← Rule.body header.result body.mark
    return (.function head body loc (some header.id), ok)
  | .variable first, .var name typeName init loc slot => do
    if ← boundSince first name.name then
      report (.duplicateDefinition name.name) name.loc
      return (.var name typeName init loc slot, false)
    else
      let init ← watchExp ctx p init
      let (ty, ok) ← Rule.declared typeName init.mark init.isLiteral
      let slot ← alloc ctx.frame name.name ty .letBound
      bindValue name.name slot
      return (.var name typeName init loc (some slot), ok)
  | _, dec => return (dec, false)

/-- Check declarations in order, and note the nodes that are checked. -/
def watchDecs (ctx : Context) (p : Position) (i : ℕ) : List Plan → List Dec → Watched (List Dec × Bool)
  | _, [] => return ([], true)
  | plans, d :: ds => do
    let plans ← if plans.isEmpty then openRun ctx (Dec.leadingRun (d :: ds)) else pure plans
    let (d, ok) ← watchDec ctx (i :: p) (plans.headD .dropped) d
    let (ds, oks) ← watchDecs ctx p (i + 1) plans.tail ds
    return (d :: ds, ok && oks)

end

attribute [grind =] watchExp watchVar watchEach watchInits watchDec watchDecs

/-- Check a program from the start, and note the nodes that are checked. -/
def watchFromStart (p : Program) : Watched Program := do
  Check.log .started
  let mainFrame := (← (get : Check Checker)).mainFrame
  let body ← watchExp ⟨0, mainFrame, 0⟩ [] p.body
  finalize mainFrame
  return ⟨body⟩

/-! ## Declarations, run by run -/

/-- Check declarations as planned, and note the nodes that are checked. -/
def watchPlanned (ctx : Context) (p : Position) (i : ℕ) :
    List Plan → List Dec → Watched (List Dec × Bool)
  | plan :: plans, d :: ds => do
    let (d, ok) ← watchDec ctx (i :: p) plan d
    let (ds, oks) ← watchPlanned ctx p (i + 1) plans ds
    return (d :: ds, ok && oks)
  | _, _ => return ([], true)

section

variable (ctx : Context) (p : Position)

theorem watchDec_dropped (d : Dec) : watchDec ctx p .dropped d = pure (d, false) := by
  cases d <;> simp [watchDec]

theorem watchDecs_cons (i : ℕ) (plan : Plan) (plans : List Plan) (d : Dec) (ds : List Dec) :
    watchDecs ctx p i (plan :: plans) (d :: ds) = (do
      let (d, ok) ← watchDec ctx (i :: p) plan d
      let (ds, oks) ← watchDecs ctx p (i + 1) plans ds
      return (d :: ds, ok && oks)) := by
  rw [watchDecs]
  simp

/-- Where the plans end, the next run is opened. -/
theorem watchDecs_planned : ∀ (i : ℕ) (plans : List Plan) (run ds : List Dec), plans.length = run.length →
    watchDecs ctx p i plans (run ++ ds) = (do
      let (run', ok) ← watchPlanned ctx p i plans run
      let (ds, oks) ← watchDecs ctx p (i + run.length) [] ds
      return (run' ++ ds, ok && oks))
  | i, [], [], ds, _ => by simp [watchPlanned]
  | i, plan :: plans, d :: run, ds, hlen => by
    rw [List.cons_append, watchDecs_cons, watchDecs_planned (i + 1) plans run ds (Nat.succ.inj hlen),
      watchPlanned, List.length_cons, Nat.add_assoc i 1, Nat.add_comm 1]
    simp [Bool.and_assoc]

/-- Where no plan is left, the leading run is opened. -/
theorem watchDecs_opens (i : ℕ) (d : Dec) (ds : List Dec) :
    watchDecs ctx p i [] (d :: ds) = (do
      let plans ← openRun ctx (Dec.leadingRun (d :: ds))
      let (d, ok) ← watchDec ctx (i :: p) (plans.headD .dropped) d
      let (ds, oks) ← watchDecs ctx p (i + 1) plans.tail ds
      return (d :: ds, ok && oks)) := by
  rw [watchDecs]
  simp

end

/-! ## What a watched check does -/

/-- A watched check ends as the check does, and adds some positions to the notes. -/
def Watched.Follows {α : Type} (w : Watched α) (m : Check α) (c : Checker) (ps : List Position) : Prop :=
  ∀ notes, (w.run notes).run c = (m.run c).map fun r => ((r.1, notes ++ ps), r.2)

namespace Watched.Follows

variable {α β : Type} {c : Checker} {w : Watched α} {m : Check α} {f : α → Watched β} {g : α → Check β}
  {ps qs : List Position} {p : Position}

theorem pure (a : α) : Follows (Pure.pure a) (Pure.pure a) c [] := by
  intro notes
  rw [List.append_nil]
  rfl

theorem bind (h : Follows w m c ps) (hf : ∀ a c₁, m.run c = .ok (a, c₁) → Follows (f a) (g a) c₁ qs) :
    Follows (w >>= f) (m >>= g) c (ps ++ qs) := by
  intro notes
  rw [StateT.run_bind, StateT.run_bind, StateT.run_bind, h notes]
  cases hm : m.run c with
  | error e => rfl
  | ok r =>
    obtain ⟨a, c₁⟩ := r
    refine (hf a c₁ hm (notes ++ ps)).trans ?_
    rw [List.append_assoc]
    rfl

/-- What comes before the first node of a check notes nothing. -/
theorem skip (h : Follows w m c []) (hf : ∀ a c₁, m.run c = .ok (a, c₁) → Follows (f a) (g a) c₁ ps) :
    Follows (w >>= f) (m >>= g) c ps :=
  h.bind hf

/-- A check that is not watched notes nothing. -/
theorem lift (m : Check α) (hf : ∀ a c₁, m.run c = .ok (a, c₁) → Follows (f a) (g a) c₁ ps) :
    Follows (liftM m >>= f) (m >>= g) c ps := by
  have hm : Follows (liftM m : Watched α) m c [] := by
    intro notes
    change ((StateT.lift m : Watched α).run notes).run c = _
    rw [StateT.run_lift, StateT.run_bind]
    cases m.run c with
    | error e => rfl
    | ok r =>
      rw [List.append_nil]
      rfl
  exact hm.skip hf

/-- What follows the last node of a check notes nothing. -/
theorem last (h : Follows w m c ps) (hf : ∀ a c₁, m.run c = .ok (a, c₁) → Follows (f a) (g a) c₁ []) :
    Follows (w >>= f) (m >>= g) c ps :=
  List.append_nil ps ▸ h.bind hf

theorem note {w : Unit → Watched α} (h : Follows (w ()) m c ps) :
    Follows (Watched.note p >>= w) m c (p :: ps) := by
  intro notes
  refine (h (notes ++ [p])).trans ?_
  rw [List.append_assoc]
  rfl

end Watched.Follows

end TigerCheck
