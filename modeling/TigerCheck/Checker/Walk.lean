import TigerCheck.Checker.Header
import TigerCheck.Checker.Rule

/-!
# The walk over a program

Every expression, variable and declaration is checked where it stands: first its parts, each exactly
once and in the order of evaluation, then the node itself by its typing rule. The answer is the same
tree with its cells filled in; the type of an expression is what its type cell says afterwards.

* `checkExp`, `checkVar`, `checkDec`: one node. `checkDec` also says whether the declaration is right.
* `checkEach`, `checkInits`, `checkDecs`: the arguments of a call, the initializers of a record literal
  and the declarations of a let block, each with whether all of them are right.
-/

namespace TigerCheck

open Check

/-- The type of a sequence: that of its last item, and no value if it has none. -/
def lastTy (items : List Exp) : Option Ty :=
  match items.getLast? with
  | some e => e.ty
  | none => some .void

mutual

/-- Check an expression. -/
def checkExp (ctx : Context) : Exp → Check Exp
  | .var m v => do
    let v ← checkVar ctx v
    return .var (m.typed v.ty) v
  | .nil m => return .nil (m.typed (some .nil))
  | .int m n => return .int (m.typed (some .int)) n
  | .string m s => return .string (m.typed (some .string)) s
  | .call m callee args function => do
    let target ← Rule.target? callee.name
    let (args, fit) ← checkEach ctx (Rule.Target.expects target args.length) args
    let ty ← Rule.call m.loc callee target args.length fit
    return .call (m.typed ty) callee args (target.map (·.id) <|> function)
  | .binary m op left right => do
    let left ← checkExp ctx left
    let right ← checkExp ctx right
    let ty ← Rule.binary op m.loc left.ty right.ty
    return .binary (m.typed ty) op left right
  | .record m typeName inits => do
    let ty ← typeOf typeName
    let fields ← Rule.recordFields m.loc typeName inits.length ty
    let (inits, fit) ← checkInits ctx m.loc typeName.name fields inits
    return .record (m.typed (if fit then ty else none)) typeName inits
  | .seq m items => do
    let (items, fit) ← checkEach ctx [] items
    return .seq (m.typed (if fit then lastTy items else none)) items
  | .assign m target value => do
    let target ← checkVar ctx target
    let value ← checkExp ctx value
    let ty ← Rule.assign target.mark value.mark
    return .assign (m.typed ty) target value
  | .cond m test thenPart none => do
    let test ← checkExp ctx test
    let thenPart ← checkExp ctx thenPart
    let ty ← Rule.cond m.loc test.mark thenPart.mark none
    return .cond (m.typed ty) test thenPart none
  | .cond m test thenPart (some elsePart) => do
    let test ← checkExp ctx test
    let thenPart ← checkExp ctx thenPart
    let elsePart ← checkExp ctx elsePart
    let ty ← Rule.cond m.loc test.mark thenPart.mark (some elsePart.mark)
    return .cond (m.typed ty) test thenPart (some elsePart)
  | .whileLoop m test body => do
    let test ← checkExp ctx test
    let body ← checkExp ctx.enterLoop body
    let ty ← Rule.loop test.mark body.mark
    return .whileLoop (m.typed ty) test body
  | .doWhile m body test => do
    let body ← checkExp ctx.enterLoop body
    let test ← checkExp ctx test
    let ty ← Rule.loop test.mark body.mark
    return .doWhile (m.typed ty) body test
  | .forLoop m counter low high body _ => do
    let low ← checkExp ctx low
    let high ← checkExp ctx high
    let fit ← Rule.bounds m.loc low.ty high.ty
    enterValues
    let slot ← alloc ctx.frame counter.name (some .int) .loopCounter
    bindValue counter.name slot
    let body ← checkExp ctx.enterLoop body
    exitValues
    let ty := if fit && body.ty.isSome then some .void else none
    return .forLoop (m.typed ty) counter low high body (some slot)
  | .breakLoop m => do
    let ty ← if ctx.inLoop then pure (some Ty.void) else fail .breakOutsideLoop m.loc
    return .breakLoop (m.typed ty)
  | .letIn m decs body => do
    enterScopes
    let (decs, fit) ← checkDecs ctx [] decs
    let body ← checkExp ctx body
    exitScopes
    return .letIn (m.typed (if fit then body.ty else none)) decs body
  | .array m typeName size init => do
    let ty ← typeOf typeName
    let size ← checkExp ctx size
    let init ← checkExp ctx init
    let ty ← Rule.array typeName ty size.mark init.mark
    return .array (m.typed ty) typeName size init

/-- Check a variable. -/
def checkVar (ctx : Context) : Var → Check Var
  | .simple m name binding => do
    let (slot, ty) ← Rule.simple m.loc name
    return .simple (m.typed ty) name (slot <|> binding)
  | .field m base name position => do
    let base ← checkVar ctx base
    let (found, ty) ← Rule.field m.loc base.mark name
    return .field (m.typed ty) base name (found <|> position)
  | .element m base index => do
    let base ← checkVar ctx base
    let index ← checkExp ctx index
    let ty ← Rule.element base.mark index.mark
    return .element (m.typed ty) base index

/-- Check expressions in order, each against the parameter at its place if there is one. -/
def checkEach (ctx : Context) : List Ty → List Exp → Check (List Exp × Bool)
  | _, [] => return ([], true)
  | params, e :: es => do
    let e ← checkExp ctx e
    let ok ← Rule.arg params.head? e.mark
    let (es, oks) ← checkEach ctx params.tail es
    return (e :: es, ok && oks)

/-- Check the initializers of a record literal in order, against the fields that are left if the
literal is well-formed so far. -/
def checkInits (ctx : Context) (loc : Location) (typeName : String) :
    Option (List Field) → List (Ident × Exp) → Check (List (Ident × Exp) × Bool)
  | fields, [] => return ([], fields.isSome)
  | fields, (name, e) :: inits => do
    let fields ← Rule.place loc typeName name fields
    let e ← checkExp ctx e
    let ok ← Rule.init (fields.bind (·.head?)) e.mark
    let (inits, oks) ← checkInits ctx loc typeName (fields.map (·.tail)) inits
    return ((name, e) :: inits, ok && oks)

/-- Check a declaration as planned. -/
def checkDec (ctx : Context) : Plan → Dec → Check (Dec × Bool)
  | .typeBody id, .type dec => do
    let ty ← typeAt id
    return (.type dec, ty.isSome)
  | .functionBody header, .function head body loc _ => do
    enterValues
    bindParams head.params header.params
    let body ← checkExp ⟨header.level, header.frame, 0⟩ body
    exitValues
    finalize header.frame
    let ok ← Rule.body header.result body.mark
    return (.function head body loc (some header.id), ok)
  | .variable first, .var name typeName init loc slot => do
    if ← boundSince first name.name then
      report (.duplicateDefinition name.name) name.loc
      return (.var name typeName init loc slot, false)
    else
      let init ← checkExp ctx init
      let (ty, ok) ← Rule.declared typeName init.mark init.isLiteral
      let slot ← alloc ctx.frame name.name ty .letBound
      bindValue name.name slot
      return (.var name typeName init loc (some slot), ok)
  | _, dec => return (dec, false)

/-- Check declarations in order, given the plans that are left of the run that is open. Where none is
left, the next run is opened. -/
def checkDecs (ctx : Context) : List Plan → List Dec → Check (List Dec × Bool)
  | _, [] => return ([], true)
  | plans, d :: ds => do
    let plans ← if plans.isEmpty then openRun ctx (Dec.leadingRun (d :: ds)) else pure plans
    let (d, ok) ← checkDec ctx (plans.headD .dropped) d
    let (ds, oks) ← checkDecs ctx plans.tail ds
    return (d :: ds, ok && oks)

end

attribute [grind =] checkExp checkVar checkEach checkInits checkDec checkDecs

/-- Check a whole program, outside every function, and fix the layout of the main frame. -/
def checkProgram (p : Program) : Check Program := do
  let mainFrame := (← get).mainFrame
  let body ← checkExp ⟨0, mainFrame, 0⟩ p.body
  finalize mainFrame
  return ⟨body⟩

end TigerCheck
