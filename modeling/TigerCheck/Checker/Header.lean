import TigerCheck.Checker.TypeName
import TigerCheck.Tree.Run

/-!
# Opening a run of declarations

Before the declarations of a run are checked one after another, the run is opened. The types and the
functions of a run are bound together, so that their right-hand sides and bodies may refer to each
other; a name that occurs twice in such a run is bound once, and the later declarations of it are
dropped. Variables are bound one at a time, and a variable is dropped if its name was bound since its
run was opened.

* `Header`: what is known of a function before its body is checked.
* `Plan`: how a declaration of an opened run is to be checked.
* `Check.declareType`, `Check.declareFunction`: binding a type and a function.
* `Check.openRun`: the plans of a run.
* `Check.boundSince`: whether the innermost scope binds a name to a variable of the current run.
-/

namespace TigerCheck

/-- What is known of a function before its body is checked. -/
structure Header where
  id : FunctionId
  level : Nat
  frame : FrameId
  params : List VarId
  /-- The declared result, if the whole signature was found. -/
  result : Option Ty
deriving DecidableEq

/-- How a declaration of an opened run is to be checked. -/
inductive Plan where
  /-- Not at all: its name occurs earlier in the run. -/
  | dropped
  | typeBody (id : NamedTypeId)
  | functionBody (header : Header)
  /-- As a variable of a run that was opened when there were `first` variables. -/
  | variable (first : Nat)
deriving DecidableEq

namespace Check

/-- The greatest nesting level: levels are machine words. -/
def maxLevel : Nat := UInt64.size - 1

/-- Bind a type name. -/
def declareType (dec : TypeDec) : Check NamedTypeId :=
  modifyGet fun c =>
    let id : NamedTypeId := ⟨c.namedTypes.size⟩
    (id, { c with
      namedTypes := c.namedTypes.push (.pending dec none)
      typeNames := c.typeNames.bind dec.name.name id })

/-- Give every parameter a slot. The types are there if each of them was found. -/
def declareParams (frame : FrameId) : List TypedName → Check (List VarId × Option (List Ty))
  | [] => return ([], some [])
  | p :: ps => do
    let ty ← typeOf p.typeName
    let id ← alloc frame p.name.name ty .param
    let (ids, tys) ← declareParams frame ps
    return (id :: ids, match ty, tys with
      | some ty, some tys => some (ty :: tys)
      | _, _ => none)

/-- The declared result of a function; that of a procedure is no value. -/
def declaredResult : Option Ident → Check (Option Ty)
  | some result => typeOf result
  | none => return some .void

/-- Bind a function: it gets a frame, whose first slot is the static link, and a signature if all its
types are found. -/
def declareFunction (ctx : Context) (head : FunctionHead) : Check Header := do
  if ctx.level < maxLevel then
    let level := ctx.level + 1
    let frame ← newFrame (head.name.name ++ "Frame") level ctx.frame
    let link := Ty.frame ctx.frame
    let staticLink ← alloc frame "staticLink" (some link) .staticLink
    let (params, paramTypes) ← declareParams frame head.params
    let result ← declaredResult head.result
    let signature := match result, paramTypes with
      | some result, some paramTypes => some (Signature.mk (link :: paramTypes) result)
      | _, _ => none
    let id ← addFunction ⟨head.name.name, signature, .declared level frame staticLink params⟩
    log (.functionDeclared head.name.name level)
    return ⟨id, level, frame, params, signature.map (·.result)⟩
  else throw .levelOverflow

/-- Bind the declarations of a run of types or functions, given the names met so far. -/
def bindHeaders (ctx : Context) : List String → List Dec → Check (List Plan)
  | _, [] => return []
  | seen, d :: ds => do
    let name := d.name
    if name.name ∈ seen then
      report (.duplicateDefinition name.name) name.loc
      return .dropped :: (← bindHeaders ctx seen ds)
    else
      let plan ← match d with
        | .type dec => Plan.typeBody <$> declareType dec
        | .function head _ _ _ => Plan.functionBody <$> declareFunction ctx head
        | .var .. => pure Plan.dropped
      return plan :: (← bindHeaders ctx (name.name :: seen) ds)

/-- The plans of the declarations of a run. -/
def openRun (ctx : Context) (run : List Dec) : Check (List Plan) := do
  match run with
  | [] => return []
  | d :: _ =>
    log (.run d.kind run.length)
    if d.kind = .var then
      let first := (← get).frames.varCount
      return run.map fun _ => .variable first
    else bindHeaders ctx [] run

/-- Whether the innermost scope binds a name to one of the variables from `first` on. -/
def boundSince (first : Nat) (name : String) : Check Bool := do
  match (← get).values.lookupLocal name with
  | some id => return first ≤ id.index
  | none => return false

end Check

end TigerCheck
