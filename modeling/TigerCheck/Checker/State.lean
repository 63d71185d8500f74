import TigerCheck.Diagnostics
import TigerCheck.Intrinsic
import TigerCheck.Scopes
import TigerCheck.Tree
import TigerCheck.Ty.Matching

/-!
# The state of the checker

The checker walks a program once, from left to right. What it knows at a point of the walk is a
`Checker`: the tables of types and frames, the diagnostics so far, and one stack of scopes for each
of the three namespaces. Where it is in the program is a `Context`, which is handed down and never
changed.

* `NamedType`: how far the declaration of a type name has been resolved.
* `Event`: the milestones of a walk, which are kept in a journal.
* `Checker`, `Checker.initial`: the state, and the state before anything is checked, in which `int`,
  `string` and the intrinsics are bound.
* `Context`: nesting level, frame, and the number of loops around the current node.
* `Check`: actions on the state, which may end in a breach.
* `Check.report`, `Check.fail`, `Check.alloc`, …: the primitive actions.
-/

namespace TigerCheck

/-- A type name, by the order of declaration. -/
structure NamedTypeId where
  index : Nat
deriving DecidableEq

/-- How far the declaration of a type name has been resolved. -/
inductive NamedType where
  /-- The right-hand side is not resolved yet. A record or an array that was met while its own
  declaration was being resolved has an entry in the arena already. -/
  | pending (dec : TypeDec) (handedOut : Option Ty)
  | resolved (ty : Ty)
  /-- Resolving the right-hand side failed, which was reported then. -/
  | poisoned
deriving DecidableEq

/-- The milestones of a walk. -/
inductive Event where
  | started
  | finished (diagnostics : Nat)
  | entered (depth : Nat)
  | leaving (depth : Nat)
  | run (kind : Dec.Kind) (declarations : Nat)
  | typeResolved (name display : String)
  | functionDeclared (name : String) (level : Nat)
  | reported (location : Location) (fault : Fault)
deriving DecidableEq

namespace Event

/-- How much detail an event gives. -/
inductive Detail where
  | debug
  | trace
deriving DecidableEq

/-- The word for a grade of detail. -/
def Detail.word : Detail → String
  | debug => "DEBUG"
  | trace => "TRACE"

/-- Scopes, runs and resolved types are details of the finest grade. -/
def detail : Event → Detail
  | started | finished _ | functionDeclared _ _ | reported _ _ => .debug
  | entered _ | leaving _ | run _ _ | typeResolved _ _ => .trace

/-- The wording of an event. -/
def text : Event → String
  | started => "semantic analysis started"
  | finished n => "semantic analysis finished with " ++ toString n ++ " diagnostic(s)"
  | entered depth => "entered scope depth " ++ toString depth
  | leaving depth => "leaving scope depth " ++ toString depth
  | run kind n => kind.word ++ " group of " ++ toString n ++ " declaration(s)"
  | typeResolved name display => "type " ++ name ++ " resolved to " ++ display
  | functionDeclared name level => "declared function " ++ name ++ " at level " ++ toString level
  | reported location fault => location.text ++ ": " ++ fault.message

end Event

/-- What is known at a point of the walk. -/
structure Checker where
  types : Arena
  frames : FrameTable
  diagnostics : Diagnostics
  values : Scopes VarId
  typeNames : Scopes NamedTypeId
  functions : Scopes FunctionId
  namedTypes : Array NamedType
  /-- The frame of the variables outside every function. -/
  mainFrame : FrameId
  journal : Array Event

namespace Checker

/-- Add an intrinsic to the frame table and bind its name. -/
def addIntrinsic (s : Scopes FunctionId × FrameTable) (i : Intrinsic) : Scopes FunctionId × FrameTable :=
  let (id, frames) := s.2.addFunction ⟨i.name, some i.signature, .intrinsic i.symbol⟩
  (s.1.bind i.name id, frames)

/-- The state before anything is checked. -/
def initial : Checker :=
  let (mainFrame, frames) := ({} : FrameTable).newFrame "main" 0 none
  let (functions, frames) := Intrinsic.all.foldl addIntrinsic (.empty, frames)
  { types := {}
    frames
    diagnostics := {}
    values := .empty
    typeNames := (Scopes.empty.bind "int" ⟨0⟩).bind "string" ⟨1⟩
    functions
    namedTypes := #[.resolved .int, .resolved .string]
    mainFrame
    journal := #[] }

end Checker

/-- Where the walk is: in a function's body at some nesting level, whose variables go to a frame, with
some loops of that body around it. -/
structure Context where
  level : Nat
  frame : FrameId
  loops : Nat := 0
deriving DecidableEq

namespace Context

/-- Whether a loop of the same function encloses the place. -/
def inLoop (ctx : Context) : Bool := 0 < ctx.loops

/-- The context of a loop's body. -/
def enterLoop (ctx : Context) : Context := { ctx with loops := ctx.loops + 1 }

end Context

/-- Actions of the checker. -/
abbrev Check := StateT Checker (Except Breach)

namespace Check

/-! ## Journal and diagnostics -/

/-- Note an event. -/
def log (e : Event) : Check Unit := modify fun c => { c with journal := c.journal.push e }

/-- Report a fault, and note that. -/
def report (fault : Fault) (location : Location) : Check Unit := do
  log (.reported location fault)
  modify fun c => { c with diagnostics := c.diagnostics.report fault location }

/-- Report a fault and give no answer. -/
def fail {α : Type} (fault : Fault) (location : Location) : Check (Option α) := do
  report fault location
  return none

/-- Report a fault and answer no. -/
def refuse (fault : Fault) (location : Location) : Check Bool := do
  report fault location
  return false

/-! ## Scopes -/

/-- Open a scope in all three namespaces. -/
def enterScopes : Check Unit := do
  modify fun c => { c with
    typeNames := c.typeNames.enter, values := c.values.enter, functions := c.functions.enter }
  log (.entered (← get).values.depth)

/-- Close a scope in all three namespaces. -/
def exitScopes : Check Unit := do
  log (.leaving (← get).values.depth)
  let c ← get
  let functions ← c.functions.exit
  let values ← c.values.exit
  let typeNames ← c.typeNames.exit
  set { c with functions, values, typeNames }

/-- Open a scope of variables. -/
def enterValues : Check Unit := modify fun c => { c with values := c.values.enter }

/-- Close a scope of variables. -/
def exitValues : Check Unit := do
  let c ← get
  let values ← c.values.exit
  set { c with values }

/-- Bind a variable. -/
def bindValue (name : String) (id : VarId) : Check Unit :=
  modify fun c => { c with values := c.values.bind name id }

/-- Bind the parameters of a function to their slots. -/
def bindParams : List TypedName → List VarId → Check Unit
  | p :: ps, id :: ids => do
    bindValue p.name.name id
    bindParams ps ids
  | _, _ => return ()

/-! ## Frames -/

/-- Append a slot to a frame. -/
def alloc (frame : FrameId) (name : String) (ty : Option Ty) (kind : SlotKind) : Check VarId := do
  let c ← get
  let (id, frames) ← c.frames.alloc frame name ty kind
  set { c with frames }
  return id

/-- Add a frame. -/
def newFrame (name : String) (level : Nat) (parent : FrameId) : Check FrameId :=
  modifyGet fun c =>
    let (id, frames) := c.frames.newFrame name level (some parent)
    (id, { c with frames })

/-- Add a function and bind its name. -/
def addFunction (p : Prototype) : Check FunctionId :=
  modifyGet fun c =>
    let (id, frames) := c.frames.addFunction p
    (id, { c with frames, functions := c.functions.bind p.name id })

/-- Fix the layout of a frame. -/
def finalize (frame : FrameId) : Check Unit := do
  let c ← get
  let frames ← c.frames.finalize frame
  set { c with frames }

/-! ## Types -/

/-- Add a record type. -/
def newRecord (name : String) (fields : List Field) : Check Ty :=
  modifyGet fun c =>
    let (ty, types) := c.types.newRecord name fields
    (ty, { c with types })

/-- Add an array type. -/
def newArray (name : String) (element : Option Ty) : Check Ty :=
  modifyGet fun c =>
    let (ty, types) := c.types.newArray name element
    (ty, { c with types })

/-- Complete a record. -/
def setFields (id : RecordId) (fields : List Field) : Check Unit := do
  let c ← get
  let types ← c.types.setFields id fields
  set { c with types }

/-- Complete an array. -/
def setElement (id : ArrayId) (element : Ty) : Check Unit := do
  let c ← get
  let types ← c.types.setElement id element
  set { c with types }

/-- Whether two types are the same. -/
def sameType (s t : Ty) : Check Bool := do (← get).types.sameType s t

/-- Whether two types match. -/
def isMatch (s t : Ty) : Check Bool := do (← get).types.isMatch (some s) (some t)

/-- How far a type name has been resolved. -/
def namedType (id : NamedTypeId) : Check NamedType := do entry (← get).namedTypes id.index

/-- Set how far a type name has been resolved. -/
def setNamedType (id : NamedTypeId) (t : NamedType) : Check Unit := do
  let c ← get
  if h : id.index < c.namedTypes.size then
    set { c with namedTypes := c.namedTypes.set id.index t }
  else
    throw .dangling

end Check

end TigerCheck
