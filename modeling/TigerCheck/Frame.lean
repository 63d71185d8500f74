import TigerCheck.Breach
import TigerCheck.Ty

/-!
# Frames, slots and static links

Every activation of a function owns a frame: a list of slots, first the static link, then the
parameters, then the local variables in the order in which they are declared. A variable of an
enclosing function is read by following static links, one for each level in between, and taking
the slot at the variable's offset.

* `Slot`: a variable with its level, its offset and its frame.
* `Frame`: an activation record; its layout is known once the function's body has been checked.
* `Prototype`: a function that can be called, be it an intrinsic or one of the program.
* `FrameTable`: all frames, slots and functions of one analysis.
* `FrameTable.alloc`, `FrameTable.finalize`, `FrameTable.access`.
-/

namespace TigerCheck

/-- A variable, by the order of allocation. -/
structure VarId where
  index : Nat
deriving DecidableEq

/-- A function, by the order of declaration; the intrinsics come first. -/
structure FunctionId where
  index : Nat
deriving DecidableEq

/-- What a slot holds. -/
inductive SlotKind where
  | staticLink
  | param
  /-- A variable of a let block. -/
  | letBound
  | loopCounter
deriving DecidableEq

/-- A slot of a frame. -/
structure Slot where
  name : String
  /-- The type, unless the declaration failed. -/
  ty : Option Ty
  /-- How many functions enclose the declaration. -/
  level : Nat
  /-- The position in the frame. -/
  offset : Nat
  frame : FrameId
  kind : SlotKind
deriving DecidableEq

/-- The activation record of a function. -/
structure Frame where
  name : String
  level : Nat
  /-- The frame of the enclosing function; the main frame has none. -/
  parent : Option FrameId
  slots : Array VarId := #[]
  /-- The types of the slots by offset, once the body has been checked. -/
  layout : Option (List (Option Ty)) := none
deriving DecidableEq

/-- Where a function comes from. -/
inductive Origin where
  /-- A function of the run-time system, which takes no static link. -/
  | intrinsic (symbol : String)
  /-- A function of the program. -/
  | declared (level : Nat) (frame : FrameId) (staticLink : VarId) (params : List VarId)
deriving DecidableEq

/-- A function that can be called. -/
structure Prototype where
  name : String
  /-- Missing when the type of a parameter or of the result could not be found. -/
  signature : Option Signature
  origin : Origin
deriving DecidableEq

namespace Prototype

def isIntrinsic (p : Prototype) : Bool :=
  match p.origin with
  | .intrinsic _ => true
  | .declared .. => false

/-- The number of leading parameters that are not written at a call. -/
def hiddenParams (p : Prototype) : Nat :=
  match p.origin with
  | .intrinsic _ => 0
  | .declared .. => 1

/-- The result type, if there is a signature. -/
def result (p : Prototype) : Option Ty := p.signature.map (·.result)

end Prototype

/-- The way to a variable: static links to follow, then the position in the frame. -/
structure Access where
  hops : Nat
  offset : Nat
deriving DecidableEq

/-- The frames, slots and functions of one analysis. -/
structure FrameTable where
  frames : Array Frame := #[]
  vars : Array Slot := #[]
  functions : Array Prototype := #[]
deriving DecidableEq

namespace FrameTable

instance : Inhabited FrameTable := ⟨{}⟩

/-- Add a frame without slots. -/
def newFrame (t : FrameTable) (name : String) (level : Nat) (parent : Option FrameId) :
    FrameId × FrameTable :=
  (⟨t.frames.size⟩, { t with frames := t.frames.push { name, level, parent } })

/-- Append a slot to a frame. Its offset is the number of slots before it. -/
def alloc (t : FrameTable) (frame : FrameId) (name : String) (ty : Option Ty) (kind : SlotKind) :
    Except Breach (VarId × FrameTable) :=
  if h : frame.index < t.frames.size then
    let owner := t.frames[frame.index]
    let slot : Slot := ⟨name, ty, owner.level, owner.slots.size, frame, kind⟩
    let id : VarId := ⟨t.vars.size⟩
    .ok (id, { t with
      vars := t.vars.push slot
      frames := t.frames.set frame.index { owner with slots := owner.slots.push id } })
  else
    .error .dangling

/-- Add a function. -/
def addFunction (t : FrameTable) (p : Prototype) : FunctionId × FrameTable :=
  (⟨t.functions.size⟩, { t with functions := t.functions.push p })

/-- The slot of a variable. -/
def var (t : FrameTable) (id : VarId) : Except Breach Slot := entry t.vars id.index

/-- The frame under a handle. -/
def frame (t : FrameTable) (id : FrameId) : Except Breach Frame := entry t.frames id.index

/-- The function under a handle. -/
def function (t : FrameTable) (id : FunctionId) : Except Breach Prototype := entry t.functions id.index

/-- Fix the layout of a frame: the types of its slots, by offset. -/
def finalize (t : FrameTable) (id : FrameId) : Except Breach FrameTable := do
  if h : id.index < t.frames.size then
    let owner := t.frames[id.index]
    let layout ← owner.slots.toList.mapM fun v => (·.ty) <$> t.var v
    return { t with frames := t.frames.set id.index { owner with layout := some layout } }
  else
    throw .dangling

/-- The way to a variable from code at a nesting level, which must not be less than the variable's
own level. -/
def access (t : FrameTable) (id : VarId) (level : Nat) : Except Breach Access := do
  let slot ← t.var id
  if slot.level ≤ level then return ⟨level - slot.level, slot.offset⟩ else throw .outOfSight

/-- The number of variables allocated so far. -/
def varCount (t : FrameTable) : Nat := t.vars.size

end FrameTable

end TigerCheck
