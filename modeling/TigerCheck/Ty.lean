/-!
# Semantic types

A type is a small value. Records, arrays and frames live in tables and are named by a handle, so
that a recursive declaration such as `type list = {hd: int, tl: list}` needs no infinite value.

* `RecordId`, `ArrayId`, `FrameId`: handles into the tables of records, arrays and frames.
* `Ty`: the types of expressions, slots and fields.
* `Ty.label`: the text that tells two types apart, `record#0` for the first record.
* `Signature`: the parameter types and the result type of a function.
-/

namespace TigerCheck

/-- A record type, by its position in the arena. -/
structure RecordId where
  index : Nat
deriving DecidableEq

/-- An array type, by its position in the arena. -/
structure ArrayId where
  index : Nat
deriving DecidableEq

/-- An activation frame, by its position in the frame table. -/
structure FrameId where
  index : Nat
deriving DecidableEq

/-- The type of a value. Two records are equal as types only if they come from one declaration; the
looser relation of *matching* types is defined on the arena. -/
inductive Ty where
  | int
  | string
  /-- The type of the literal `nil`, which fits every record. -/
  | nil
  /-- The type of an expression without a value. -/
  | void
  | array (id : ArrayId)
  | record (id : RecordId)
  /-- A pointer to a function's frame: the type of static links only. -/
  | frame (id : FrameId)
deriving DecidableEq

namespace Ty

def isNil : Ty → Bool
  | nil => true
  | _ => false

def isVoid : Ty → Bool
  | void => true
  | _ => false

def isInt : Ty → Bool
  | int => true
  | _ => false

def isArray : Ty → Bool
  | array _ => true
  | _ => false

def isRecord : Ty → Bool
  | record _ => true
  | _ => false

/-- A text that differs for different types: handles are written after a `#`. -/
def label : Ty → String
  | int => "int"
  | string => "string"
  | nil => "nil"
  | void => "void"
  | array id => "array#" ++ toString id.index
  | record id => "record#" ++ toString id.index
  | frame id => "frame#" ++ toString id.index

@[simp] theorem isNil_iff {t : Ty} : t.isNil = true ↔ t = nil := by cases t <;> simp [isNil]

@[simp] theorem isVoid_iff {t : Ty} : t.isVoid = true ↔ t = void := by cases t <;> simp [isVoid]

@[simp] theorem isInt_iff {t : Ty} : t.isInt = true ↔ t = int := by cases t <;> simp [isInt]

@[simp] theorem isArray_iff {t : Ty} : t.isArray = true ↔ ∃ id, t = array id := by
  cases t <;> simp [isArray]

@[simp] theorem isRecord_iff {t : Ty} : t.isRecord = true ↔ ∃ id, t = record id := by
  cases t <;> simp [isRecord]

end Ty

/-- What a function takes and gives. A function of the program takes its static link first. -/
structure Signature where
  params : List Ty
  result : Ty
deriving DecidableEq

end TigerCheck
