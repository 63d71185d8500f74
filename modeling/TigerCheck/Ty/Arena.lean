import TigerCheck.Breach
import TigerCheck.Ty

/-!
# The arena of composite types

Records and arrays are kept in two tables that only grow. An entry may be created before its
declaration is finished and filled in afterwards: the fields of a record are replaced, the element
of an array is fixed once and for all by its first value.

* `Field`, `RecordEntry`, `ArrayEntry`, `Arena`.
* `Arena.newRecord`, `Arena.newArray`: entries get consecutive handles.
* `Arena.setFields`, `Arena.setElement`: completing an entry.
* `Arena.record`, `Arena.array`, `Arena.asRecord`, `Arena.elementOf`, `Arena.display`: reading.
-/

namespace TigerCheck

/-- A field of a record type. -/
structure Field where
  name : String
  ty : Ty
deriving DecidableEq

/-- A record type: the name of its declaration, and its fields in order. -/
structure RecordEntry where
  name : String
  fields : List Field
deriving DecidableEq

/-- The position of the first field of a name. -/
def RecordEntry.fieldIndex (r : RecordEntry) (name : String) : Option Nat :=
  r.fields.findIdx? (·.name == name)

/-- An array type. The element is missing while the declaration is being resolved. -/
structure ArrayEntry where
  name : String
  element : Option Ty
deriving DecidableEq

/-- The entry after an element has been offered to it: the first one stays. -/
def ArrayEntry.offer (e : ArrayEntry) (element : Ty) : ArrayEntry :=
  { e with element := e.element <|> some element }

/-- The composite types of one analysis. -/
structure Arena where
  records : Array RecordEntry := #[]
  arrays : Array ArrayEntry := #[]
deriving DecidableEq

namespace Arena

instance : Inhabited Arena := ⟨{}⟩

/-- Add a record type. -/
def newRecord (a : Arena) (name : String) (fields : List Field) : Ty × Arena :=
  (.record ⟨a.records.size⟩, { a with records := a.records.push ⟨name, fields⟩ })

/-- Add an array type, with its element if it is known already. -/
def newArray (a : Arena) (name : String) (element : Option Ty) : Ty × Arena :=
  (.array ⟨a.arrays.size⟩, { a with arrays := a.arrays.push ⟨name, element⟩ })

/-- Replace the fields of a record. -/
def setFields (a : Arena) (id : RecordId) (fields : List Field) : Except Breach Arena :=
  if h : id.index < a.records.size then
    .ok { a with records := a.records.set id.index { a.records[id.index] with fields := fields } }
  else
    .error .dangling

/-- Fix the element type of an array; a second value is ignored. -/
def setElement (a : Arena) (id : ArrayId) (element : Ty) : Except Breach Arena :=
  if h : id.index < a.arrays.size then
    .ok { a with arrays := a.arrays.set id.index (a.arrays[id.index].offer element) }
  else
    .error .dangling

/-- The record under a handle. -/
def record (a : Arena) (id : RecordId) : Except Breach RecordEntry := entry a.records id.index

/-- The array under a handle. -/
def array (a : Arena) (id : ArrayId) : Except Breach ArrayEntry := entry a.arrays id.index

/-- The record that a type names, if it is a record type. -/
def asRecord (a : Arena) : Ty → Except Breach (Option RecordEntry)
  | .record id => some <$> a.record id
  | _ => .ok none

/-- The element of a type, if it is an array type whose element is known. -/
def elementOf (a : Arena) : Ty → Except Breach (Option Ty)
  | .array id => (·.element) <$> a.array id
  | _ => .ok none

/-- The name of a type as the program wrote it. -/
def display (a : Arena) : Ty → Except Breach String
  | .array id => (·.name) <$> a.array id
  | .record id => (·.name) <$> a.record id
  | t => .ok t.label

end Arena

end TigerCheck
