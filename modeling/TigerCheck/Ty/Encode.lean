import TigerCheck.Json
import TigerCheck.Ty.Arena

/-!
# Writing types

The written form of types and of a whole arena: types without a handle are words, the others objects
with the word as only key and the handle as its value.

* `Ty.toJson`, `Arena.toJson`.
* `Arena.encode`: the text of an arena, without blanks.
-/

namespace TigerCheck

open Json (obj arr str)

/-- The word of a type, with its handle if it has one. -/
def Ty.toJson : Ty → Json
  | .int => str "Int"
  | .string => str "String"
  | .nil => str "Nil"
  | .void => str "Void"
  | .array id => obj [("Array", .nat id.index)]
  | .record id => obj [("Record", .nat id.index)]
  | .frame id => obj [("Frame", .nat id.index)]

/-- The name and the type of a field. -/
def Field.toJson (f : Field) : Json := obj [("name", str f.name), ("ty", f.ty.toJson)]

/-- The name and the fields of a record. -/
def RecordEntry.toJson (r : RecordEntry) : Json :=
  obj [("name", str r.name), ("fields", arr (r.fields.map (·.toJson)))]

/-- The name and the element of an array; a missing element is `null`. -/
def ArrayEntry.toJson (a : ArrayEntry) : Json :=
  obj [("name", str a.name), ("element", .ofOption Ty.toJson a.element)]

namespace Arena

/-- The records and the arrays, in the order of their handles. -/
def toJson (a : Arena) : Json :=
  obj [("records", arr (a.records.toList.map (·.toJson))),
    ("arrays", arr (a.arrays.toList.map (·.toJson)))]

/-- The text of an arena. -/
def encode (a : Arena) : String := a.toJson.compact

end Arena

end TigerCheck
