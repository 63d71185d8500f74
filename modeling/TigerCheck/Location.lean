/-!
# Source locations

Every node of a program may say where it stands in the text. Nodes built by hand have no place of
their own and carry the unknown location.

* `Location`: a line and a column, both 32-bit words.
* `Location.unknown`, `Location.isUnknown`: the location `0:0` of nodes without a place.
* `Location.text`: the written form `line:column`, with which every diagnostic begins.
-/

namespace TigerCheck

/-- A place in the program text; lines and columns count from one. -/
structure Location where
  line : UInt32
  column : UInt32
deriving DecidableEq

namespace Location

/-- The location of a node that has no place in the text. -/
def unknown : Location := ⟨0, 0⟩

instance : Inhabited Location := ⟨unknown⟩

/-- Only `0:0` stands for no place at all. -/
def isUnknown (l : Location) : Bool := l.line == 0 && l.column == 0

/-- Line and column in decimal, with a colon between them. -/
def text (l : Location) : String :=
  toString l.line.toNat ++ ":" ++ toString l.column.toNat

theorem isUnknown_iff (l : Location) : l.isUnknown = true ↔ l = unknown := by
  cases l
  simp [isUnknown, unknown]

end Location

end TigerCheck
