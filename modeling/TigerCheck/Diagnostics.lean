import TigerCheck.Fault
import TigerCheck.Location

/-!
# Diagnostics

The faults found in a program, in the order in which they were found, each with its place.

* `Diagnostic`, `Diagnostic.line`: a fault with its place, and its line of text.
* `Diagnostics`: the list, with a flag that stays set after the first fault.
* `Diagnostics.report`: add a fault; `Diagnostics.text`: all lines.
-/

namespace TigerCheck

/-- A fault and its place in the text. -/
structure Diagnostic where
  location : Location
  fault : Fault
deriving DecidableEq

namespace Diagnostic

/-- The wording of the fault. -/
def message (d : Diagnostic) : String := d.fault.message

/-- The place, the word `Error` and the wording, with a colon and a blank after each of the first
two. -/
def line (d : Diagnostic) : String := d.location.text ++ ": Error: " ++ d.message

end Diagnostic

/-- The diagnostics of an analysis, first to last. -/
structure Diagnostics where
  entries : Array Diagnostic := #[]
  /-- Set by the first report and never cleared. -/
  failed : Bool := false
deriving DecidableEq

namespace Diagnostics

instance : Inhabited Diagnostics := ⟨{}⟩

/-- Record a fault. -/
def report (ds : Diagnostics) (fault : Fault) (location : Location) : Diagnostics :=
  ⟨ds.entries.push ⟨location, fault⟩, true⟩

/-- Whether code generation must not run. -/
def hasError (ds : Diagnostics) : Bool := ds.failed

/-- The number of diagnostics. -/
def size (ds : Diagnostics) : Nat := ds.entries.size

/-- Whether nothing has been reported. -/
def isEmpty (ds : Diagnostics) : Bool := ds.entries.isEmpty

/-- The wordings in the order of the reports. -/
def messages (ds : Diagnostics) : List String := ds.entries.toList.map (·.message)

/-- One line for each diagnostic. -/
def text (ds : Diagnostics) : String :=
  String.join (ds.entries.toList.map fun d => d.line ++ "\n")

@[simp] theorem size_report (ds : Diagnostics) (f : Fault) (l : Location) :
    (ds.report f l).size = ds.size + 1 := by
  simp [report, size]

@[simp] theorem hasError_report (ds : Diagnostics) (f : Fault) (l : Location) :
    (ds.report f l).hasError = true := rfl

end Diagnostics

end TigerCheck
