import TigerCheck.Analysis
import TigerCheck.Json

/-!
# Reports

The outcome of an analysis for other programs to read: whether it succeeded, every diagnostic with its
code and its kind, and some counts.

* `Report`, `Report.ofAnalysis`.
* `Report.toJson`, `Report.text`: the written form, over several lines.
-/

namespace TigerCheck

open Json (obj arr str)

/-- How large the analysed program is, and how long its analysis took. -/
structure Stats where
  elapsedMs : Nat
  functions : Nat
  slots : Nat
  frames : Nat
  records : Nat
  arrays : Nat
deriving DecidableEq

/-- The outcome of an analysis. -/
structure Report where
  success : Bool
  sourceFile : String
  diagnostics : List Diagnostic
  stats : Stats
deriving DecidableEq

/-- The counts of an analysis. Intrinsics are not counted, the main frame is. -/
def Stats.ofAnalysis (a : Analysis) (elapsedMs : Nat) : Stats :=
  { elapsedMs
    functions := a.functionCount
    slots := a.frames.varCount
    frames := a.frames.frames.size
    records := a.types.records.size
    arrays := a.types.arrays.size }

/-- The written form of some counts. -/
def Stats.toJson (s : Stats) : Json :=
  obj [("analysis_time_ms", .nat s.elapsedMs), ("function_count", .nat s.functions),
    ("variable_count", .nat s.slots), ("frame_count", .nat s.frames),
    ("record_type_count", .nat s.records), ("array_type_count", .nat s.arrays)]

/-- The written form of a diagnostic. -/
def Diagnostic.toJson (d : Diagnostic) : Json :=
  obj [("code", str d.fault.code), ("kind", str d.fault.kind.name), ("message", str d.message),
    ("location", obj [("line", .nat d.location.line.toNat), ("column", .nat d.location.column.toNat)])]

namespace Report

/-- The report on a file whose analysis took some time. -/
def ofAnalysis (a : Analysis) (sourceFile : String) (elapsedMs : Nat) : Report :=
  { success := !a.hasError
    sourceFile
    diagnostics := a.diagnostics.entries.toList
    stats := .ofAnalysis a elapsedMs }

/-- The written form of a report. -/
def toJson (r : Report) : Json :=
  obj [("success", .bool r.success), ("source_file", str r.sourceFile),
    ("diagnostics", arr (r.diagnostics.map (·.toJson))), ("stats", r.stats.toJson)]

/-- The text of a report. -/
def text (r : Report) : String := r.toJson.pretty

end Report

end TigerCheck
