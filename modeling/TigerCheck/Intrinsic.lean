import TigerCheck.Ty

/-!
# Intrinsic functions

The functions of the run-time system, visible in the outermost scope of every program. They take no
static link, so a call passes exactly the parameters listed here.

* `Intrinsic`, `Intrinsic.all`: the eleven functions in the order of their handles.
* `Intrinsic.find?`: an intrinsic by its name.
-/

namespace TigerCheck

/-- A function of the run-time system. -/
structure Intrinsic where
  name : String
  params : List Ty
  result : Ty
  /-- The name under which the run-time system defines it. -/
  symbol : String
deriving DecidableEq

namespace Intrinsic

/-- The intrinsics in the order of their handles. -/
def all : List Intrinsic := [
  ⟨"print", [.string], .void, "print"⟩,
  ⟨"printd", [.int], .void, "printd"⟩,
  ⟨"flush", [], .void, "flush"⟩,
  ⟨"getchar", [], .string, "getchar_"⟩,
  ⟨"ord", [.string], .int, "ord"⟩,
  ⟨"chr", [.int], .string, "chr"⟩,
  ⟨"size", [.string], .int, "size"⟩,
  ⟨"substring", [.string, .int, .int], .string, "substring"⟩,
  ⟨"concat", [.string, .string], .string, "concat"⟩,
  ⟨"not", [.int], .int, "not_"⟩,
  ⟨"exit", [.int], .void, "exit_"⟩]

/-- The intrinsic of a name. -/
def find? (name : String) : Option Intrinsic := all.find? (·.name == name)

/-- The signature of an intrinsic: its parameters and its result, and nothing besides. -/
def signature (i : Intrinsic) : Signature := ⟨i.params, i.result⟩

end Intrinsic

end TigerCheck
