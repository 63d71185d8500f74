import TigerCheck.Tree

/-!
# Outlines

The cells of a tree in one list: an entry for each node, in the order in which the nodes stand in the
tree, a node before its parts. An occurrence of a variable also says at which nesting level it stands,
since the way to its slot depends on that.

* `Outline.Entry`: the cells of a node.
* `Exp.outline`, `Var.outline`, `Dec.outline`: the entries of a tree, in front of others.
-/

namespace TigerCheck

namespace Outline

/-- The cells of a node. -/
inductive Entry where
  /-- An expression with no cell but its type. -/
  | exp (form : Exp.Form) (ty : Option Ty)
  | call (ty : Option Ty) (function : Option FunctionId)
  | forLoop (ty : Option Ty) (slot : Option VarId)
  /-- A name, at a nesting level. -/
  | simple (ty : Option Ty) (binding : Option VarId) (level : Nat)
  | field (ty : Option Ty) (position : Option Nat)
  | element (ty : Option Ty)
  | typeDec
  | functionDec (id : Option FunctionId)
  | varDec (slot : Option VarId)
deriving DecidableEq

end Outline

open Outline (Entry)

mutual

/-- The entries of an expression at a nesting level, in front of others. -/
def Exp.outline (level : Nat) : Exp → List Entry → List Entry
  | .var m v, rest => .exp .var m.ty :: v.outline level rest
  | .nil m, rest => .exp .nil m.ty :: rest
  | .int m _, rest => .exp .int m.ty :: rest
  | .string m _, rest => .exp .string m.ty :: rest
  | .call m _ args function, rest => .call m.ty function :: expsOutline level args rest
  | .binary m _ left right, rest => .exp .binary m.ty :: left.outline level (right.outline level rest)
  | .record m _ inits, rest => .exp .record m.ty :: initsOutline level inits rest
  | .seq m items, rest => .exp .seq m.ty :: expsOutline level items rest
  | .assign m target value, rest =>
    .exp .assign m.ty :: target.outline level (value.outline level rest)
  | .cond m test thenPart none, rest =>
    .exp .cond m.ty :: test.outline level (thenPart.outline level rest)
  | .cond m test thenPart (some elsePart), rest =>
    .exp .cond m.ty :: test.outline level (thenPart.outline level (elsePart.outline level rest))
  | .whileLoop m test body, rest =>
    .exp .whileLoop m.ty :: test.outline level (body.outline level rest)
  | .doWhile m body test, rest => .exp .doWhile m.ty :: body.outline level (test.outline level rest)
  | .forLoop m _ low high body slot, rest =>
    .forLoop m.ty slot :: low.outline level (high.outline level (body.outline level rest))
  | .breakLoop m, rest => .exp .breakLoop m.ty :: rest
  | .letIn m decs body, rest => .exp .letIn m.ty :: decsOutline level decs (body.outline level rest)
  | .array m _ size init, rest => .exp .array m.ty :: size.outline level (init.outline level rest)

/-- The entries of a variable at a nesting level, in front of others. -/
def Var.outline (level : Nat) : Var → List Entry → List Entry
  | .simple m _ binding, rest => .simple m.ty binding level :: rest
  | .field m base _ position, rest => .field m.ty position :: base.outline level rest
  | .element m base index, rest => .element m.ty :: base.outline level (index.outline level rest)

/-- The entries of a declaration at a nesting level, in front of others. The body of a function stands
one level deeper. -/
def Dec.outline (level : Nat) : Dec → List Entry → List Entry
  | .type _, rest => .typeDec :: rest
  | .function _ body _ id, rest => .functionDec id :: body.outline (level + 1) rest
  | .var _ _ init _ slot, rest => .varDec slot :: init.outline level rest

/-- The entries of some expressions, in front of others. -/
def expsOutline (level : Nat) : List Exp → List Entry → List Entry
  | [], rest => rest
  | e :: es, rest => e.outline level (expsOutline level es rest)

/-- The entries of the initializers of a record literal, in front of others. -/
def initsOutline (level : Nat) : List (Ident × Exp) → List Entry → List Entry
  | [], rest => rest
  | (_, e) :: inits, rest => e.outline level (initsOutline level inits rest)

/-- The entries of some declarations, in front of others. -/
def decsOutline (level : Nat) : List Dec → List Entry → List Entry
  | [], rest => rest
  | d :: ds, rest => d.outline level (decsOutline level ds rest)

end

end TigerCheck
