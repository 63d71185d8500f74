import TigerCheck.Tree

/-!
# Places of expressions

The place of an expression in a program is told by what is around it: a tree in which one expression is
missing. Every step down leads from a node to one of its parts, and the other parts are kept.

* `ExpHole`, `VarHole`, `DecHole`: trees in which one expression is missing.
* `ExpHole.plug`, `VarHole.plug`, `DecHole.plug`: put an expression there.
-/

namespace TigerCheck

mutual

/-- An expression in which one expression is missing. -/
inductive ExpHole where
  | here
  | var (mark : Mark) (source : VarHole)
  | arg (mark : Mark) (callee : Ident) (before : List Exp) (hole : ExpHole) (after : List Exp)
    (function : Option FunctionId)
  | binaryLeft (mark : Mark) (op : BinOp) (hole : ExpHole) (right : Exp)
  | binaryRight (mark : Mark) (op : BinOp) (left : Exp) (hole : ExpHole)
  | init (mark : Mark) (typeName : Ident) (before : List (Ident × Exp)) (name : Ident) (hole : ExpHole)
    (after : List (Ident × Exp))
  | item (mark : Mark) (before : List Exp) (hole : ExpHole) (after : List Exp)
  | assignTarget (mark : Mark) (target : VarHole) (value : Exp)
  | assignValue (mark : Mark) (target : Var) (hole : ExpHole)
  | condTest (mark : Mark) (hole : ExpHole) (thenPart : Exp) (elsePart : Option Exp)
  | condThen (mark : Mark) (test : Exp) (hole : ExpHole) (elsePart : Option Exp)
  | condElse (mark : Mark) (test thenPart : Exp) (hole : ExpHole)
  | whileTest (mark : Mark) (hole : ExpHole) (body : Exp)
  | whileBody (mark : Mark) (test : Exp) (hole : ExpHole)
  | doBody (mark : Mark) (hole : ExpHole) (test : Exp)
  | doTest (mark : Mark) (body : Exp) (hole : ExpHole)
  | forLow (mark : Mark) (counter : Ident) (hole : ExpHole) (high body : Exp) (slot : Option VarId)
  | forHigh (mark : Mark) (counter : Ident) (low : Exp) (hole : ExpHole) (body : Exp) (slot : Option VarId)
  | forBody (mark : Mark) (counter : Ident) (low high : Exp) (hole : ExpHole) (slot : Option VarId)
  | letDec (mark : Mark) (before : List Dec) (dec : DecHole) (after : List Dec) (body : Exp)
  | letBody (mark : Mark) (decs : List Dec) (hole : ExpHole)
  | arraySize (mark : Mark) (typeName : Ident) (hole : ExpHole) (init : Exp)
  | arrayInit (mark : Mark) (typeName : Ident) (size : Exp) (hole : ExpHole)

/-- A variable in which one expression is missing. -/
inductive VarHole where
  | field (mark : Mark) (base : VarHole) (name : Ident) (position : Option Nat)
  | elementBase (mark : Mark) (base : VarHole) (index : Exp)
  | elementIndex (mark : Mark) (base : Var) (hole : ExpHole)

/-- A declaration in which one expression is missing. -/
inductive DecHole where
  | function (head : FunctionHead) (body : ExpHole) (loc : Location) (id : Option FunctionId)
  | var (name : Ident) (typeName : Option Ident) (init : ExpHole) (loc : Location) (slot : Option VarId)

end

mutual

/-- Put an expression where one is missing. -/
def ExpHole.plug (x : Exp) : ExpHole → Exp
  | .here => x
  | .var m v => .var m (v.plug x)
  | .arg m callee before h after function => .call m callee (before ++ h.plug x :: after) function
  | .binaryLeft m op h right => .binary m op (h.plug x) right
  | .binaryRight m op left h => .binary m op left (h.plug x)
  | .init m typeName before name h after => .record m typeName (before ++ (name, h.plug x) :: after)
  | .item m before h after => .seq m (before ++ h.plug x :: after)
  | .assignTarget m v value => .assign m (v.plug x) value
  | .assignValue m target h => .assign m target (h.plug x)
  | .condTest m h thenPart elsePart => .cond m (h.plug x) thenPart elsePart
  | .condThen m test h elsePart => .cond m test (h.plug x) elsePart
  | .condElse m test thenPart h => .cond m test thenPart (some (h.plug x))
  | .whileTest m h body => .whileLoop m (h.plug x) body
  | .whileBody m test h => .whileLoop m test (h.plug x)
  | .doBody m h test => .doWhile m (h.plug x) test
  | .doTest m body h => .doWhile m body (h.plug x)
  | .forLow m counter h high body slot => .forLoop m counter (h.plug x) high body slot
  | .forHigh m counter low h body slot => .forLoop m counter low (h.plug x) body slot
  | .forBody m counter low high h slot => .forLoop m counter low high (h.plug x) slot
  | .letDec m before d after body => .letIn m (before ++ d.plug x :: after) body
  | .letBody m decs h => .letIn m decs (h.plug x)
  | .arraySize m typeName h init => .array m typeName (h.plug x) init
  | .arrayInit m typeName size h => .array m typeName size (h.plug x)

@[inherit_doc ExpHole.plug]
def VarHole.plug (x : Exp) : VarHole → Var
  | .field m v name position => .field m (v.plug x) name position
  | .elementBase m v index => .element m (v.plug x) index
  | .elementIndex m base h => .element m base (h.plug x)

@[inherit_doc ExpHole.plug]
def DecHole.plug (x : Exp) : DecHole → Dec
  | .function head h loc id => .function head (h.plug x) loc id
  | .var name typeName h loc slot => .var name typeName (h.plug x) loc slot

end

/-- Expressions are missing in functions and in variables only. -/
theorem DecHole.kind_plug (x : Exp) (h : DecHole) : (h.plug x).kind ≠ .type := by
  cases h <;> exact nofun

end TigerCheck
