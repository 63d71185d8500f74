import TigerCheck.Tree.Build

/-!
# Trees as postfix commands

A tree can be written as a list of commands for a stack machine: each command takes its operands
off the stack and leaves the node built from them. Trees of any depth have such a flat form.

* `Postfix.Item`: what the stack holds.
* `Postfix.Command`: one command for each builder.
* `Postfix.step`, `Postfix.build?`: a command on a stack; the expression that a list of commands
  leaves.
-/

namespace TigerCheck

namespace Postfix

/-- What the stack holds. -/
inductive Item where
  | exp (e : Exp)
  | var (v : Var)
  | body (b : TypeBody)
  | dec (d : Dec)

/-- The commands. An operand that stands later in the text lies higher on the stack. -/
inductive Command where
  | nil
  | breakLoop
  | int (value : Int64)
  | string (value : String)
  | named (name : String)
  | simple (name : String)
  | field (name : String)
  | element
  | var
  | call (callee : String) (args : Nat)
  | binary (op : BinOp)
  | record (typeName : String) (fields : List String)
  | seq (items : Nat)
  | assign
  | ifThen
  | ifElse
  | whileLoop
  | doWhile
  | forLoop (counter : String)
  | letIn (decs : Nat)
  | array (typeName : String)
  | synonymOf (target : String)
  | arrayOf (elementType : String)
  | recordOf (fields : List (String × String))
  | typeDec (name : String)
  | varDec (name : String) (typeName : Option String)
  | functionDec (name : String) (params : List (String × String)) (result : Option String)
  /-- Put the top item at a place. -/
  | at (place : Location)

/-- The top `n` expressions, the deepest first, and the stack below them. -/
def popExps : Nat → List Item → List Exp → Option (List Exp × List Item)
  | 0, stack, done => some (done, stack)
  | n + 1, .exp e :: stack, done => popExps n stack (e :: done)
  | _ + 1, _, _ => none

/-- The top `n` declarations, the deepest first, and the stack below them. -/
def popDecs : Nat → List Item → List Dec → Option (List Dec × List Item)
  | 0, stack, done => some (done, stack)
  | n + 1, .dec d :: stack, done => popDecs n stack (d :: done)
  | _ + 1, _, _ => none

/-- One command on a stack whose top is the head of the list. -/
def step : Command → List Item → Option (List Item)
  | .nil, s => some (.exp Build.nil :: s)
  | .breakLoop, s => some (.exp Build.breakLoop :: s)
  | .int n, s => some (.exp (Build.int n) :: s)
  | .string v, s => some (.exp (Build.string v) :: s)
  | .named name, s => some (.exp (Build.named name) :: s)
  | .simple name, s => some (.var (Build.simple name) :: s)
  | .field name, .var base :: s => some (.var (Build.field base name) :: s)
  | .element, .exp index :: .var base :: s => some (.var (Build.element base index) :: s)
  | .var, .var v :: s => some (.exp (Build.var v) :: s)
  | .call callee n, s => do
    let (args, s) ← popExps n s []
    return .exp (Build.call callee args) :: s
  | .binary op, .exp r :: .exp l :: s => some (.exp (Build.binary op l r) :: s)
  | .record typeName fields, s => do
    let (values, s) ← popExps fields.length s []
    return .exp (Build.record typeName (fields.zip values)) :: s
  | .seq n, s => do
    let (items, s) ← popExps n s []
    return .exp (Build.seq items) :: s
  | .assign, .exp value :: .var target :: s => some (.exp (Build.assign target value) :: s)
  | .ifThen, .exp a :: .exp test :: s => some (.exp (Build.ifThen test a) :: s)
  | .ifElse, .exp b :: .exp a :: .exp test :: s => some (.exp (Build.ifElse test a b) :: s)
  | .whileLoop, .exp body :: .exp test :: s => some (.exp (Build.whileLoop test body) :: s)
  | .doWhile, .exp test :: .exp body :: s => some (.exp (Build.doWhile body test) :: s)
  | .forLoop counter, .exp body :: .exp high :: .exp low :: s =>
    some (.exp (Build.forLoop counter low high body) :: s)
  | .letIn n, .exp body :: s => do
    let (decs, s) ← popDecs n s []
    return .exp (Build.letIn decs body) :: s
  | .array typeName, .exp init :: .exp size :: s => some (.exp (Build.array typeName size init) :: s)
  | .synonymOf target, s => some (.body (Build.synonymOf target) :: s)
  | .arrayOf elementType, s => some (.body (Build.arrayOf elementType) :: s)
  | .recordOf fields, s => some (.body (Build.recordOf fields) :: s)
  | .typeDec name, .body b :: s => some (.dec (Build.typeDec name b) :: s)
  | .varDec name typeName, .exp init :: s => some (.dec (Build.varDec name typeName init) :: s)
  | .functionDec name params result, .exp body :: s =>
    some (.dec (Build.functionDec name params result body) :: s)
  | .at place, .exp e :: s => some (.exp (e.at place) :: s)
  | .at place, .var v :: s => some (.var (v.at place) :: s)
  | .at place, .dec d :: s => some (.dec (d.at place) :: s)
  | _, _ => none

/-- The expression that the commands leave, if each of them finds its operands and one expression is
left in the end. -/
def build? (commands : List Command) : Option Exp :=
  match commands.foldlM (fun s c => step c s) [] with
  | some [.exp e] => some e
  | _ => none

end Postfix

end TigerCheck
