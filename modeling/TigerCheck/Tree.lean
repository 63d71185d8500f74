import TigerCheck.Frame
import TigerCheck.Location

/-!
# Programs as trees

A program is one expression. Expressions, variables and declarations are trees that refer to each
other: an expression may read a variable, the index of an array element is an expression, and a let
block holds declarations whose bodies and initializers are expressions.

Beside what the program says, a node has cells for what the checker finds out: the type of an
expression, the slot a name is bound to, the function a call goes to, and so on. A fresh tree has
empty cells; checking gives back the same tree with its cells filled.

* `Ident`, `Mark`: a name with its place; the place and the type cell of a node.
* `BinOp`, `TypeBody`, `TypeDec`, `FunctionHead`: the parts without expressions.
* `Exp`, `Var`, `Dec`: expressions, variables (what can be assigned to) and declarations.
* `Exp.Form`, `Var.Form`, `TypeBody.Form`, `Dec.Kind`: their forms, with the word for each.
* `Program`: the whole.
-/

namespace TigerCheck

/-- A name with its place in the text. -/
structure Ident where
  name : String
  loc : Location := .unknown
deriving DecidableEq

/-- What every expression and every variable carries: its place, and a cell for its type. -/
structure Mark where
  loc : Location := .unknown
  /-- Empty before the check, and after it where the check failed. -/
  ty : Option Ty := none
deriving DecidableEq

/-- The mark with its type cell set to the outcome of a check. -/
def Mark.typed (m : Mark) (ty : Option Ty) : Mark := { m with ty := ty }

/-- The binary operators. -/
inductive BinOp where
  | add | sub | mul | div
  | lt | gt | le | ge
  | eq | ne
  | and | or
deriving DecidableEq

namespace BinOp

/-- Whether an operator is `=` or `<>`, which compare values of any matching types. -/
def isEquality : BinOp → Bool
  | eq | ne => true
  | _ => false

/-- All operators. -/
def all : List BinOp := [add, sub, mul, div, lt, gt, le, ge, eq, ne, and, or]

/-- The word for an operator in a written tree. -/
def word : BinOp → String
  | add => "Add"
  | sub => "Sub"
  | mul => "Mul"
  | div => "Div"
  | lt => "Lt"
  | gt => "Gt"
  | le => "Le"
  | ge => "Ge"
  | eq => "Eq"
  | ne => "Ne"
  | and => "And"
  | or => "Or"

/-- The operator that a word stands for. -/
def ofWord? (w : String) : Option BinOp := all.find? (·.word == w)

theorem ofWord?_word (op : BinOp) : ofWord? op.word = some op := by
  cases op <;> rfl

end BinOp

/-- A name and the name of its type: a field of a record type, or a parameter. -/
structure TypedName where
  name : Ident
  typeName : Ident
deriving DecidableEq

/-- The right-hand side of a type declaration. -/
inductive TypeBody where
  /-- Another name for a type, `type a = b`. -/
  | synonym (target : Ident)
  | record (fields : List TypedName)
  | array (element : Ident)
deriving DecidableEq

namespace TypeBody

/-- The forms of right-hand sides. -/
inductive Form where
  | synonym | record | array
deriving DecidableEq

/-- The word for a form of right-hand sides in a written tree. -/
def Form.word : Form → String
  | synonym => "Name"
  | record => "Record"
  | array => "Array"

/-- The form of right-hand sides that a word stands for. -/
def Form.ofWord? (w : String) : Option Form := [synonym, record, array].find? (·.word == w)

theorem Form.ofWord?_word (f : Form) : ofWord? f.word = some f := by
  cases f <;> rfl

/-- Whether a right-hand side is just another name. -/
def isSynonym : TypeBody → Bool
  | synonym _ => true
  | _ => false

end TypeBody

/-- A type declaration. -/
structure TypeDec where
  name : Ident
  body : TypeBody
  loc : Location := .unknown
deriving DecidableEq

/-- What a function declaration says before its body. A procedure has no result. -/
structure FunctionHead where
  name : Ident
  params : List TypedName
  result : Option Ident
deriving DecidableEq

mutual

/-- Expressions. -/
inductive Exp where
  /-- The value of a variable. -/
  | var (mark : Mark) (source : Var)
  | nil (mark : Mark)
  | int (mark : Mark) (value : Int64)
  | string (mark : Mark) (value : String)
  /-- A call; the cell holds the function that the name was found to denote. -/
  | call (mark : Mark) (callee : Ident) (args : List Exp) (function : Option FunctionId)
  | binary (mark : Mark) (op : BinOp) (left right : Exp)
  /-- A record literal, with its initializers in the order of the text. -/
  | record (mark : Mark) (typeName : Ident) (inits : List (Ident × Exp))
  | seq (mark : Mark) (items : List Exp)
  | assign (mark : Mark) (target : Var) (value : Exp)
  | cond (mark : Mark) (test thenPart : Exp) (elsePart : Option Exp)
  | whileLoop (mark : Mark) (test body : Exp)
  /-- A loop whose body comes before its test. -/
  | doWhile (mark : Mark) (body test : Exp)
  /-- A counting loop; the cell holds the counter's slot. -/
  | forLoop (mark : Mark) (counter : Ident) (low high body : Exp) (slot : Option VarId)
  | breakLoop (mark : Mark)
  | letIn (mark : Mark) (decs : List Dec) (body : Exp)
  /-- An array literal. -/
  | array (mark : Mark) (typeName : Ident) (size init : Exp)

/-- Variables: what can be read and assigned to. -/
inductive Var where
  /-- A name; the cell holds the slot that it is bound to. -/
  | simple (mark : Mark) (name : String) (binding : Option VarId)
  /-- A field of a record; the cell holds the position of the field. -/
  | field (mark : Mark) (base : Var) (name : Ident) (position : Option Nat)
  /-- An element of an array. -/
  | element (mark : Mark) (base : Var) (index : Exp)

/-- Declarations of a let block. -/
inductive Dec where
  | type (dec : TypeDec)
  /-- A function; the cell holds its handle. -/
  | function (head : FunctionHead) (body : Exp) (loc : Location) (id : Option FunctionId)
  /-- A variable; the cell holds its slot. -/
  | var (name : Ident) (typeName : Option Ident) (init : Exp) (loc : Location) (slot : Option VarId)

end

/-- A program is one expression. -/
structure Program where
  body : Exp

namespace Exp

/-- The forms of expressions. -/
inductive Form where
  | var | nil | int | string | call | binary | record | seq | assign | cond | whileLoop | doWhile
  | forLoop | breakLoop | letIn | array
deriving DecidableEq

namespace Form

/-- All forms. -/
def all : List Form :=
  [var, nil, int, string, call, binary, record, seq, assign, cond, whileLoop, doWhile, forLoop,
    breakLoop, letIn, array]

/-- The word for a form in a written tree. -/
def word : Form → String
  | var => "Var"
  | nil => "Nil"
  | int => "Int"
  | string => "String"
  | call => "Call"
  | binary => "Binary"
  | record => "Record"
  | seq => "Seq"
  | assign => "Assign"
  | cond => "If"
  | whileLoop => "While"
  | doWhile => "DoWhile"
  | forLoop => "For"
  | breakLoop => "Break"
  | letIn => "Let"
  | array => "Array"

/-- The form that a word stands for. -/
def ofWord? (w : String) : Option Form := all.find? (·.word == w)

theorem ofWord?_word (f : Form) : ofWord? f.word = some f := by
  cases f <;> rfl

end Form

/-- The form of an expression. -/
def form : Exp → Form
  | var .. => .var
  | nil _ => .nil
  | int .. => .int
  | string .. => .string
  | call .. => .call
  | binary .. => .binary
  | record .. => .record
  | seq .. => .seq
  | assign .. => .assign
  | cond .. => .cond
  | whileLoop .. => .whileLoop
  | doWhile .. => .doWhile
  | forLoop .. => .forLoop
  | breakLoop _ => .breakLoop
  | letIn .. => .letIn
  | array .. => .array

/-- The place and the type cell of an expression. -/
def mark : Exp → Mark
  | var m _ | nil m | int m _ | string m _ | call m _ _ _ | binary m _ _ _ | record m _ _ | seq m _
  | assign m _ _ | cond m _ _ _ | whileLoop m _ _ | doWhile m _ _ | forLoop m _ _ _ _ _ | breakLoop m
  | letIn m _ _ | array m _ _ _ => m

/-- The place of an expression. -/
def loc (e : Exp) : Location := e.mark.loc

/-- The type cell of an expression. -/
def ty (e : Exp) : Option Ty := e.mark.ty

/-- Put another mark on an expression. -/
def withMark (m : Mark) : Exp → Exp
  | var _ v => var m v
  | nil _ => nil m
  | int _ n => int m n
  | string _ s => string m s
  | call _ f args id => call m f args id
  | binary _ op l r => binary m op l r
  | record _ t inits => record m t inits
  | seq _ items => seq m items
  | assign _ v e => assign m v e
  | cond _ t a b => cond m t a b
  | whileLoop _ t b => whileLoop m t b
  | doWhile _ b t => doWhile m b t
  | forLoop _ c l h b slot => forLoop m c l h b slot
  | breakLoop _ => breakLoop m
  | letIn _ ds b => letIn m ds b
  | array _ t s i => array m t s i

/-- Whether an expression is a record literal or an array literal. -/
def isLiteral : Exp → Bool
  | record .. | array .. => true
  | _ => false

@[simp] theorem mark_withMark (m : Mark) (e : Exp) : (e.withMark m).mark = m := by
  cases e <;> rfl

end Exp

namespace Var

/-- The forms of variables. -/
inductive Form where
  | simple | field | element
deriving DecidableEq

/-- The word for a form of variables in a written tree. -/
def Form.word : Form → String
  | simple => "Simple"
  | field => "Field"
  | element => "Subscript"

/-- The form of variables that a word stands for. -/
def Form.ofWord? (w : String) : Option Form := [simple, field, element].find? (·.word == w)

theorem Form.ofWord?_word (f : Form) : ofWord? f.word = some f := by
  cases f <;> rfl

/-- The form of a variable. -/
def form : Var → Form
  | simple .. => .simple
  | field .. => .field
  | element .. => .element

/-- The place and the type cell of a variable. -/
def mark : Var → Mark
  | simple m _ _ | field m _ _ _ | element m _ _ => m

/-- The place of a variable. -/
def loc (v : Var) : Location := v.mark.loc

/-- The type cell of a variable. -/
def ty (v : Var) : Option Ty := v.mark.ty

/-- Put another mark on a variable. -/
def withMark (m : Mark) : Var → Var
  | simple _ name binding => simple m name binding
  | field _ base name position => field m base name position
  | element _ base index => element m base index

@[simp] theorem mark_withMark (m : Mark) (v : Var) : (v.withMark m).mark = m := by
  cases v <;> rfl

end Var

namespace Dec

/-- The kinds of declarations. -/
inductive Kind where
  | type
  | function
  | var
deriving DecidableEq

/-- The kind of a declaration. -/
def kind : Dec → Kind
  | type _ => .type
  | function .. => .function
  | var .. => .var

/-- The name that a declaration introduces. -/
def name : Dec → Ident
  | type d => d.name
  | function h _ _ _ => h.name
  | var n _ _ _ _ => n

/-- The word for a kind of declarations. -/
def Kind.word : Kind → String
  | type => "Type"
  | function => "Function"
  | var => "Var"

/-- The kind of declarations that a word stands for. -/
def Kind.ofWord? (w : String) : Option Kind := [type, function, var].find? (·.word == w)

theorem Kind.ofWord?_word (k : Kind) : ofWord? k.word = some k := by
  cases k <;> rfl

end Dec

end TigerCheck
