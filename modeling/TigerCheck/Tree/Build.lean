import TigerCheck.Tree

/-!
# Building trees by hand

Shorthands for programs that were not read from a text. The nodes they give have the unknown
location and empty cells; `Exp.at`, `Var.at` and `Dec.at` put a node at a place.

* `Build.ident`: a name without a place.
* `Build.nil` to `Build.array`: expressions, one shorthand for each form.
* `Build.simple`, `Build.field`, `Build.element`: variables.
* `Build.synonymOf`, `Build.recordOf`, `Build.arrayOf`: right-hand sides of type declarations.
* `Build.typeDec`, `Build.varDec`, `Build.functionDec`: declarations.
-/

namespace TigerCheck

/-- Put an expression at a place. -/
def Exp.at (e : Exp) (l : Location) : Exp := e.withMark { e.mark with loc := l }

/-- Put a variable at a place. -/
def Var.at (v : Var) (l : Location) : Var := v.withMark { v.mark with loc := l }

/-- Put a declaration and the name it introduces at a place. -/
def Dec.at (d : Dec) (l : Location) : Dec :=
  match d with
  | .type dec => .type { dec with loc := l, name := { dec.name with loc := l } }
  | .function head body _ id => .function { head with name := { head.name with loc := l } } body l id
  | .var name typeName init _ slot => .var { name with loc := l } typeName init l slot

namespace Build

/-- A name without a place. -/
def ident (name : String) : Ident := { name }

/-- A name and its type, both without a place. -/
def typedName (name typeName : String) : TypedName := ⟨ident name, ident typeName⟩

/-- A variable by its name. -/
def simple (name : String) : Var := .simple {} name none

/-- A field of a variable. -/
def field (base : Var) (name : String) : Var := .field {} base (ident name) none

/-- An element of a variable. -/
def element (base : Var) (index : Exp) : Var := .element {} base index

/-- The value of a variable; the expression stands where the variable stands. -/
def var (v : Var) : Exp := .var { loc := v.loc } v

/-- The value of a variable by its name. -/
def named (name : String) : Exp := var (simple name)

def nil : Exp := .nil {}

def int (value : Int64) : Exp := .int {} value

def string (value : String) : Exp := .string {} value

def call (callee : String) (args : List Exp) : Exp := .call {} (ident callee) args none

def binary (op : BinOp) (left right : Exp) : Exp := .binary {} op left right

/-- A record literal from the names of its fields and their values. -/
def record (typeName : String) (inits : List (String × Exp)) : Exp :=
  .record {} (ident typeName) (inits.map fun (name, e) => (ident name, e))

def seq (items : List Exp) : Exp := .seq {} items

def assign (target : Var) (value : Exp) : Exp := .assign {} target value

def ifThen (test thenPart : Exp) : Exp := .cond {} test thenPart none

def ifElse (test thenPart elsePart : Exp) : Exp := .cond {} test thenPart (some elsePart)

def whileLoop (test body : Exp) : Exp := .whileLoop {} test body

def doWhile (body test : Exp) : Exp := .doWhile {} body test

def forLoop (counter : String) (low high body : Exp) : Exp :=
  .forLoop {} (ident counter) low high body none

def breakLoop : Exp := .breakLoop {}

def letIn (decs : List Dec) (body : Exp) : Exp := .letIn {} decs body

def array (typeName : String) (size init : Exp) : Exp := .array {} (ident typeName) size init

/-- Another name for a type. -/
def synonymOf (target : String) : TypeBody := .synonym (ident target)

/-- A record type from the names of its fields and of their types. -/
def recordOf (fields : List (String × String)) : TypeBody :=
  .record (fields.map fun (name, typeName) => typedName name typeName)

/-- An array type from the name of its element type. -/
def arrayOf (elementType : String) : TypeBody := .array (ident elementType)

def typeDec (name : String) (body : TypeBody) : Dec := .type { name := ident name, body }

def varDec (name : String) (typeName : Option String) (init : Exp) : Dec :=
  .var (ident name) (typeName.map ident) init .unknown none

def functionDec (name : String) (params : List (String × String)) (result : Option String)
    (body : Exp) : Dec :=
  .function ⟨ident name, params.map fun (p, t) => typedName p t, result.map ident⟩ body .unknown none

end Build

end TigerCheck
