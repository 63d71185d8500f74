import TigerCheck.Json.Fields
import TigerCheck.Json.Reader
import TigerCheck.Tree

/-!
# Reading trees

A program is read from any text that spells it: the fields of a structure in any order, with other
keys among them, or as a list; a missing place, and a missing part that may be missing; a form without
content as its word or with the content `null`. Lists and objects that belong to the tree may be
nested 127 deep. Every reader takes the number of levels that are left, and a list or an object costs
one of them; what stands under a key that is ignored costs nothing.

* `Exp.ofJson?`, `Var.ofJson?`, `Dec.ofJson?`: trees, with empty cells.
* `Program.decode?`: the program that a text spells.
-/

namespace TigerCheck

/-- How deep the lists and objects of a tree may be nested. -/
def nestingLimit : Nat := 127

/-- A location has both a line and a column. -/
def Location.ofJson? : Nat → Json → Option Location
  | _ + 1, j =>
    match j.fields? ["line", "column"] with
    | some [some line, some column] => do return ⟨← line.word32?, ← column.word32?⟩
    | _ => none
  | 0, _ => none

/-- A place that may be missing, but not `null`. -/
def Location.ofField? (depth : Nat) : Option Json → Option Location
  | none => some .unknown
  | some j => ofJson? depth j

/-- A name, as a structure. -/
def Ident.ofJson? : Nat → Json → Option Ident
  | depth + 1, j =>
    match j.fields? ["name", "loc"] with
    | some [some name, loc] => do return ⟨← name.text?, ← Location.ofField? depth loc⟩
    | _ => none
  | 0, _ => none

/-- A name and the name of its type. -/
def TypedName.ofJson? : Nat → Json → Option TypedName
  | depth + 1, j =>
    match j.fields? ["name", "type_name"] with
    | some [some name, some typeName] => do
      return ⟨← Ident.ofJson? depth name, ← Ident.ofJson? depth typeName⟩
    | _ => none
  | 0, _ => none

/-- A list of names with their types. -/
def TypedName.listOfJson? : Nat → Json → Option (List TypedName)
  | depth + 1, .arr items => items.mapM (ofJson? depth)
  | _, _ => none

/-- The right-hand side of a type declaration. -/
def TypeBody.ofJson? : Nat → Json → Option TypeBody
  | depth + 1, .obj [(word, content)] =>
    match Form.ofWord? word with
    | some .synonym => .synonym <$> Ident.ofJson? depth content
    | some .record => .record <$> TypedName.listOfJson? depth content
    | some .array => .array <$> Ident.ofJson? depth content
    | none => none
  | _, _ => none

/-- A type declaration. -/
def TypeDec.ofJson? : Nat → Json → Option TypeDec
  | depth + 1, j =>
    match j.fields? ["name", "ty", "loc"] with
    | some [some name, some body, loc] => do
      return ⟨← Ident.ofJson? depth name, ← TypeBody.ofJson? depth body,
        ← Location.ofField? depth loc⟩
    | _ => none
  | 0, _ => none

/-- A binary operator: its word, or its word with the content `null`. -/
def BinOp.ofJson? : Nat → Json → Option BinOp
  | _, .str word => ofWord? word
  | _ + 1, .obj [(word, .null)] => ofWord? word
  | _, _ => none

/-- An expression whose form has no content. -/
def Exp.contentless? (m : Mark) : Form → Option Exp
  | .nil => some (.nil m)
  | .breakLoop => some (.breakLoop m)
  | _ => none

/-- An expression whose content is a number or a string, or `null` for no content. -/
def Exp.leaf? (m : Mark) (f : Form) : Json → Option Exp
  | .null => contentless? m f
  | .int n => if f = .int then .int m <$> (Json.int n).word64? else none
  | .str s => if f = .string then some (.string m s) else none
  | _ => none

mutual

/-- An expression, as a structure of its form and its place. -/
def Exp.ofJson? : Nat → Json → Option Exp
  | depth + 1, j =>
    match j.fields? ["kind", "loc"] with
    | some [some kind, loc] => do
      let loc ← Location.ofField? depth loc
      Exp.formOfJson? depth { loc } kind
    | _ => none
  | 0, _ => none

/-- An expression from its mark, and from its form with the content. -/
def Exp.formOfJson? : Nat → Mark → Json → Option Exp
  | _, m, .str word => (Exp.Form.ofWord? word).bind (Exp.contentless? m)
  | depth + 1, m, .obj [(word, content)] => do
    match ← Exp.Form.ofWord? word with
    | .var => .var m <$> Var.ofJson? depth content
    | .seq => .seq m <$> Exp.listOfJson? depth content
    | .nil => Exp.leaf? m .nil content
    | .breakLoop => Exp.leaf? m .breakLoop content
    | .int => Exp.leaf? m .int content
    | .string => Exp.leaf? m .string content
    | form => Exp.partsOfJson? depth m form content
  | _, _, _ => none

/-- An expression from its mark, its form and the structure of its parts. -/
def Exp.partsOfJson? : Nat → Mark → Exp.Form → Json → Option Exp
  | depth + 1, m, .call, j =>
    match j.fields? ["func", "args"] with
    | some [some func, some args] => do
      return .call m (← Ident.ofJson? depth func) (← Exp.listOfJson? depth args) none
    | _ => none
  | depth + 1, m, .binary, j =>
    match j.fields? ["op", "left", "right"] with
    | some [some op, some left, some right] => do
      return .binary m (← BinOp.ofJson? depth op) (← Exp.ofJson? depth left) (← Exp.ofJson? depth right)
    | _ => none
  | depth + 1, m, .record, j =>
    match j.fields? ["type_name", "fields"] with
    | some [some typeName, some inits] => do
      return .record m (← Ident.ofJson? depth typeName) (← Exp.initsOfJson? depth inits)
    | _ => none
  | depth + 1, m, .assign, j =>
    match j.fields? ["var", "exp"] with
    | some [some target, some value] => do
      return .assign m (← Var.ofJson? depth target) (← Exp.ofJson? depth value)
    | _ => none
  | depth + 1, m, .cond, j =>
    match j.fields? ["test", "then", "else"] with
    | some [some test, some thenPart, elsePart] => do
      return .cond m (← Exp.ofJson? depth test) (← Exp.ofJson? depth thenPart)
        (← Json.optional? (Exp.ofJson? depth) elsePart)
    | _ => none
  | depth + 1, m, .whileLoop, j =>
    match j.fields? ["test", "body"] with
    | some [some test, some body] => do
      return .whileLoop m (← Exp.ofJson? depth test) (← Exp.ofJson? depth body)
    | _ => none
  | depth + 1, m, .doWhile, j =>
    match j.fields? ["body", "test"] with
    | some [some body, some test] => do
      return .doWhile m (← Exp.ofJson? depth body) (← Exp.ofJson? depth test)
    | _ => none
  | depth + 1, m, .forLoop, j =>
    match j.fields? ["var", "low", "high", "body"] with
    | some [some counter, some low, some high, some body] => do
      return .forLoop m (← Ident.ofJson? depth counter) (← Exp.ofJson? depth low)
        (← Exp.ofJson? depth high) (← Exp.ofJson? depth body) none
    | _ => none
  | depth + 1, m, .letIn, j =>
    match j.fields? ["decs", "body"] with
    | some [some decs, some body] => do
      return .letIn m (← Dec.listOfJson? depth decs) (← Exp.ofJson? depth body)
    | _ => none
  | depth + 1, m, .array, j =>
    match j.fields? ["type_name", "size", "init"] with
    | some [some typeName, some size, some init] => do
      return .array m (← Ident.ofJson? depth typeName) (← Exp.ofJson? depth size)
        (← Exp.ofJson? depth init)
    | _ => none
  | _, _, _, _ => none

/-- A list of expressions. -/
def Exp.listOfJson? : Nat → Json → Option (List Exp)
  | depth + 1, .arr items => items.mapM (Exp.ofJson? depth)
  | _, _ => none

/-- The initializers of a record literal. -/
def Exp.initsOfJson? : Nat → Json → Option (List (Ident × Exp))
  | depth + 1, .arr items => items.mapM (Exp.initOfJson? depth)
  | _, _ => none

/-- The initializer of a field: its name and its value. -/
def Exp.initOfJson? : Nat → Json → Option (Ident × Exp)
  | depth + 1, j =>
    match j.fields? ["name", "exp"] with
    | some [some name, some e] => do return (← Ident.ofJson? depth name, ← Exp.ofJson? depth e)
    | _ => none
  | 0, _ => none

/-- A variable, as a structure of its form and its place. -/
def Var.ofJson? : Nat → Json → Option Var
  | depth + 1, j =>
    match j.fields? ["kind", "loc"] with
    | some [some kind, loc] => do
      let loc ← Location.ofField? depth loc
      Var.formOfJson? depth { loc } kind
    | _ => none
  | 0, _ => none

/-- A variable from its mark, and from its form with the content. -/
def Var.formOfJson? : Nat → Mark → Json → Option Var
  | depth + 1, m, .obj [(word, content)] => do
    Var.partsOfJson? depth m (← Var.Form.ofWord? word) content
  | _, _, _ => none

/-- A variable from its mark, its form and the structure of its parts. -/
def Var.partsOfJson? : Nat → Mark → Var.Form → Json → Option Var
  | _ + 1, m, .simple, j =>
    match j.fields? ["name"] with
    | some [some name] => do return .simple m (← name.text?) none
    | _ => none
  | depth + 1, m, .field, j =>
    match j.fields? ["base", "field"] with
    | some [some base, some name] => do
      return .field m (← Var.ofJson? depth base) (← Ident.ofJson? depth name) none
    | _ => none
  | depth + 1, m, .element, j =>
    match j.fields? ["base", "index"] with
    | some [some base, some index] => do
      return .element m (← Var.ofJson? depth base) (← Exp.ofJson? depth index)
    | _ => none
  | 0, _, _, _ => none

/-- A declaration, as its kind with the structure of its parts. -/
def Dec.ofJson? : Nat → Json → Option Dec
  | depth + 1, .obj [(word, content)] => do
    match ← Dec.Kind.ofWord? word with
    | .type => .type <$> TypeDec.ofJson? depth content
    | .function => Dec.functionOfJson? depth content
    | .var => Dec.varOfJson? depth content
  | _, _ => none

/-- A function declaration from the structure of its parts. -/
def Dec.functionOfJson? : Nat → Json → Option Dec
  | depth + 1, j =>
    match j.fields? ["name", "params", "result", "body", "loc"] with
    | some [some name, some params, result, some body, loc] => do
      let head : FunctionHead := ⟨← Ident.ofJson? depth name, ← TypedName.listOfJson? depth params,
        ← Json.optional? (Ident.ofJson? depth) result⟩
      return .function head (← Exp.ofJson? depth body) (← Location.ofField? depth loc) none
    | _ => none
  | 0, _ => none

/-- A variable declaration from the structure of its parts. -/
def Dec.varOfJson? : Nat → Json → Option Dec
  | depth + 1, j =>
    match j.fields? ["name", "type_name", "init", "loc"] with
    | some [some name, typeName, some init, loc] => do
      return .var (← Ident.ofJson? depth name) (← Json.optional? (Ident.ofJson? depth) typeName)
        (← Exp.ofJson? depth init) (← Location.ofField? depth loc) none
    | _ => none
  | 0, _ => none

/-- A list of declarations. -/
def Dec.listOfJson? : Nat → Json → Option (List Dec)
  | depth + 1, .arr items => items.mapM (Dec.ofJson? depth)
  | _, _ => none

end

/-- A program from the value of its text. -/
def Program.ofJson? : Nat → Json → Option Program
  | depth + 1, j =>
    match j.fields? ["body"] with
    | some [some body] => (⟨·⟩) <$> Exp.ofJson? depth body
    | _ => none
  | 0, _ => none

/-- The program that a text spells, if it spells one. -/
def Program.decode? (text : String) : Option Program :=
  (Json.parse? text).bind (Program.ofJson? nestingLimit)

end TigerCheck
