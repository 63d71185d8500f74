import TigerCheck.Json
import TigerCheck.Tree

/-!
# Writing trees

The written form of a program: structures are objects with their fields in a fixed order, a choice is
an object with the word for its form as only key, and a form without content is its word alone. The
place of a node is always written, a missing part is `null`, and cells are not written.

* `Exp.toJson`, `Var.toJson`, `Dec.toJson`: the values of trees.
* `Program.encode`: the text of a program, without blanks.
-/

namespace TigerCheck

open Json (obj arr str)

/-- Line and column. -/
def Location.toJson (l : Location) : Json :=
  obj [("line", .nat l.line.toNat), ("column", .nat l.column.toNat)]

/-- The name and its place. -/
def Ident.toJson (i : Ident) : Json := obj [("name", str i.name), ("loc", i.loc.toJson)]

/-- The two names and their places. -/
def TypedName.toJson (f : TypedName) : Json :=
  obj [("name", f.name.toJson), ("type_name", f.typeName.toJson)]

/-- The form of a right-hand side with the names in it. -/
def TypeBody.toJson : TypeBody → Json
  | .synonym target => obj [(Form.synonym.word, target.toJson)]
  | .record fields => obj [(Form.record.word, arr (fields.map (·.toJson)))]
  | .array element => obj [(Form.array.word, element.toJson)]

/-- The name, the right-hand side and the place. -/
def TypeDec.toJson (d : TypeDec) : Json :=
  obj [("name", d.name.toJson), ("ty", d.body.toJson), ("loc", d.loc.toJson)]

/-- A node: the form with its content, and the place. -/
def Mark.node (m : Mark) (kind : Json) : Json := obj [("kind", kind), ("loc", m.loc.toJson)]

mutual

/-- The value of an expression. -/
def Exp.toJson : Exp → Json
  | .var m v => m.node (obj [(Exp.Form.var.word, v.toJson)])
  | .nil m => m.node (str Exp.Form.nil.word)
  | .int m n => m.node (obj [(Exp.Form.int.word, .int n.toInt)])
  | .string m s => m.node (obj [(Exp.Form.string.word, str s)])
  | .call m f args _ =>
    m.node (obj [(Exp.Form.call.word, obj [("func", f.toJson), ("args", arr (expsToJson args))])])
  | .binary m op l r =>
    m.node (obj [(Exp.Form.binary.word,
      obj [("op", str op.word), ("left", l.toJson), ("right", r.toJson)])])
  | .record m t inits =>
    m.node (obj [(Exp.Form.record.word, obj [("type_name", t.toJson), ("fields", arr (initsToJson inits))])])
  | .seq m items => m.node (obj [(Exp.Form.seq.word, arr (expsToJson items))])
  | .assign m v e => m.node (obj [(Exp.Form.assign.word, obj [("var", v.toJson), ("exp", e.toJson)])])
  | .cond m t a none =>
    m.node (obj [(Exp.Form.cond.word, obj [("test", t.toJson), ("then", a.toJson), ("else", .null)])])
  | .cond m t a (some b) =>
    m.node (obj [(Exp.Form.cond.word, obj [("test", t.toJson), ("then", a.toJson), ("else", b.toJson)])])
  | .whileLoop m t b =>
    m.node (obj [(Exp.Form.whileLoop.word, obj [("test", t.toJson), ("body", b.toJson)])])
  | .doWhile m b t =>
    m.node (obj [(Exp.Form.doWhile.word, obj [("body", b.toJson), ("test", t.toJson)])])
  | .forLoop m c l h b _ =>
    m.node (obj [(Exp.Form.forLoop.word,
      obj [("var", c.toJson), ("low", l.toJson), ("high", h.toJson), ("body", b.toJson)])])
  | .breakLoop m => m.node (str Exp.Form.breakLoop.word)
  | .letIn m ds b =>
    m.node (obj [(Exp.Form.letIn.word, obj [("decs", arr (decsToJson ds)), ("body", b.toJson)])])
  | .array m t s i =>
    m.node (obj [(Exp.Form.array.word,
      obj [("type_name", t.toJson), ("size", s.toJson), ("init", i.toJson)])])

/-- The value of a variable. -/
def Var.toJson : Var → Json
  | .simple m name _ => m.node (obj [(Var.Form.simple.word, obj [("name", str name)])])
  | .field m base name _ =>
    m.node (obj [(Var.Form.field.word, obj [("base", base.toJson), ("field", name.toJson)])])
  | .element m base index =>
    m.node (obj [(Var.Form.element.word, obj [("base", base.toJson), ("index", index.toJson)])])

/-- The value of a declaration. -/
def Dec.toJson : Dec → Json
  | .type d => obj [(Dec.Kind.type.word, d.toJson)]
  | .function head body loc _ =>
    obj [(Dec.Kind.function.word,
      obj [("name", head.name.toJson), ("params", arr (head.params.map (·.toJson))),
        ("result", .ofOption Ident.toJson head.result), ("body", body.toJson), ("loc", loc.toJson)])]
  | .var name typeName init loc _ =>
    obj [(Dec.Kind.var.word,
      obj [("name", name.toJson), ("type_name", .ofOption Ident.toJson typeName),
        ("init", init.toJson), ("loc", loc.toJson)])]

/-- The values of some expressions. -/
def expsToJson : List Exp → List Json
  | [] => []
  | e :: es => e.toJson :: expsToJson es

/-- The values of the initializers of a record literal. -/
def initsToJson : List (Ident × Exp) → List Json
  | [] => []
  | (name, e) :: inits => obj [("name", name.toJson), ("exp", e.toJson)] :: initsToJson inits

/-- The values of some declarations. -/
def decsToJson : List Dec → List Json
  | [] => []
  | d :: ds => d.toJson :: decsToJson ds

end

/-- The value of a program. -/
def Program.toJson (p : Program) : Json := obj [("body", p.body.toJson)]

/-- The text of a program. -/
def Program.encode (p : Program) : String := p.toJson.compact

end TigerCheck
