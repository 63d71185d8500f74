import TigerCheck.Proofs.Json.Compact
import TigerCheck.Proofs.Json.Structure
import TigerCheck.Proofs.Tree.Live
import TigerCheck.Tree.Encode

/-!
# Ways to write trees

What it means that a value is a way to write a tree, node by node, without reference to the reader. A place may be
left out if it is unknown, and a part that a node lacks may be left out or `null`. Cells are not written.

* `Ident.Presents`, `TypeDec.Presents`, `BinOp.Presents`, …: the parts without expressions.
* `Exp.Content`, `Var.Content`, `Dec.Content`: the ways to write the content of a form.
* **`Exp.Presents`**, **`Program.Presents`**: the ways to write an expression, and a program.
* `Exp.presents_toJson`: what is written for a tree is a way to write it. `Exp.exact_toJson`.
* `Exp.toJson_blank`: it does not depend on the cells.
-/

namespace TigerCheck

open Json (Part Structure Choice Items)
open Json.Part (required nullable)

/-! ## Parts without expressions -/

/-- Line and column. -/
def Location.Presents (l : Location) : Json → Prop :=
  Structure [required "line" (· = .nat l.line.toNat), required "column" (· = .nat l.column.toNat)]

/-- A place as a part of a structure, which may be left out if it is unknown. -/
def Location.part (l : Location) : Part := ⟨"loc", l.Presents, l = .unknown⟩

/-- The name and its place. -/
def Ident.Presents (i : Ident) : Json → Prop := Structure [required "name" (· = .str i.name), i.loc.part]

/-- The two names. -/
def TypedName.Presents (f : TypedName) : Json → Prop :=
  Structure [required "name" f.name.Presents, required "type_name" f.typeName.Presents]

/-- The form of a right-hand side with the names in it. -/
def TypeBody.Presents : TypeBody → Json → Prop
  | .synonym target => Choice Form.synonym.word target.Presents False
  | .record fields => Choice Form.record.word (Items (fields.map (·.Presents))) False
  | .array element => Choice Form.array.word element.Presents False

/-- The name, the right-hand side and the place. -/
def TypeDec.Presents (d : TypeDec) : Json → Prop :=
  Structure [required "name" d.name.Presents, required "ty" d.body.Presents, d.loc.part]

/-- The word, with `null` for the content if there is to be one. -/
def BinOp.Presents (op : BinOp) : Json → Prop := Choice op.word (· = .null) True

/-! ## Nodes -/

/-- The forms without content, whose word may stand alone. -/
def Exp.Form.StandsAlone (f : Form) : Prop := f = nil ∨ f = breakLoop

/-- The form of an expression with its content, and its place. -/
def Exp.Node (e : Exp) (content : Json → Prop) : Json → Prop :=
  Structure [required "kind" (Choice e.form.word content e.form.StandsAlone), e.loc.part]

/-- The form of a variable with its content, and its place. -/
def Var.Node (v : Var) (content : Json → Prop) : Json → Prop :=
  Structure [required "kind" (Choice v.form.word content False), v.loc.part]

/-- The kind of a declaration with its content. -/
def Dec.Node (d : Dec) (content : Json → Prop) : Json → Prop := Choice d.kind.word content False

mutual

/-- The ways to write the content of an expression. -/
def Exp.Content : Exp → Json → Prop
  | .var _ v => v.Node v.Content
  | .nil _ => (· = .null)
  | .int _ n => (· = .int n.toInt)
  | .string _ s => (· = .str s)
  | .call _ f args _ => Structure [required "func" f.Presents, required "args" (Items (waysAll args))]
  | .binary _ op l r => Structure
      [required "op" op.Presents, required "left" (l.Node l.Content), required "right" (r.Node r.Content)]
  | .record _ t inits => Structure [required "type_name" t.Presents, required "fields" (Items (waysInits inits))]
  | .seq _ items => Items (waysAll items)
  | .assign _ v e => Structure [required "var" (v.Node v.Content), required "exp" (e.Node e.Content)]
  | .cond _ t a none => Structure
      [required "test" (t.Node t.Content), required "then" (a.Node a.Content), nullable "else" none]
  | .cond _ t a (some b) => Structure
      [required "test" (t.Node t.Content), required "then" (a.Node a.Content),
        nullable "else" (some (b.Node b.Content))]
  | .whileLoop _ t b => Structure [required "test" (t.Node t.Content), required "body" (b.Node b.Content)]
  | .doWhile _ b t => Structure [required "body" (b.Node b.Content), required "test" (t.Node t.Content)]
  | .forLoop _ c l h b _ => Structure
      [required "var" c.Presents, required "low" (l.Node l.Content), required "high" (h.Node h.Content),
        required "body" (b.Node b.Content)]
  | .breakLoop _ => (· = .null)
  | .letIn _ ds b => Structure [required "decs" (Items (waysDecs ds)), required "body" (b.Node b.Content)]
  | .array _ t s i => Structure
      [required "type_name" t.Presents, required "size" (s.Node s.Content), required "init" (i.Node i.Content)]

/-- The ways to write the content of a variable. -/
def Var.Content : Var → Json → Prop
  | .simple _ name _ => Structure [required "name" (· = .str name)]
  | .field _ base name _ => Structure [required "base" (base.Node base.Content), required "field" name.Presents]
  | .element _ base index => Structure
      [required "base" (base.Node base.Content), required "index" (index.Node index.Content)]

/-- The ways to write the content of a declaration. -/
def Dec.Content : Dec → Json → Prop
  | .type d => d.Presents
  | .function head body loc _ => Structure
      [required "name" head.name.Presents, required "params" (Items (head.params.map (·.Presents))),
        nullable "result" (head.result.map (·.Presents)), required "body" (body.Node body.Content), loc.part]
  | .var name typeName init loc _ => Structure
      [required "name" name.Presents, nullable "type_name" (typeName.map (·.Presents)),
        required "init" (init.Node init.Content), loc.part]

/-- The ways to write some expressions. -/
def waysAll : List Exp → List (Json → Prop)
  | [] => []
  | e :: es => e.Node e.Content :: waysAll es

/-- The ways to write the initializers of a record literal. -/
def waysInits : List (Ident × Exp) → List (Json → Prop)
  | [] => []
  | (name, e) :: inits =>
    Structure [required "name" name.Presents, required "exp" (e.Node e.Content)] :: waysInits inits

/-- The ways to write some declarations. -/
def waysDecs : List Dec → List (Json → Prop)
  | [] => []
  | d :: ds => d.Node d.Content :: waysDecs ds

end

/-- **The ways to write an expression.** -/
def Exp.Presents (e : Exp) : Json → Prop := e.Node e.Content

/-- The ways to write a variable. -/
def Var.Presents (v : Var) : Json → Prop := v.Node v.Content

/-- The ways to write a declaration. -/
def Dec.Presents (d : Dec) : Json → Prop := d.Node d.Content

/-- The ways to write an initializer of a record literal. -/
def presentsInit (i : Ident × Exp) : Json → Prop :=
  Structure [required "name" i.1.Presents, required "exp" i.2.Presents]

/-- **The ways to write a program.** -/
def Program.Presents (p : Program) : Json → Prop := Structure [required "body" p.body.Presents]

theorem waysAll_eq (es : List Exp) : waysAll es = es.map Exp.Presents := by
  induction es with
  | nil => rfl
  | cons e es ih => rw [waysAll, ih, List.map_cons, Exp.Presents]

theorem waysInits_eq (inits : List (Ident × Exp)) : waysInits inits = inits.map presentsInit := by
  induction inits with
  | nil => rfl
  | cons i inits ih => rw [waysInits, ih, List.map_cons, presentsInit, Exp.Presents]

theorem waysDecs_eq (ds : List Dec) : waysDecs ds = ds.map Dec.Presents := by
  induction ds with
  | nil => rfl
  | cons d ds ih => rw [waysDecs, ih, List.map_cons, Dec.Presents]

/-! ## What is written -/

theorem Location.presents_toJson (l : Location) : l.Presents l.toJson :=
  .of_members (.shown rfl (.shown rfl .nil))

theorem Ident.presents_toJson (i : Ident) : i.Presents i.toJson :=
  .of_members (.shown rfl (.shown i.loc.presents_toJson .nil))

theorem TypedName.presents_toJson (f : TypedName) : f.Presents f.toJson :=
  .of_members (.shown f.name.presents_toJson (.shown f.typeName.presents_toJson .nil))

theorem items_map {α : Type} {P : α → Json → Prop} {f : α → Json} {l : List α} (h : ∀ a ∈ l, P a (f a)) :
    Items (l.map P) (.arr (l.map f)) := by
  refine ⟨_, rfl, ?_⟩
  rw [List.forall₂_map_left_iff, List.forall₂_map_right_iff, List.forall₂_same]
  exact h

theorem TypeBody.presents_toJson (b : TypeBody) : b.Presents b.toJson := by
  cases b with
  | synonym target => exact .tagged target.presents_toJson
  | record fields => exact .tagged (items_map fun f _ => f.presents_toJson)
  | array element => exact .tagged element.presents_toJson

theorem TypeDec.presents_toJson (d : TypeDec) : d.Presents d.toJson :=
  .of_members (.shown d.name.presents_toJson (.shown d.body.presents_toJson (.shown d.loc.presents_toJson .nil)))

theorem BinOp.presents_toJson (op : BinOp) : op.Presents (.str op.word) := .bare trivial

theorem nullable_shows (i : Option Ident) (name : String) :
    (nullable name (i.map (·.Presents))).Shows (.ofOption Ident.toJson i) := by
  cases i with
  | none => rfl
  | some i => exact i.presents_toJson

theorem Exp.node_tagged (e : Exp) {content : Json → Prop} {v : Json} (h : content v) :
    e.Node content (e.mark.node (.obj [(e.form.word, v)])) :=
  .of_members (.shown (.tagged h) (.shown e.loc.presents_toJson .nil))

theorem Exp.node_bare (e : Exp) {content : Json → Prop} (h : e.form.StandsAlone) :
    e.Node content (e.mark.node (.str e.form.word)) :=
  .of_members (.shown (.bare h) (.shown e.loc.presents_toJson .nil))

theorem Var.node_tagged (v : Var) {content : Json → Prop} {j : Json} (h : content j) :
    v.Node content (v.mark.node (.obj [(v.form.word, j)])) :=
  .of_members (.shown (.tagged h) (.shown v.loc.presents_toJson .nil))

theorem expsToJson_eq (es : List Exp) : expsToJson es = es.map Exp.toJson := by
  induction es with
  | nil => rfl
  | cons e es ih => rw [expsToJson, ih, List.map_cons]

theorem decsToJson_eq (ds : List Dec) : decsToJson ds = ds.map Dec.toJson := by
  induction ds with
  | nil => rfl
  | cons d ds ih => rw [decsToJson, ih, List.map_cons]

/-- The value of an initializer of a record literal. -/
def initToJson (i : Ident × Exp) : Json := .obj [("name", i.1.toJson), ("exp", i.2.toJson)]

theorem initsToJson_eq (inits : List (Ident × Exp)) : initsToJson inits = inits.map initToJson := by
  induction inits with
  | nil => rfl
  | cons i inits ih => rw [initsToJson, ih, List.map_cons, initToJson]

theorem items_waysAll {es : List Exp} (h : ∀ e ∈ es, e.Presents e.toJson) :
    Items (waysAll es) (.arr (expsToJson es)) := by
  rw [waysAll_eq, expsToJson_eq]
  exact items_map h

theorem items_waysInits {inits : List (Ident × Exp)} (h : ∀ i ∈ inits, i.2.Presents i.2.toJson) :
    Items (waysInits inits) (.arr (initsToJson inits)) := by
  rw [waysInits_eq, initsToJson_eq]
  exact items_map fun i hi => .of_members (.shown i.1.presents_toJson (.shown (h i hi) .nil))

theorem items_waysDecs {ds : List Dec} (h : ∀ d ∈ ds, d.Presents d.toJson) :
    Items (waysDecs ds) (.arr (decsToJson ds)) := by
  rw [waysDecs_eq, decsToJson_eq]
  exact items_map h

theorem presentsCases : Tree.Cases (fun e => e.Presents e.toJson) (fun v => v.Presents v.toJson)
    (fun d => d.Presents d.toJson) where
  var m v hv := (Exp.var m v).node_tagged hv
  nil m := (Exp.nil m).node_bare (.inl rfl)
  int m n := (Exp.int m n).node_tagged rfl
  string m s := (Exp.string m s).node_tagged rfl
  call m f args id ha := (Exp.call m f args id).node_tagged
    (.of_members (.shown f.presents_toJson (.shown (items_waysAll ha) .nil)))
  binary m op l r hl hr := (Exp.binary m op l r).node_tagged
    (.of_members (.shown op.presents_toJson (.shown hl (.shown hr .nil))))
  record m t inits hi := (Exp.record m t inits).node_tagged
    (.of_members (.shown t.presents_toJson (.shown (items_waysInits hi) .nil)))
  seq m items hi := (Exp.seq m items).node_tagged (items_waysAll hi)
  assign m v e hv he := (Exp.assign m v e).node_tagged (.of_members (.shown hv (.shown he .nil)))
  condNone m t a ht ha := (Exp.cond m t a none).node_tagged
    (.of_members (.shown ht (.shown ha (.shown rfl .nil))))
  condSome m t a b ht ha hb := (Exp.cond m t a (some b)).node_tagged
    (.of_members (.shown ht (.shown ha (.shown hb .nil))))
  whileLoop m t b ht hb := (Exp.whileLoop m t b).node_tagged (.of_members (.shown ht (.shown hb .nil)))
  doWhile m b t hb ht := (Exp.doWhile m b t).node_tagged (.of_members (.shown hb (.shown ht .nil)))
  forLoop m c l h b slot hl hh hb := (Exp.forLoop m c l h b slot).node_tagged
    (.of_members (.shown c.presents_toJson (.shown hl (.shown hh (.shown hb .nil)))))
  breakLoop m := (Exp.breakLoop m).node_bare (.inr rfl)
  letIn m ds b hd hb := (Exp.letIn m ds b).node_tagged
    (.of_members (.shown (items_waysDecs hd) (.shown hb .nil)))
  array m t s i hs hi := (Exp.array m t s i).node_tagged
    (.of_members (.shown t.presents_toJson (.shown hs (.shown hi .nil))))
  simple m name binding := (Var.simple m name binding).node_tagged (.of_members (.shown rfl .nil))
  field m base name position hb := (Var.field m base name position).node_tagged
    (.of_members (.shown hb (.shown name.presents_toJson .nil)))
  element m base index hb hi := (Var.element m base index).node_tagged
    (.of_members (.shown hb (.shown hi .nil)))
  type d := .tagged d.presents_toJson
  function head _ loc _ hb := .tagged (.of_members (.shown head.name.presents_toJson
    (.shown (items_map fun f _ => f.presents_toJson) (.shown (nullable_shows head.result "result")
      (.shown hb (.shown loc.presents_toJson .nil))))))
  varDec name typeName _ loc _ hi := .tagged (.of_members (.shown name.presents_toJson
    (.shown (nullable_shows typeName "type_name") (.shown hi (.shown loc.presents_toJson .nil)))))

/-- **What is written for an expression is a way to write it.** -/
theorem Exp.presents_toJson (e : Exp) : e.Presents e.toJson := presentsCases.exp e

theorem Program.presents_toJson (p : Program) : p.Presents p.toJson :=
  .of_members (.shown p.body.presents_toJson .nil)

/-! ### Spelling -/

theorem Location.exact_toJson (l : Location) : l.toJson.Exact := by
  simp [Location.toJson, Json.nat]

theorem Ident.exact_toJson (i : Ident) : i.toJson.Exact := by
  simp [Ident.toJson, Location.exact_toJson]

theorem TypedName.exact_toJson (f : TypedName) : f.toJson.Exact := by
  simp [TypedName.toJson, Ident.exact_toJson]

theorem TypeBody.exact_toJson (b : TypeBody) : b.toJson.Exact := by
  cases b <;> simp [TypeBody.toJson, Ident.exact_toJson, TypedName.exact_toJson]

theorem TypeDec.exact_toJson (d : TypeDec) : d.toJson.Exact := by
  simp [TypeDec.toJson, Ident.exact_toJson, TypeBody.exact_toJson, Location.exact_toJson]

theorem exact_ofOption (i : Option Ident) : (Json.ofOption Ident.toJson i).Exact := by
  cases i <;> simp [Json.ofOption, Ident.exact_toJson]

theorem Mark.exact_node {m : Mark} {kind : Json} (h : kind.Exact) : (m.node kind).Exact := by
  simp [Mark.node, h, Location.exact_toJson]

theorem exact_initsToJson {inits : List (Ident × Exp)} (h : ∀ i ∈ inits, i.2.toJson.Exact) :
    ∀ v ∈ initsToJson inits, v.Exact := by
  intro v hv
  rw [initsToJson_eq] at hv
  obtain ⟨i, hi, rfl⟩ := List.mem_map.mp hv
  simp [initToJson, Ident.exact_toJson, h i hi]

theorem exactCases : Tree.Cases (fun e => e.toJson.Exact) (fun v => v.toJson.Exact) (fun d => d.toJson.Exact) where
  var _ _ hv := Mark.exact_node (by simpa using hv)
  nil _ := Mark.exact_node (.str _)
  int _ _ := Mark.exact_node (by simp)
  string _ _ := Mark.exact_node (by simp)
  call _ _ _ _ ha := Mark.exact_node (by simpa [expsToJson_eq, Ident.exact_toJson] using ha)
  binary _ _ _ _ hl hr := Mark.exact_node (by simpa using ⟨hl, hr⟩)
  record _ _ _ hi := Mark.exact_node (by simpa [Ident.exact_toJson] using exact_initsToJson hi)
  seq _ _ hi := Mark.exact_node (by simpa [expsToJson_eq] using hi)
  assign _ _ _ hv he := Mark.exact_node (by simpa using ⟨hv, he⟩)
  condNone _ _ _ ht ha := Mark.exact_node (by simpa using ⟨ht, ha⟩)
  condSome _ _ _ _ ht ha hb := Mark.exact_node (by simpa using ⟨ht, ha, hb⟩)
  whileLoop _ _ _ ht hb := Mark.exact_node (by simpa using ⟨ht, hb⟩)
  doWhile _ _ _ hb ht := Mark.exact_node (by simpa using ⟨hb, ht⟩)
  forLoop _ _ _ _ _ _ hl hh hb := Mark.exact_node (by simpa [Ident.exact_toJson] using ⟨hl, hh, hb⟩)
  breakLoop _ := Mark.exact_node (.str _)
  letIn _ _ _ hd hb := Mark.exact_node (by simpa [decsToJson_eq] using ⟨hd, hb⟩)
  array _ _ _ _ hs hi := Mark.exact_node (by simpa [Ident.exact_toJson] using ⟨hs, hi⟩)
  simple _ _ _ := Mark.exact_node (by simp)
  field _ _ _ _ hb := Mark.exact_node (by simpa [Ident.exact_toJson] using hb)
  element _ _ _ hb hi := Mark.exact_node (by simpa using ⟨hb, hi⟩)
  type d := by simpa [Dec.toJson] using d.exact_toJson
  function _ _ _ _ hb := by
    simpa [Dec.toJson, Ident.exact_toJson, TypedName.exact_toJson, exact_ofOption, Location.exact_toJson] using hb
  varDec _ _ _ _ _ hi := by
    simpa [Dec.toJson, Ident.exact_toJson, exact_ofOption, Location.exact_toJson] using hi

/-- What is written for a tree has no number that keeps its spelling. -/
theorem Exp.exact_toJson (e : Exp) : e.toJson.Exact := exactCases.exp e

theorem Program.exact_toJson (p : Program) : p.toJson.Exact := by
  simpa [Program.toJson] using p.body.exact_toJson

/-! ### Cells -/

theorem expsToJson_blankAll {es : List Exp} (h : ∀ e ∈ es, e.blank.toJson = e.toJson) :
    expsToJson (blankAll es) = expsToJson es := by
  induction es with
  | nil => rfl
  | cons e es ih =>
    obtain ⟨he, hes⟩ := List.forall_mem_cons.mp h
    rw [blankAll, expsToJson, he, ih hes, expsToJson]

theorem initsToJson_blankInits {inits : List (Ident × Exp)} (h : ∀ i ∈ inits, i.2.blank.toJson = i.2.toJson) :
    initsToJson (blankInits inits) = initsToJson inits := by
  induction inits with
  | nil => rfl
  | cons i inits ih =>
    obtain ⟨hi, hinits⟩ := List.forall_mem_cons.mp h
    rw [blankInits, initsToJson, hi, ih hinits, initsToJson]

theorem decsToJson_blankDecs {ds : List Dec} (h : ∀ d ∈ ds, d.blank.toJson = d.toJson) :
    decsToJson (blankDecs ds) = decsToJson ds := by
  induction ds with
  | nil => rfl
  | cons d ds ih =>
    obtain ⟨hd, hds⟩ := List.forall_mem_cons.mp h
    rw [blankDecs, decsToJson, hd, ih hds, decsToJson]

theorem Mark.node_blank (m : Mark) (kind : Json) : m.blank.node kind = m.node kind := rfl

theorem blankCases : Tree.Cases (fun e => e.blank.toJson = e.toJson) (fun v => v.blank.toJson = v.toJson)
    (fun d => d.blank.toJson = d.toJson) where
  var _ _ hv := by simp [Exp.toJson, Mark.node_blank, hv]
  nil _ := rfl
  int _ _ := rfl
  string _ _ := rfl
  call _ _ _ _ ha := by simp [Exp.toJson, Mark.node_blank, expsToJson_blankAll ha]
  binary _ _ _ _ hl hr := by simp [Exp.toJson, Mark.node_blank, hl, hr]
  record _ _ _ hi := by simp [Exp.toJson, Mark.node_blank, initsToJson_blankInits hi]
  seq _ _ hi := by simp [Exp.toJson, Mark.node_blank, expsToJson_blankAll hi]
  assign _ _ _ hv he := by simp [Exp.toJson, Mark.node_blank, hv, he]
  condNone _ _ _ ht ha := by simp [Exp.toJson, Mark.node_blank, ht, ha]
  condSome _ _ _ _ ht ha hb := by simp [Exp.toJson, Mark.node_blank, ht, ha, hb]
  whileLoop _ _ _ ht hb := by simp [Exp.toJson, Mark.node_blank, ht, hb]
  doWhile _ _ _ hb ht := by simp [Exp.toJson, Mark.node_blank, hb, ht]
  forLoop _ _ _ _ _ _ hl hh hb := by simp [Exp.toJson, Mark.node_blank, hl, hh, hb]
  breakLoop _ := rfl
  letIn _ _ _ hd hb := by simp [Exp.toJson, Mark.node_blank, decsToJson_blankDecs hd, hb]
  array _ _ _ _ hs hi := by simp [Exp.toJson, Mark.node_blank, hs, hi]
  simple _ _ _ := rfl
  field _ _ _ _ hb := by simp [Var.toJson, Mark.node_blank, hb]
  element _ _ _ hb hi := by simp [Var.toJson, Mark.node_blank, hb, hi]
  type _ := rfl
  function _ _ _ _ hb := by simp [Dec.toJson, hb]
  varDec _ _ _ _ _ hi := by simp [Dec.toJson, hi]

/-- **What is written for an expression does not depend on its cells.** -/
theorem Exp.toJson_blank (e : Exp) : e.blank.toJson = e.toJson := blankCases.exp e

end TigerCheck
