import TigerCheck.Checker.Walk
import TigerCheck.Proofs.Yields

/-!
# The steps of the check of a node

A check that ended went through the check of each part and then through the rule of the node. For each form
of node this is told once, as an inversion of the check: which answers and states lie between the steps, and
which node comes out. What is shown of the walk afterwards goes by these steps.

* `exists_of_run_checkEach`, `exists_of_run_checkInits`, `exists_of_run_declareParams`: an item of a list, and
  those behind it.
* `eq_of_run_nil`, …, `exists_of_run_breakLoop`: expressions without parts.
* `exists_of_run_binary`, …: expressions with parts.
* `exists_of_run_simple`, `exists_of_run_field`, `exists_of_run_element`: variables.

Loops with a counter and let blocks change the scopes between their parts; how is told where the states of a
walk are known.
-/

namespace TigerCheck

open Check

variable {ctx : Context} {c c' : Checker} {m : Mark} {e' : Exp}

/-! ## Lists -/

/-- The steps of checking an expression of a list, and those behind it. -/
theorem exists_of_run_checkEach {params : List Ty} {e : Exp} {es : List Exp} {r : List Exp × Bool}
    (h : (checkEach ctx params (e :: es)).run c = .ok (r, c')) :
    ∃ e' c₁ ok c₂ r', (checkExp ctx e).run c = .ok (e', c₁) ∧
      (Rule.arg params.head? e'.mark).run c₁ = .ok (ok, c₂) ∧
      (checkEach ctx params.tail es).run c₂ = .ok (r', c') ∧ r = (e' :: r'.1, ok && r'.2) := by
  rw [checkEach] at h
  obtain ⟨e', c₁, h₁, h⟩ := exists_of_run_bind h
  obtain ⟨ok, c₂, h₂, h⟩ := exists_of_run_bind h
  obtain ⟨r', c₃, h₃, h⟩ := exists_of_run_bind h
  cases h
  exact ⟨e', c₁, ok, c₂, r', h₁, h₂, h₃, rfl⟩

/-- The steps of checking an initializer of a record literal, and those behind it. -/
theorem exists_of_run_checkInits {loc : Location} {typeName : String} {fields : Option (List Field)}
    {name : Ident} {e : Exp} {inits : List (Ident × Exp)} {r : List (Ident × Exp) × Bool}
    (h : (checkInits ctx loc typeName fields ((name, e) :: inits)).run c = .ok (r, c')) :
    ∃ left c₁ e' c₂ ok c₃ r', (Rule.place loc typeName name fields).run c = .ok (left, c₁) ∧
      (checkExp ctx e).run c₁ = .ok (e', c₂) ∧
      (Rule.init (left.bind (·.head?)) e'.mark).run c₂ = .ok (ok, c₃) ∧
      (checkInits ctx loc typeName (left.map (·.tail)) inits).run c₃ = .ok (r', c') ∧
      r = ((name, e') :: r'.1, ok && r'.2) := by
  rw [checkInits] at h
  obtain ⟨left, c₁, h₁, h⟩ := exists_of_run_bind h
  obtain ⟨e', c₂, h₂, h⟩ := exists_of_run_bind h
  obtain ⟨ok, c₃, h₃, h⟩ := exists_of_run_bind h
  obtain ⟨r', c₄, h₄, h⟩ := exists_of_run_bind h
  cases h
  exact ⟨left, c₁, e', c₂, ok, c₃, r', h₁, h₂, h₃, h₄, rfl⟩

/-- The steps of declaring a parameter, and those behind it. -/
theorem exists_of_run_declareParams {frame : FrameId} {p : TypedName} {ps : List TypedName}
    {r : List VarId × Option (List Ty)} (h : (declareParams frame (p :: ps)).run c = .ok (r, c')) :
    ∃ ty c₁ v frames r', (typeOf p.typeName).run c = .ok (ty, c₁) ∧
      c₁.frames.alloc frame p.name.name ty .param = .ok (v, frames) ∧
      (declareParams frame ps).run { c₁ with frames } = .ok (r', c') ∧ r.1 = v :: r'.1 := by
  rw [declareParams] at h
  obtain ⟨ty, c₁, h₁, h⟩ := exists_of_run_bind h
  obtain ⟨v, c₂, h₂, h⟩ := exists_of_run_bind h
  obtain ⟨r', c₃, h₃, h⟩ := exists_of_run_bind h
  cases h
  obtain ⟨frames, halloc, rfl⟩ := exists_of_run_alloc h₂
  exact ⟨ty, c₁, v, frames, r', h₁, halloc, h₃, rfl⟩

/-! ## Expressions without parts -/

theorem eq_of_run_nil (h : (checkExp ctx (.nil m)).run c = .ok (e', c')) :
    c' = c ∧ e' = .nil (m.typed (some .nil)) := by
  rw [checkExp] at h
  cases h
  exact ⟨rfl, rfl⟩

theorem eq_of_run_int {n : Int64} (h : (checkExp ctx (.int m n)).run c = .ok (e', c')) :
    c' = c ∧ e' = .int (m.typed (some .int)) n := by
  rw [checkExp] at h
  cases h
  exact ⟨rfl, rfl⟩

theorem eq_of_run_string {s : String} (h : (checkExp ctx (.string m s)).run c = .ok (e', c')) :
    c' = c ∧ e' = .string (m.typed (some .string)) s := by
  rw [checkExp] at h
  cases h
  exact ⟨rfl, rfl⟩

/-- A jump out of a loop has no value; outside every loop it is reported. -/
theorem exists_of_run_breakLoop (h : (checkExp ctx (.breakLoop m)).run c = .ok (e', c')) :
    (ctx.inLoop = true ∧ c' = c ∧ e' = .breakLoop (m.typed (some .void))) ∨
      (ctx.inLoop = false ∧ c' = c.reported .breakOutsideLoop m.loc ∧ e' = .breakLoop (m.typed none)) := by
  rw [checkExp] at h
  cases hloop : ctx.inLoop with
  | true =>
    rw [hloop, if_pos rfl] at h
    cases h
    exact .inl ⟨rfl, rfl, rfl⟩
  | false =>
    rw [hloop, if_neg Bool.false_ne_true] at h
    cases h
    exact .inr ⟨rfl, rfl, rfl⟩

/-! ## Expressions with parts -/

theorem exists_of_run_var {v : Var} (h : (checkExp ctx (.var m v)).run c = .ok (e', c')) :
    ∃ v', (checkVar ctx v).run c = .ok (v', c') ∧ e' = .var (m.typed v'.ty) v' := by
  rw [checkExp] at h
  obtain ⟨v', c₁, h₁, h⟩ := exists_of_run_bind h
  cases h
  exact ⟨v', h₁, rfl⟩

theorem exists_of_run_call {callee : Ident} {args : List Exp} {function : Option FunctionId}
    (h : (checkExp ctx (.call m callee args function)).run c = .ok (e', c')) :
    ∃ target c₁ r c₂ ty, (Rule.target? callee.name).run c = .ok (target, c₁) ∧
      (checkEach ctx (Rule.Target.expects target args.length) args).run c₁ = .ok (r, c₂) ∧
      (Rule.call m.loc callee target r.1.length r.2).run c₂ = .ok (ty, c') ∧
      e' = .call (m.typed ty) callee r.1 (target.map (·.id) <|> function) := by
  rw [checkExp] at h
  obtain ⟨target, c₁, h₁, h⟩ := exists_of_run_bind h
  obtain ⟨r, c₂, h₂, h⟩ := exists_of_run_bind h
  obtain ⟨ty, c₃, h₃, h⟩ := exists_of_run_bind h
  cases h
  exact ⟨target, c₁, r, c₂, ty, h₁, h₂, h₃, rfl⟩

theorem exists_of_run_binary {op : BinOp} {left right : Exp}
    (h : (checkExp ctx (.binary m op left right)).run c = .ok (e', c')) :
    ∃ left' c₁ right' c₂ ty, (checkExp ctx left).run c = .ok (left', c₁) ∧
      (checkExp ctx right).run c₁ = .ok (right', c₂) ∧
      (Rule.binary op m.loc left'.ty right'.ty).run c₂ = .ok (ty, c') ∧
      e' = .binary (m.typed ty) op left' right' := by
  rw [checkExp] at h
  obtain ⟨left', c₁, h₁, h⟩ := exists_of_run_bind h
  obtain ⟨right', c₂, h₂, h⟩ := exists_of_run_bind h
  obtain ⟨ty, c₃, h₃, h⟩ := exists_of_run_bind h
  cases h
  exact ⟨left', c₁, right', c₂, ty, h₁, h₂, h₃, rfl⟩

theorem exists_of_run_record {typeName : Ident} {inits : List (Ident × Exp)}
    (h : (checkExp ctx (.record m typeName inits)).run c = .ok (e', c')) :
    ∃ ty c₁ fields c₂ r, (typeOf typeName).run c = .ok (ty, c₁) ∧
      (Rule.recordFields m.loc typeName inits.length ty).run c₁ = .ok (fields, c₂) ∧
      (checkInits ctx m.loc typeName.name fields inits).run c₂ = .ok (r, c') ∧
      e' = .record (m.typed (if r.2 then ty else none)) typeName r.1 := by
  rw [checkExp] at h
  obtain ⟨ty, c₁, h₁, h⟩ := exists_of_run_bind h
  obtain ⟨fields, c₂, h₂, h⟩ := exists_of_run_bind h
  obtain ⟨r, c₃, h₃, h⟩ := exists_of_run_bind h
  cases h
  exact ⟨ty, c₁, fields, c₂, r, h₁, h₂, h₃, rfl⟩

theorem exists_of_run_seq {items : List Exp} (h : (checkExp ctx (.seq m items)).run c = .ok (e', c')) :
    ∃ r, (checkEach ctx [] items).run c = .ok (r, c') ∧
      e' = .seq (m.typed (if r.2 then lastTy r.1 else none)) r.1 := by
  rw [checkExp] at h
  obtain ⟨r, c₁, h₁, h⟩ := exists_of_run_bind h
  cases h
  exact ⟨r, h₁, rfl⟩

theorem exists_of_run_assign {target : Var} {value : Exp}
    (h : (checkExp ctx (.assign m target value)).run c = .ok (e', c')) :
    ∃ target' c₁ value' c₂ ty, (checkVar ctx target).run c = .ok (target', c₁) ∧
      (checkExp ctx value).run c₁ = .ok (value', c₂) ∧
      (Rule.assign target'.mark value'.mark).run c₂ = .ok (ty, c') ∧
      e' = .assign (m.typed ty) target' value' := by
  rw [checkExp] at h
  obtain ⟨target', c₁, h₁, h⟩ := exists_of_run_bind h
  obtain ⟨value', c₂, h₂, h⟩ := exists_of_run_bind h
  obtain ⟨ty, c₃, h₃, h⟩ := exists_of_run_bind h
  cases h
  exact ⟨target', c₁, value', c₂, ty, h₁, h₂, h₃, rfl⟩

theorem exists_of_run_condNone {test thenPart : Exp}
    (h : (checkExp ctx (.cond m test thenPart none)).run c = .ok (e', c')) :
    ∃ test' c₁ then' c₂ ty, (checkExp ctx test).run c = .ok (test', c₁) ∧
      (checkExp ctx thenPart).run c₁ = .ok (then', c₂) ∧
      (Rule.cond m.loc test'.mark then'.mark none).run c₂ = .ok (ty, c') ∧
      e' = .cond (m.typed ty) test' then' none := by
  rw [checkExp] at h
  obtain ⟨test', c₁, h₁, h⟩ := exists_of_run_bind h
  obtain ⟨then', c₂, h₂, h⟩ := exists_of_run_bind h
  obtain ⟨ty, c₃, h₃, h⟩ := exists_of_run_bind h
  cases h
  exact ⟨test', c₁, then', c₂, ty, h₁, h₂, h₃, rfl⟩

theorem exists_of_run_condSome {test thenPart elsePart : Exp}
    (h : (checkExp ctx (.cond m test thenPart (some elsePart))).run c = .ok (e', c')) :
    ∃ test' c₁ then' c₂ else' c₃ ty, (checkExp ctx test).run c = .ok (test', c₁) ∧
      (checkExp ctx thenPart).run c₁ = .ok (then', c₂) ∧
      (checkExp ctx elsePart).run c₂ = .ok (else', c₃) ∧
      (Rule.cond m.loc test'.mark then'.mark (some else'.mark)).run c₃ = .ok (ty, c') ∧
      e' = .cond (m.typed ty) test' then' (some else') := by
  rw [checkExp] at h
  obtain ⟨test', c₁, h₁, h⟩ := exists_of_run_bind h
  obtain ⟨then', c₂, h₂, h⟩ := exists_of_run_bind h
  obtain ⟨else', c₃, h₃, h⟩ := exists_of_run_bind h
  obtain ⟨ty, c₄, h₄, h⟩ := exists_of_run_bind h
  cases h
  exact ⟨test', c₁, then', c₂, else', c₃, ty, h₁, h₂, h₃, h₄, rfl⟩

/-- The body of a loop is checked as one loop further inside. -/
theorem exists_of_run_whileLoop {test body : Exp}
    (h : (checkExp ctx (.whileLoop m test body)).run c = .ok (e', c')) :
    ∃ test' c₁ body' c₂ ty, (checkExp ctx test).run c = .ok (test', c₁) ∧
      (checkExp ctx.enterLoop body).run c₁ = .ok (body', c₂) ∧
      (Rule.loop test'.mark body'.mark).run c₂ = .ok (ty, c') ∧
      e' = .whileLoop (m.typed ty) test' body' := by
  rw [checkExp] at h
  obtain ⟨test', c₁, h₁, h⟩ := exists_of_run_bind h
  obtain ⟨body', c₂, h₂, h⟩ := exists_of_run_bind h
  obtain ⟨ty, c₃, h₃, h⟩ := exists_of_run_bind h
  cases h
  exact ⟨test', c₁, body', c₂, ty, h₁, h₂, h₃, rfl⟩

theorem exists_of_run_doWhile {body test : Exp}
    (h : (checkExp ctx (.doWhile m body test)).run c = .ok (e', c')) :
    ∃ body' c₁ test' c₂ ty, (checkExp ctx.enterLoop body).run c = .ok (body', c₁) ∧
      (checkExp ctx test).run c₁ = .ok (test', c₂) ∧
      (Rule.loop test'.mark body'.mark).run c₂ = .ok (ty, c') ∧
      e' = .doWhile (m.typed ty) body' test' := by
  rw [checkExp] at h
  obtain ⟨body', c₁, h₁, h⟩ := exists_of_run_bind h
  obtain ⟨test', c₂, h₂, h⟩ := exists_of_run_bind h
  obtain ⟨ty, c₃, h₃, h⟩ := exists_of_run_bind h
  cases h
  exact ⟨body', c₁, test', c₂, ty, h₁, h₂, h₃, rfl⟩

theorem exists_of_run_array {typeName : Ident} {size init : Exp}
    (h : (checkExp ctx (.array m typeName size init)).run c = .ok (e', c')) :
    ∃ ty c₁ size' c₂ init' c₃ ty', (typeOf typeName).run c = .ok (ty, c₁) ∧
      (checkExp ctx size).run c₁ = .ok (size', c₂) ∧ (checkExp ctx init).run c₂ = .ok (init', c₃) ∧
      (Rule.array typeName ty size'.mark init'.mark).run c₃ = .ok (ty', c') ∧
      e' = .array (m.typed ty') typeName size' init' := by
  rw [checkExp] at h
  obtain ⟨ty, c₁, h₁, h⟩ := exists_of_run_bind h
  obtain ⟨size', c₂, h₂, h⟩ := exists_of_run_bind h
  obtain ⟨init', c₃, h₃, h⟩ := exists_of_run_bind h
  obtain ⟨ty', c₄, h₄, h⟩ := exists_of_run_bind h
  cases h
  exact ⟨ty, c₁, size', c₂, init', c₃, ty', h₁, h₂, h₃, h₄, rfl⟩

/-! ## Variables -/

theorem exists_of_run_simple {name : String} {binding : Option VarId} {v' : Var}
    (h : (checkVar ctx (.simple m name binding)).run c = .ok (v', c')) :
    ∃ r, (Rule.simple m.loc name).run c = .ok (r, c') ∧
      v' = .simple (m.typed r.2) name (r.1 <|> binding) := by
  rw [checkVar] at h
  obtain ⟨r, c₁, h₁, h⟩ := exists_of_run_bind h
  cases h
  exact ⟨r, h₁, rfl⟩

theorem exists_of_run_field {base : Var} {name : Ident} {position : Option Nat} {v' : Var}
    (h : (checkVar ctx (.field m base name position)).run c = .ok (v', c')) :
    ∃ base' c₁ r, (checkVar ctx base).run c = .ok (base', c₁) ∧
      (Rule.field m.loc base'.mark name).run c₁ = .ok (r, c') ∧
      v' = .field (m.typed r.2) base' name (r.1 <|> position) := by
  rw [checkVar] at h
  obtain ⟨base', c₁, h₁, h⟩ := exists_of_run_bind h
  obtain ⟨r, c₂, h₂, h⟩ := exists_of_run_bind h
  cases h
  exact ⟨base', c₁, r, h₁, h₂, rfl⟩

theorem exists_of_run_element {base : Var} {index : Exp} {v' : Var}
    (h : (checkVar ctx (.element m base index)).run c = .ok (v', c')) :
    ∃ base' c₁ index' c₂ ty, (checkVar ctx base).run c = .ok (base', c₁) ∧
      (checkExp ctx index).run c₁ = .ok (index', c₂) ∧
      (Rule.element base'.mark index'.mark).run c₂ = .ok (ty, c') ∧
      v' = .element (m.typed ty) base' index' := by
  rw [checkVar] at h
  obtain ⟨base', c₁, h₁, h⟩ := exists_of_run_bind h
  obtain ⟨index', c₂, h₂, h⟩ := exists_of_run_bind h
  obtain ⟨ty, c₃, h₃, h⟩ := exists_of_run_bind h
  cases h
  exact ⟨base', c₁, index', c₂, ty, h₁, h₂, h₃, rfl⟩

end TigerCheck
