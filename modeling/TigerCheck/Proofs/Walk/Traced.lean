import TigerCheck.Proofs.Walk.Kept

/-!
# The course of a check

A check that ended can be told node by node: which parts were checked between which states, and what the
rule of the node found behind them. What holds of every node of a checked program is shown by induction on
this tale, without a look at the actions of the checker.

* `Part`: a part of a tree, before and after its check.
* `Traced`: how the check of a part went from one state to another. There is one rule for each form of
  node, and declarations are told one by one.
* `Traced.grown`: nothing is taken back on the way.
* **`traced_exp`**: every check that ended is told so.
-/

namespace TigerCheck

open Check

/-- A part of a tree, before and after its check. Of declarations the run before them is told, too. -/
inductive Part where
  | exp (e e' : Exp)
  | var (v v' : Var)
  | items (es es' : List Exp)
  | inits (is is' : List (Ident × Exp))
  | decs (o : OpenRun) (ds ds' : List Dec)

/-- The check of a part goes from one state to another. -/
inductive Traced : Context → Part → Checker → Checker → Prop where
  | nil {ctx : Context} {c : Checker} {m : Mark} :
      Traced ctx (.exp (.nil m) (.nil (m.typed (some .nil)))) c c
  | int {ctx : Context} {c : Checker} {m : Mark} {n : Int64} :
      Traced ctx (.exp (.int m n) (.int (m.typed (some .int)) n)) c c
  | string {ctx : Context} {c : Checker} {m : Mark} {s : String} :
      Traced ctx (.exp (.string m s) (.string (m.typed (some .string)) s)) c c
  | jump {ctx : Context} {c : Checker} {m : Mark} : ctx.inLoop = true →
      Traced ctx (.exp (.breakLoop m) (.breakLoop (m.typed (some .void)))) c c
  | stray {ctx : Context} {c : Checker} {m : Mark} : ctx.inLoop = false →
      Traced ctx (.exp (.breakLoop m) (.breakLoop (m.typed none))) c (c.reported .breakOutsideLoop m.loc)
  | var {ctx : Context} {c c' : Checker} {m : Mark} {v v' : Var} : Traced ctx (.var v v') c c' →
      Traced ctx (.exp (.var m v) (.var (m.typed v'.ty) v')) c c'
  | call {ctx : Context} {c c₁ c' : Checker} {m : Mark} {callee : Ident} {args args' : List Exp}
      {function : Option FunctionId} {target : Option Rule.Target} {fit : Bool} {ty : Option Ty} :
      (Rule.target? callee.name).run c = .ok (target, c) → Traced ctx (.items args args') c c₁ →
      (Rule.call m.loc callee target args'.length fit).run c₁ = .ok (ty, c') →
      Traced ctx (.exp (.call m callee args function)
        (.call (m.typed ty) callee args' (target.map (·.id) <|> function))) c c'
  | binary {ctx : Context} {c c₁ c₂ c' : Checker} {m : Mark} {op : BinOp} {left left' right right' : Exp}
      {ty : Option Ty} : Traced ctx (.exp left left') c c₁ → Traced ctx (.exp right right') c₁ c₂ →
      (Rule.binary op m.loc left'.ty right'.ty).run c₂ = .ok (ty, c') →
      Traced ctx (.exp (.binary m op left right) (.binary (m.typed ty) op left' right')) c c'
  | record {ctx : Context} {c c₁ c₂ c' : Checker} {m : Mark} {typeName : Ident}
      {inits inits' : List (Ident × Exp)} {ty : Option Ty} {fields : Option (List Field)} {fit : Bool} :
      (typeOf typeName).run c = .ok (ty, c₁) → c.Walked c₁ →
      (Rule.recordFields m.loc typeName inits.length ty).run c₁ = .ok (fields, c₂) →
      Traced ctx (.inits inits inits') c₂ c' →
      Traced ctx (.exp (.record m typeName inits)
        (.record (m.typed (if fit then ty else none)) typeName inits')) c c'
  | seq {ctx : Context} {c c' : Checker} {m : Mark} {items items' : List Exp} {fit : Bool} :
      Traced ctx (.items items items') c c' →
      Traced ctx (.exp (.seq m items) (.seq (m.typed (if fit then lastTy items' else none)) items')) c c'
  | assign {ctx : Context} {c c₁ c₂ c' : Checker} {m : Mark} {target target' : Var} {value value' : Exp}
      {ty : Option Ty} : Traced ctx (.var target target') c c₁ → Traced ctx (.exp value value') c₁ c₂ →
      (Rule.assign target'.mark value'.mark).run c₂ = .ok (ty, c') →
      Traced ctx (.exp (.assign m target value) (.assign (m.typed ty) target' value')) c c'
  | condNone {ctx : Context} {c c₁ c₂ c' : Checker} {m : Mark} {test test' thenPart thenPart' : Exp}
      {ty : Option Ty} : Traced ctx (.exp test test') c c₁ → Traced ctx (.exp thenPart thenPart') c₁ c₂ →
      (Rule.cond m.loc test'.mark thenPart'.mark none).run c₂ = .ok (ty, c') →
      Traced ctx (.exp (.cond m test thenPart none) (.cond (m.typed ty) test' thenPart' none)) c c'
  | condSome {ctx : Context} {c c₁ c₂ c₃ c' : Checker} {m : Mark}
      {test test' thenPart thenPart' elsePart elsePart' : Exp} {ty : Option Ty} :
      Traced ctx (.exp test test') c c₁ → Traced ctx (.exp thenPart thenPart') c₁ c₂ →
      Traced ctx (.exp elsePart elsePart') c₂ c₃ →
      (Rule.cond m.loc test'.mark thenPart'.mark (some elsePart'.mark)).run c₃ = .ok (ty, c') →
      Traced ctx (.exp (.cond m test thenPart (some elsePart))
        (.cond (m.typed ty) test' thenPart' (some elsePart'))) c c'
  | whileLoop {ctx : Context} {c c₁ c₂ c' : Checker} {m : Mark} {test test' body body' : Exp}
      {ty : Option Ty} : Traced ctx (.exp test test') c c₁ →
      Traced ctx.enterLoop (.exp body body') c₁ c₂ →
      (Rule.loop test'.mark body'.mark).run c₂ = .ok (ty, c') →
      Traced ctx (.exp (.whileLoop m test body) (.whileLoop (m.typed ty) test' body')) c c'
  | doWhile {ctx : Context} {c c₁ c₂ c' : Checker} {m : Mark} {test test' body body' : Exp}
      {ty : Option Ty} : Traced ctx.enterLoop (.exp body body') c c₁ →
      Traced ctx (.exp test test') c₁ c₂ → (Rule.loop test'.mark body'.mark).run c₂ = .ok (ty, c') →
      Traced ctx (.exp (.doWhile m body test) (.doWhile (m.typed ty) body' test')) c c'
  | forLoop {ctx : Context} {c c₁ c₂ c₃ c₄ : Checker} {m : Mark} {counter : Ident}
      {low low' high high' body body' : Exp} {slot : Option VarId} {v : VarId} {fit : Bool}
      {frames : FrameTable} : Traced ctx (.exp low low') c c₁ → Traced ctx (.exp high high') c₁ c₂ →
      (Rule.bounds m.loc low'.ty high'.ty).run c₂ = .ok (fit, c₃) →
      c₃.frames.alloc ctx.frame counter.name (some .int) .loopCounter = .ok (v, frames) →
      c₃.Extends (c₃.counting counter.name v frames) →
      Traced ctx.enterLoop (.exp body body') (c₃.counting counter.name v frames) c₄ →
      Traced ctx (.exp (.forLoop m counter low high body slot)
        (.forLoop (m.typed (if fit && body'.ty.isSome then some .void else none)) counter low' high' body'
          (some v))) c { c₄ with values := c₃.values }
  | letIn {ctx : Context} {c c₁ c₂ : Checker} {m : Mark} {decs decs' : List Dec} {body body' : Exp}
      {fit : Bool} : Traced ctx (.decs {} decs decs') c.entered c₁ → Traced ctx (.exp body body') c₁ c₂ →
      Traced ctx (.exp (.letIn m decs body)
        (.letIn (m.typed (if fit then body'.ty else none)) decs' body')) c (c₂.leftTo c)
  | array {ctx : Context} {c c₁ c₂ c₃ c' : Checker} {m : Mark} {typeName : Ident}
      {size size' init init' : Exp} {t ty : Option Ty} : (typeOf typeName).run c = .ok (t, c₁) →
      c.Walked c₁ → Traced ctx (.exp size size') c₁ c₂ → Traced ctx (.exp init init') c₂ c₃ →
      (Rule.array typeName t size'.mark init'.mark).run c₃ = .ok (ty, c') →
      Traced ctx (.exp (.array m typeName size init) (.array (m.typed ty) typeName size' init')) c c'
  | simple {ctx : Context} {c c' : Checker} {m : Mark} {name : String} {binding : Option VarId}
      {r : Option VarId × Option Ty} : (Rule.simple m.loc name).run c = .ok (r, c') →
      Traced ctx (.var (.simple m name binding) (.simple (m.typed r.2) name (r.1 <|> binding))) c c'
  | field {ctx : Context} {c c₁ c' : Checker} {m : Mark} {base base' : Var} {name : Ident}
      {position : Option ℕ} {r : Option ℕ × Option Ty} : Traced ctx (.var base base') c c₁ →
      (Rule.field m.loc base'.mark name).run c₁ = .ok (r, c') →
      Traced ctx (.var (.field m base name position)
        (.field (m.typed r.2) base' name (r.1 <|> position))) c c'
  | element {ctx : Context} {c c₁ c₂ c' : Checker} {m : Mark} {base base' : Var} {index index' : Exp}
      {ty : Option Ty} : Traced ctx (.var base base') c c₁ → Traced ctx (.exp index index') c₁ c₂ →
      (Rule.element base'.mark index'.mark).run c₂ = .ok (ty, c') →
      Traced ctx (.var (.element m base index) (.element (m.typed ty) base' index')) c c'
  | noItem {ctx : Context} {c : Checker} : Traced ctx (.items [] []) c c
  | item {ctx : Context} {c c₁ c₂ c' : Checker} {e e' : Exp} {es es' : List Exp} {param : Option Ty}
      {ok : Bool} : Traced ctx (.exp e e') c c₁ → (Rule.arg param e'.mark).run c₁ = .ok (ok, c₂) →
      Traced ctx (.items es es') c₂ c' → Traced ctx (.items (e :: es) (e' :: es')) c c'
  | noInit {ctx : Context} {c : Checker} : Traced ctx (.inits [] []) c c
  | init {ctx : Context} {c c₁ c₂ c₃ c' : Checker} {loc : Location} {typeName : String} {name : Ident}
      {e e' : Exp} {is is' : List (Ident × Exp)} {fields fields' : Option (List Field)}
      {field : Option Field} {ok : Bool} :
      (Rule.place loc typeName name fields).run c = .ok (fields', c₁) → Traced ctx (.exp e e') c₁ c₂ →
      (Rule.init field e'.mark).run c₂ = .ok (ok, c₃) → Traced ctx (.inits is is') c₃ c' →
      Traced ctx (.inits ((name, e) :: is) ((name, e') :: is')) c c'
  | noDec {ctx : Context} {c : Checker} {o : OpenRun} : Traced ctx (.decs o [] []) c c
  | types {ctx : Context} {c c₁ c' : Checker} {o : OpenRun} {ts : List TypeDec} {ds ds' : List Dec}
      {r : List Dec × Bool} : (checkRun ctx (ts.map .type)).run c = .ok (r, c₁) → c.Extends c₁ →
      Traced ctx (.decs (o.after (ts.map .type)) ds ds') c₁ c' →
      Traced ctx (.decs o (ts.map .type ++ ds) (ts.map .type ++ ds')) c c'
  | opened {ctx : Context} {c c₁ c' : Checker} {o : OpenRun} {d d' : Dec} {ds ds' run : List Dec}
      {plans : List Plan} : o.kind ≠ some d.kind → d'.kind = d.kind →
      (openRun ctx run).run c = .ok (plans, c₁) → c.Extends c₁ →
      Traced ctx (.decs ⟨some d.kind, []⟩ (d :: ds) (d' :: ds')) c₁ c' →
      Traced ctx (.decs o (d :: ds) (d' :: ds')) c c'
  | dropped {ctx : Context} {c c₁ c' : Checker} {k : Dec.Kind} {seen : List String} {d : Dec}
      {ds ds' : List Dec} : d.kind = k → d.name.name ∈ seen →
      c.Reports (· = .duplicateDefinition d.name.name) c₁ → Traced ctx (.decs ⟨some k, seen⟩ ds ds') c₁ c' →
      Traced ctx (.decs ⟨some k, seen⟩ (d :: ds) (d :: ds')) c c'
  | function {ctx : Context} {c c₁ c₂ c' : Checker} {seen : List String} {h : Header}
      {head : FunctionHead} {body body' : Exp} {loc : Location} {id : Option FunctionId} {ok : Bool}
      {frames : FrameTable} {ds ds' : List Dec} : head.name.name ∉ seen →
      Traced ⟨h.level, h.frame, 0⟩ (.exp body body') (c.inBody head h) c₁ →
      c₁.frames.finalize h.frame = .ok frames → c₁.Extends { c₁ with values := c.values, frames } →
      (Rule.body h.result body'.mark).run { c₁ with values := c.values, frames } = .ok (ok, c₂) →
      Traced ctx (.decs ⟨some .function, head.name.name :: seen⟩ ds ds') c₂ c' →
      Traced ctx (.decs ⟨some .function, seen⟩ (.function head body loc id :: ds)
        (.function head body' loc (some h.id) :: ds')) c c'
  | variable {ctx : Context} {c c₁ c₂ c' : Checker} {seen : List String} {name : Ident}
      {typeName : Option Ident} {init init' : Exp} {loc : Location} {slot : Option VarId} {v : VarId}
      {d : Option Ty × Bool} {frames : FrameTable} {ds ds' : List Dec} : name.name ∉ seen →
      Traced ctx (.exp init init') c c₁ →
      (Rule.declared typeName init'.mark init.isLiteral).run c₁ = .ok (d, c₂) →
      c₂.frames.Allocs ctx.frame d.1 v frames →
      c₁.Extends { c₂ with frames, values := c₂.values.bind name.name v } →
      Traced ctx (.decs ⟨some .var, name.name :: seen⟩ ds ds')
        { c₂ with frames, values := c₂.values.bind name.name v } c' →
      Traced ctx (.decs ⟨some .var, seen⟩ (.var name typeName init loc slot :: ds)
        (.var name typeName init' loc (some v) :: ds')) c c'

/-! ## Growth -/

/-- A rule takes nothing back. -/
theorem Check.Passive.extends {α : Type} {F : Fault → Prop} {ok : Prop} {m : Check α} {good : α → Prop}
    (h : Passive F ok m good) {c c' : Checker} {a : α} (hm : m.run c = .ok (a, c')) : c.Extends c' :=
  (h.changes c a c' hm).toSays.extends

/-- **Nothing is taken back on the way.** -/
theorem Traced.grown {ctx : Context} {part : Part} {c c' : Checker} (h : Traced ctx part c c') :
    c.Extends c' := by
  induction h with
  | nil | int | string | jump | noItem | noInit | noDec => exact .refl _
  | stray => exact (Checker.Says.report _ _ .quiet).extends
  | var _ ih | seq _ ih => exact ih
  | call _ _ hrule ih =>
    exact ih.trans ((passive_call (F := anyFault) (fun _ _ => trivial) _ fun _ => trivial).extends hrule)
  | binary _ _ hrule ihl ihr => exact (ihl.trans ihr).trans ((passive_binary _ _).extends hrule)
  | record _ hw hfields _ ih => exact (hw.grown.trans ((passive_recordFields _).extends hfields)).trans ih
  | assign _ _ hrule iht ihv => exact (iht.trans ihv).trans ((passive_assign _ _).extends hrule)
  | condNone _ _ hrule iht ihp => exact (iht.trans ihp).trans ((passive_cond _ _ _).extends hrule)
  | condSome _ _ _ hrule iht ihp ihe =>
    exact ((iht.trans ihp).trans ihe).trans ((passive_cond _ _ _).extends hrule)
  | whileLoop _ _ hrule iht ihb => exact (iht.trans ihb).trans ((passive_loop _ _).extends hrule)
  | doWhile _ _ hrule ihb iht => exact (ihb.trans iht).trans ((passive_loop _ _).extends hrule)
  | forLoop _ _ hbounds _ hcounter _ ihl ihh ihb =>
    have hg := (((ihl.trans ihh).trans ((passive_bounds _ _).extends hbounds)).trans hcounter).trans ihb
    exact ⟨hg.status, hg.shape, hg.frames, hg.diagnostics_le, hg.mainFrame_eq⟩
  | letIn _ _ ihd ihb =>
    have hg := ((Checker.extends_entered _).trans ihd).trans ihb
    exact ⟨hg.status, hg.shape, hg.frames, hg.diagnostics_le, hg.mainFrame_eq⟩
  | array _ hw _ _ hrule ihz ihi =>
    exact ((hw.grown.trans ihz).trans ihi).trans ((passive_array _ _ _).extends hrule)
  | simple hrule => exact (passive_simple (F := anyFault) trivial).extends hrule
  | field _ hrule ih => exact ih.trans ((passive_field _).extends hrule)
  | element _ _ hrule ihb ihi => exact (ihb.trans ihi).trans ((passive_element _ _).extends hrule)
  | item _ harg _ ih ihs => exact (ih.trans ((passive_arg _ _).extends harg)).trans ihs
  | init hplace _ hinit _ ih ihs =>
    exact ((((passive_place _).extends hplace).trans ih).trans ((passive_init _ _).extends hinit)).trans ihs
  | types _ hg _ ih => exact hg.trans ih
  | opened _ _ _ hg _ ih => exact hg.trans ih
  | dropped _ _ hr _ ih => exact hr.toSays.extends.trans ih
  | function _ _ _ hg hbody _ ih ihs =>
    have hg' := ((Checker.extends_inBody _ _ _).trans ih).trans hg
    exact (hg'.trans ((passive_body _ _).extends hbody)).trans ihs
  | «variable» _ _ _ _ hg _ ih ihs => exact (ih.trans hg).trans ihs

/-! ## Statements -/

/-- The check of an expression that ended can be told. -/
def ExpTraced (e : Exp) : Prop :=
  ∀ ⦃ctx : Context⦄ ⦃c c' : Checker⦄ ⦃e' : Exp⦄, c.Sound → ctx.Sits c →
    (checkExp ctx e).run c = .ok (e', c') → Traced ctx (.exp e e') c c'

/-- The check of a variable that ended can be told. -/
def VarTraced (v : Var) : Prop :=
  ∀ ⦃ctx : Context⦄ ⦃c c' : Checker⦄ ⦃v' : Var⦄, c.Sound → ctx.Sits c →
    (checkVar ctx v).run c = .ok (v', c') → Traced ctx (.var v v') c c'

variable {ctx : Context} {c c' : Checker} {m : Mark}

/-! ## Nodes without lists -/

theorem ExpTraced.breakLoop : ExpTraced (.breakLoop m) := by
  intro ctx c c' e' _ _ h
  rcases exists_of_run_breakLoop h with ⟨hloop, rfl, rfl⟩ | ⟨hloop, rfl, rfl⟩
  · exact .jump hloop
  · exact .stray hloop

theorem ExpTraced.var {v : Var} (hv : VarTraced v) : ExpTraced (.var m v) := by
  intro ctx c c' e' hc hs h
  obtain ⟨v', h₁, rfl⟩ := exists_of_run_var h
  exact .var (hv hc hs h₁)

theorem ExpTraced.binary {op : BinOp} {left right : Exp} (hl : ExpTraced left) (hr : ExpTraced right) :
    ExpTraced (.binary m op left right) := by
  intro ctx c c' e' hc hs h
  obtain ⟨left', c₁, right', c₂, ty, h₁, h₂, h₃, rfl⟩ := exists_of_run_binary h
  have hw := (walked_exp hc hs h₁).1
  exact .binary (hl hc hs h₁) (hr hw.sound (hs.walked hw) h₂) h₃

theorem ExpTraced.assign {target : Var} {value : Exp} (ht : VarTraced target) (hv : ExpTraced value) :
    ExpTraced (.assign m target value) := by
  intro ctx c c' e' hc hs h
  obtain ⟨target', c₁, value', c₂, ty, h₁, h₂, h₃, rfl⟩ := exists_of_run_assign h
  have hw := (walked_var hc hs h₁).1
  exact .assign (ht hc hs h₁) (hv hw.sound (hs.walked hw) h₂) h₃

theorem ExpTraced.condNone {test thenPart : Exp} (ht : ExpTraced test) (hp : ExpTraced thenPart) :
    ExpTraced (.cond m test thenPart none) := by
  intro ctx c c' e' hc hs h
  obtain ⟨test', c₁, then', c₂, ty, h₁, h₂, h₃, rfl⟩ := exists_of_run_condNone h
  have hw := (walked_exp hc hs h₁).1
  exact .condNone (ht hc hs h₁) (hp hw.sound (hs.walked hw) h₂) h₃

theorem ExpTraced.condSome {test thenPart elsePart : Exp} (ht : ExpTraced test) (hp : ExpTraced thenPart)
    (he : ExpTraced elsePart) : ExpTraced (.cond m test thenPart (some elsePart)) := by
  intro ctx c c' e' hc hs h
  obtain ⟨test', c₁, then', c₂, else', c₃, ty, h₁, h₂, h₃, h₄, rfl⟩ := exists_of_run_condSome h
  have hw := (walked_exp hc hs h₁).1
  have hw₂ := (walked_exp hw.sound (hs.walked hw) h₂).1
  exact .condSome (ht hc hs h₁) (hp hw.sound (hs.walked hw) h₂)
    (he hw₂.sound ((hs.walked hw).walked hw₂) h₃) h₄

theorem ExpTraced.whileLoop {test body : Exp} (ht : ExpTraced test) (hb : ExpTraced body) :
    ExpTraced (.whileLoop m test body) := by
  intro ctx c c' e' hc hs h
  obtain ⟨test', c₁, body', c₂, ty, h₁, h₂, h₃, rfl⟩ := exists_of_run_whileLoop h
  have hw := (walked_exp hc hs h₁).1
  exact .whileLoop (ht hc hs h₁) (hb hw.sound ((hs.walked hw).loops _) h₂) h₃

theorem ExpTraced.doWhile {body test : Exp} (hb : ExpTraced body) (ht : ExpTraced test) :
    ExpTraced (.doWhile m body test) := by
  intro ctx c c' e' hc hs h
  obtain ⟨body', c₁, test', c₂, ty, h₁, h₂, h₃, rfl⟩ := exists_of_run_doWhile h
  have hw := (walked_exp hc (hs.loops _) h₁).1
  exact .doWhile (hb hc (hs.loops _) h₁) (ht hw.sound (hs.walked hw) h₂) h₃

theorem ExpTraced.forLoop {counter : Ident} {low high body : Exp} {slot : Option VarId}
    (hl : ExpTraced low) (hh : ExpTraced high) (hb : ExpTraced body) :
    ExpTraced (.forLoop m counter low high body slot) := by
  intro ctx c c' e' hc hs h
  obtain ⟨low', c₁, high', c₂, fit, c₃, v, frames, body', c₄, h₁, h₂, h₃, halloc, hc₃, hs₃, hg₃, h₄, rfl, rfl⟩ :=
    exists_of_run_forLoop hc hs h
  have hw := (walked_exp hc hs h₁).1
  exact .forLoop (hl hc hs h₁) (hh hw.sound (hs.walked hw) h₂) h₃ halloc hg₃ (hb hc₃ hs₃ h₄)

theorem ExpTraced.array {typeName : Ident} {size init : Exp} (hz : ExpTraced size) (hi : ExpTraced init) :
    ExpTraced (.array m typeName size init) := by
  intro ctx c c' e' hc hs h
  obtain ⟨ty, c₁, size', c₂, init', c₃, ty', h₁, h₂, h₃, h₄, rfl⟩ := exists_of_run_array h
  have hw₁ := (walked_typeOf hc h₁).1
  have hs₁ := hs.walked hw₁
  have hw₂ := (walked_exp hw₁.sound hs₁ h₂).1
  exact .array h₁ hw₁ (hz hw₁.sound hs₁ h₂) (hi hw₂.sound (hs₁.walked hw₂) h₃) h₄

theorem VarTraced.simple {name : String} {binding : Option VarId} : VarTraced (.simple m name binding) := by
  intro ctx c c' v' _ _ h
  obtain ⟨r, h₁, rfl⟩ := exists_of_run_simple h
  exact .simple h₁

theorem VarTraced.field {base : Var} {name : Ident} {position : Option ℕ} (hb : VarTraced base) :
    VarTraced (.field m base name position) := by
  intro ctx c c' v' hc hs h
  obtain ⟨base', c₁, r, h₁, h₂, rfl⟩ := exists_of_run_field h
  exact .field (hb hc hs h₁) h₂

theorem VarTraced.element {base : Var} {index : Exp} (hb : VarTraced base) (hi : ExpTraced index) :
    VarTraced (.element m base index) := by
  intro ctx c c' v' hc hs h
  obtain ⟨base', c₁, index', c₂, ty, h₁, h₂, h₃, rfl⟩ := exists_of_run_element h
  have hw := (walked_var hc hs h₁).1
  exact .element (hb hc hs h₁) (hi hw.sound (hs.walked hw) h₂) h₃

/-! ## Lists of parts -/

theorem traced_checkEach {es : List Exp} (h : ∀ e ∈ es, ExpTraced e) : ∀ {params : List Ty} {c c' : Checker}
    {r : List Exp × Bool}, c.Sound → ctx.Sits c → (checkEach ctx params es).run c = .ok (r, c') →
      Traced ctx (.items es r.1) c c' := by
  induction es with
  | nil =>
    intro params c c' r _ _ hrun
    rw [checkEach] at hrun
    cases hrun
    exact .noItem
  | cons e es ih =>
    intro params c c' r hc hs hrun
    obtain ⟨he, hes⟩ := List.forall_mem_cons.mp h
    obtain ⟨e', c₁, ok, c₂, r', h₁, h₂, h₃, rfl⟩ := exists_of_run_checkEach hrun
    have hw₁ := (walked_exp hc hs h₁).1
    have hw₂ := ((passive_arg _ _).changes _ _ _ h₂).toSays.walked hw₁.sound
    exact .item (he hc hs h₁) h₂ (ih hes hw₂.sound ((hs.walked hw₁).walked hw₂) h₃)

theorem traced_checkInits {inits : List (Ident × Exp)} {loc : Location} {typeName : String}
    (h : ∀ i ∈ inits, ExpTraced i.2) : ∀ {fields : Option (List Field)} {c c' : Checker}
      {r : List (Ident × Exp) × Bool}, c.Sound → ctx.Sits c →
      (checkInits ctx loc typeName fields inits).run c = .ok (r, c') →
      Traced ctx (.inits inits r.1) c c' := by
  induction inits with
  | nil =>
    intro fields c c' r _ _ hrun
    rw [checkInits] at hrun
    cases hrun
    exact .noInit
  | cons i inits ih =>
    intro fields c c' r hc hs hrun
    obtain ⟨name, e⟩ := i
    obtain ⟨he, hes⟩ := List.forall_mem_cons.mp h
    obtain ⟨fields', c₁, e', c₂, ok, c₃, r', h₁, h₂, h₃, h₄, rfl⟩ := exists_of_run_checkInits hrun
    have hw₁ := ((passive_place fields).changes _ _ _ h₁).toSays.walked hc
    have hs₁ := hs.walked hw₁
    have hw₂ := (walked_exp hw₁.sound hs₁ h₂).1
    have hw₃ := ((passive_init _ _).changes _ _ _ h₃).toSays.walked hw₂.sound
    exact .init h₁ (he hw₁.sound hs₁ h₂) h₃ (ih hes hw₃.sound ((hs₁.walked hw₂).walked hw₃) h₄)

theorem ExpTraced.seq {items : List Exp} (hi : ∀ e ∈ items, ExpTraced e) : ExpTraced (.seq m items) := by
  intro ctx c c' e' hc hs h
  obtain ⟨r, h₁, rfl⟩ := exists_of_run_seq h
  exact .seq (traced_checkEach hi hc hs h₁)

theorem ExpTraced.record {typeName : Ident} {inits : List (Ident × Exp)} (hi : ∀ i ∈ inits, ExpTraced i.2) :
    ExpTraced (.record m typeName inits) := by
  intro ctx c c' e' hc hs h
  obtain ⟨ty, c₁, fields, c₂, r, h₁, h₂, h₃, rfl⟩ := exists_of_run_record h
  have hw₁ := (walked_typeOf hc h₁).1
  have hw₂ := ((passive_recordFields ty).changes _ _ _ h₂).toSays.walked hw₁.sound
  exact .record h₁ hw₁ h₂ (traced_checkInits hi hw₂.sound ((hs.walked hw₁).walked hw₂) h₃)

theorem ExpTraced.call {callee : Ident} {args : List Exp} {function : Option FunctionId}
    (ha : ∀ e ∈ args, ExpTraced e) : ExpTraced (.call m callee args function) := by
  intro ctx c c' e' hc hs h
  obtain ⟨target, c₁, r, c₂, ty, h₁, h₂, h₃, rfl⟩ := exists_of_run_call h
  obtain rfl := eq_of_run_target hc h₁
  exact .call h₁ (traced_checkEach ha hc hs h₂) h₃

/-! ## Declarations -/

/-- The bodies of a run of functions, and what follows the run. -/
theorem traced_functionBodies {c₀ : Checker} {plans : List Plan} {ds : List Dec} {seen : List String}
    (hc₀ : c₀.Sound) (hp : Planned ctx c₀ seen plans ds) (h : ∀ d ∈ ds, d.Parts ExpTraced) :
    ∀ {c c₁ c' : Checker} {r : List Dec × Bool} {es es' : List Dec}, c₀.Walked c → ctx.Sits c →
      (checkPlanned ctx plans ds).run c = .ok (r, c₁) →
      Traced ctx (.decs (OpenRun.after ⟨some .function, seen⟩ ds) es es') c₁ c' →
      Traced ctx (.decs ⟨some .function, seen⟩ (ds ++ es) (r.1 ++ es')) c c' := by
  induction hp with
  | nil =>
    intro c c₁ c' r es es' _ _ hrun hrest
    cases hrun
    exact hrest
  | @dropped seen plans d ds hk hseen _ ih =>
    intro c c₁ c' r es es' hw hs hrun hrest
    obtain ⟨-, hparts⟩ := List.forall_mem_cons.mp h
    obtain ⟨rs, h₁, rfl⟩ := exists_of_run_dropped hrun
    rw [OpenRun.after, List.foldl_cons, OpenRun.next_of_mem hk hseen] at hrest
    exact .dropped hk hseen .refl (ih hparts hw hs h₁ hrest)
  | @body seen g plans head body loc id ds hseen hfits _ ih =>
    intro c c₁ c' r es es' hw hs hrun hrest
    obtain ⟨hpart, hparts⟩ := List.forall_mem_cons.mp h
    have hfits := hfits.extends hc₀.rest hw.grown hw.scopes.typeNames_eq
    obtain ⟨r₁, c₂, rs, h₁, h₂, rfl⟩ := exists_of_run_checkPlanned hrun
    have hw₁ := walked_functionBody hw.sound hs hfits h₁
    obtain ⟨body', c₄, frames, ok, h₃, hfin, hbody, rfl⟩ := exists_of_run_bodyOf hw.sound hs hfits h₁
    rw [OpenRun.after, List.foldl_cons,
      OpenRun.next_of_not_mem (k := .function) (d := .function head body loc id) rfl hseen] at hrest
    have hsits := hfits.sits_inBody hs
    have hw₃ := (walked_exp (hw.sound.withValues _) hsits h₃).1
    exact .function hseen (hpart (hw.sound.withValues _) hsits h₃) hfin (hfits.close hw.sound hw₃ hfin).2
      hbody (ih hparts (hw.trans hw₁) (hs.walked hw₁) h₂ hrest)

/-- The initializers of a run of variables, and what follows the run. -/
theorem traced_variables {first : ℕ} {ds : List Dec} (hk : ∀ d ∈ ds, d.kind = .var)
    (h : ∀ d ∈ ds, d.Parts ExpTraced) : ∀ {seen : List String} {c c₁ c' : Checker} {r : List Dec × Bool}
      {es es' : List Dec}, c.Sound → ctx.Sits c → c.BoundFrom first seen →
      (checkPlanned ctx (ds.map fun _ => .variable first) ds).run c = .ok (r, c₁) →
      Traced ctx (.decs (OpenRun.after ⟨some .var, seen⟩ ds) es es') c₁ c' →
      Traced ctx (.decs ⟨some .var, seen⟩ (ds ++ es) (r.1 ++ es')) c c' := by
  induction ds with
  | nil =>
    intro seen c c₁ c' r es es' _ _ _ hrun hrest
    cases hrun
    exact hrest
  | cons d ds ih =>
    intro seen c c₁ c' r es es' hc hs hb hrun hrest
    obtain ⟨hkind, hkinds⟩ := List.forall_mem_cons.mp hk
    obtain ⟨hpart, hparts⟩ := List.forall_mem_cons.mp h
    cases d with
    | type => cases hkind
    | function => cases hkind
    | var name typeName init loc slot =>
      obtain ⟨r₁, c₂, rs, h₁, h₂, rfl⟩ := exists_of_run_checkPlanned hrun
      have hd₁ := declared_variable hc hs h₁
      rw [OpenRun.after, List.foldl_cons] at hrest
      by_cases hmem : name.name ∈ seen
      · obtain ⟨rfl, rfl⟩ := eq_of_run_again hb hmem h₁
        have hw := Checker.walked_reported hc (.duplicateDefinition name.name) name.loc
        rw [OpenRun.next_of_mem (k := .var) (d := .var name typeName init loc slot) rfl hmem] at hrest
        exact .dropped (d := .var name typeName init loc slot) rfl hmem (.report name.loc .refl rfl)
          (ih hkinds hparts hd₁.sound hd₁.sits (hb.walked hw) h₂ hrest)
      · have hb₁ := boundFrom_of_run hc hs hb hmem h₁
        obtain ⟨init', c₄, x, c₅, v, frames, -, h₃, h₄, halloc, -, -, rfl, hdecl, rfl⟩ :=
          exists_of_run_variable hc hs hb hmem h₁
        rw [OpenRun.next_of_not_mem (k := .var) (d := .var name typeName init loc slot) rfl hmem] at hrest
        obtain ⟨hw₃, hhas⟩ := walked_exp hc hs h₃
        have hg := (walked_declared hw₃.sound hhas h₄).1.grown.trans hdecl.grown
        exact .variable hmem (hpart hc hs h₃) h₄ halloc hg (ih hkinds hparts hd₁.sound hd₁.sits hb₁ h₂ hrest)

/-- **The declarations of a run, of whatever kind, and what follows the run.** -/
theorem traced_run {d : Dec} {run : List Dec} {c₁ c₂ : Checker} {plans : List Plan} {r : List Dec × Bool}
    {o : OpenRun} {es es' : List Dec} (ho : o.kind ≠ some d.kind) (hk : ∀ e ∈ d :: run, e.kind = d.kind)
    (h : ∀ e ∈ d :: run, e.Parts ExpTraced) (hc : c.Sound) (hs : ctx.Sits c)
    (hopen : (openRun ctx (d :: run)).run c = .ok (plans, c₁))
    (hrun : (checkPlanned ctx plans (d :: run)).run c₁ = .ok (r, c₂))
    (hrest : Traced ctx (.decs (o.after (d :: run)) es es') c₂ c') :
    Traced ctx (.decs o (d :: run ++ es) (r.1 ++ es')) c c' := by
  have hw := Checker.walked_note hc (.run d.kind (run.length + 1))
  obtain ⟨d', ds', hr, hd'⟩ := (kept_run hk (fun e _ => keptCases.all.2.2 e) hc hs hopen hrun).exists_cons
  have hafter := hrest
  rw [OpenRun.after_opens ho] at hafter
  cases hkind : d.kind with
  | type =>
    rw [hkind] at hk
    obtain ⟨t, ts, hts⟩ := exists_map_type_of_kind hk
    rw [hts] at hopen hrun hrest ⊢
    obtain ⟨hr, hdecl, -⟩ := ((yields_typeRun hc hs t ts).of_run hopen).2.of_run hrun
    rw [hr]
    exact .types (run_checkRun hopen hrun) hdecl.grown hrest
  | function =>
    rw [hkind] at hk hafter
    have hb := bindsFunctions_of_openRun hk hc hs hopen
    have hd := hb.declared hw.sound (hs.walked hw)
    have htraced := traced_functionBodies hd.sound (hb.planned hk hw.sound (hs.walked hw)) h (.refl hd.sound)
      hd.sits hrun hafter
    rw [hr, List.cons_append, List.cons_append] at htraced ⊢
    exact .opened ho hd' hopen (hw.grown.trans hd.grown) (hkind ▸ htraced)
  | var =>
    rw [hkind] at hk hafter
    obtain ⟨rfl, rfl⟩ := eq_of_run_openRun hkind hopen
    have htraced := traced_variables hk h hw.sound (hs.walked hw) (.opened (hs.walked hw)) hrun hafter
    rw [hr, List.cons_append, List.cons_append] at htraced ⊢
    exact .opened ho hd' hopen hw.grown (hkind ▸ htraced)

/-- **The declarations of a block, run by run.** -/
theorem traced_checkDecs : ∀ ds : List Dec, (∀ d ∈ ds, d.Parts ExpTraced) → ∀ {o : OpenRun} {c c' : Checker}
    {r : List Dec × Bool}, o.Ends ds → c.Sound → ctx.Sits c → (checkDecs ctx [] ds).run c = .ok (r, c') →
    Traced ctx (.decs o ds r.1) c c'
  | [], _, o, c, c', r, _, _, _, hrun => by
    rw [checkDecs] at hrun
    cases hrun
    exact .noDec
  | d :: ds, h, o, c, c', r, ho, hc, hs, hrun => by
    have hsplit : d :: ds = Dec.leadingRun (d :: ds) ++ ds.dropWhile (Dec.sameKind d) := by
      simp [Dec.leadingRun]
    have hk : ∀ e ∈ Dec.leadingRun (d :: ds), e.kind = d.kind := fun e he => kind_of_mem_leadingRun he
    obtain ⟨plans, c₁, r₁, c₂, r₂, hopen, hplanned, hdecs, rfl⟩ := exists_of_run_checkDecs hrun
    have hd₂ := declared_run hk hc hs hopen hplanned
    have hends : OpenRun.Ends (o.after (Dec.leadingRun (d :: ds))) (ds.dropWhile (Dec.sameKind d)) :=
      OpenRun.ends_dropWhile (OpenRun.kind_after hk) ds
    have hrest := traced_checkDecs (ds.dropWhile (Dec.sameKind d)) (fun e he =>
      h e (List.mem_cons_of_mem _ (List.dropWhile_subset _ he))) hends hd₂.sound hd₂.sits hdecs
    rw [hsplit]
    exact traced_run (ho d rfl) hk (fun e he => h e (hsplit ▸ List.mem_append_left _ he)) hc hs hopen hplanned
      hrest
termination_by ds => ds.length
decreasing_by
  exact Nat.lt_succ_of_le (List.length_dropWhile_le _ ds)

theorem ExpTraced.letIn {decs : List Dec} {body : Exp} (hd : ∀ d ∈ decs, d.Parts ExpTraced)
    (hb : ExpTraced body) : ExpTraced (.letIn m decs body) := by
  intro ctx c c' e' hc hs h
  obtain ⟨r, c₁, body', c₂, h₁, h₂, hdecl, -, rfl, rfl⟩ := exists_of_run_letIn hc hs h
  have hends : OpenRun.Ends {} decs := by
    rintro d - ⟨⟩
  exact .letIn (traced_checkDecs decs hd hends hc.entered hs.entered h₁) (hb hdecl.sound hdecl.sits h₂)

/-! ## Every expression -/

theorem tracedCases : Tree.Cases ExpTraced VarTraced (Dec.Parts ExpTraced) where
  var _ _ h := .var h
  nil _ ctx c c' e' _ _ h := by
    obtain ⟨rfl, rfl⟩ := eq_of_run_nil h
    exact .nil
  int _ _ ctx c c' e' _ _ h := by
    obtain ⟨rfl, rfl⟩ := eq_of_run_int h
    exact .int
  string _ _ ctx c c' e' _ _ h := by
    obtain ⟨rfl, rfl⟩ := eq_of_run_string h
    exact .string
  call _ _ _ _ h := .call h
  binary _ _ _ _ hl hr := .binary hl hr
  record _ _ _ h := .record h
  seq _ _ h := .seq h
  assign _ _ _ ht hv := .assign ht hv
  condNone _ _ _ ht hp := .condNone ht hp
  condSome _ _ _ _ ht hp he := .condSome ht hp he
  whileLoop _ _ _ ht hb := .whileLoop ht hb
  doWhile _ _ _ hb ht := .doWhile hb ht
  forLoop _ _ _ _ _ _ hl hh hb := .forLoop hl hh hb
  breakLoop _ := .breakLoop
  letIn _ _ _ hd hb := .letIn hd hb
  array _ _ _ _ hz hi := .array hz hi
  simple _ _ _ := .simple
  field _ _ _ _ hb := .field hb
  element _ _ _ hb hi := .element hb hi
  type _ := trivial
  function _ _ _ _ hb := hb
  varDec _ _ _ _ _ hi := hi

/-- **Every check that ended can be told node by node.** -/
theorem traced_exp {e e' : Exp} (hc : c.Sound) (hs : ctx.Sits c)
    (h : (checkExp ctx e).run c = .ok (e', c')) : Traced ctx (.exp e e') c c' := tracedCases.all.1 e hc hs h

end TigerCheck
