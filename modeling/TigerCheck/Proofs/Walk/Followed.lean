import TigerCheck.Proofs.Tame.Walk
import TigerCheck.Proofs.Walk.Watched

/-!
# Every live node is checked once

The notes of a watched walk are the positions of the live nodes, in the order of evaluation. This does not
depend on what is wrong with the program: every check goes through all parts of its node, whatever comes
out, and only the declarations whose names occur earlier in their runs are passed over.

* `ExpFollowed`, `VarFollowed`: the statement for one expression and for one variable.
* `followed_bodies`, `followed_variables`: the declarations of a run.
* **`followed_decs`**: the declarations of a block.
* **`expFollowed`**: every expression.
-/

namespace TigerCheck

open Check Watched

/-- **The watched check of an expression ends as the check does, and notes its live nodes.** -/
def ExpFollowed (e : Exp) : Prop :=
  ∀ ⦃ctx : Context⦄ ⦃p : Position⦄ ⦃c : Checker⦄, c.Sound → ctx.Sits c →
    Follows (watchExp ctx p e) (checkExp ctx e) c (e.nodes p)

/-- The watched check of a variable ends as the check does, and notes its live nodes. -/
def VarFollowed (v : Var) : Prop :=
  ∀ ⦃ctx : Context⦄ ⦃p : Position⦄ ⦃c : Checker⦄, c.Sound → ctx.Sits c →
    Follows (watchVar ctx p v) (checkVar ctx v) c (v.nodes p)

variable {ctx : Context} {p : Position} {c c₀ c' : Checker} {m : Mark}

/-- A rule that only reports leaves the walk where it is. -/
theorem Check.Passive.walked {α : Type} {a : α} {P : Fault → Prop} {r : Check α} {ok : Prop}
    {good : α → Prop} (h : Passive P ok r good) (hr : r.run c = .ok (a, c')) (hc : c.Sound) :
    c.Walked c' :=
  (h.changes c a c' hr).toSays.walked hc

/-! ## Leaves and variables -/

theorem ExpFollowed.nil : ExpFollowed (.nil m) := by
  intro ctx p c _ _
  rw [checkExp, watchExp, Exp.nodes]
  exact .note (.pure _)

theorem ExpFollowed.int {n : Int64} : ExpFollowed (.int m n) := by
  intro ctx p c _ _
  rw [checkExp, watchExp, Exp.nodes]
  exact .note (.pure _)

theorem ExpFollowed.string {s : String} : ExpFollowed (.string m s) := by
  intro ctx p c _ _
  rw [checkExp, watchExp, Exp.nodes]
  exact .note (.pure _)

theorem ExpFollowed.breakLoop : ExpFollowed (.breakLoop m) := by
  intro ctx p c _ _
  rw [checkExp, watchExp, Exp.nodes]
  refine .note ?_
  split
  · exact .last (.pure _) fun _ _ _ => .pure _
  · exact .lift _ fun _ _ _ => .pure _

theorem ExpFollowed.var {v : Var} (hv : VarFollowed v) : ExpFollowed (.var m v) := by
  intro ctx p c hc hs
  rw [checkExp, watchExp, Exp.nodes]
  exact .note (.last (hv hc hs) fun _ _ _ => .pure _)

theorem VarFollowed.simple {name : String} {binding : Option VarId} :
    VarFollowed (.simple m name binding) := by
  intro ctx p c _ _
  rw [checkVar, watchVar, Var.nodes]
  exact .note (.lift _ fun _ _ _ => .pure _)

theorem VarFollowed.field {base : Var} {name : Ident} {position : Option ℕ} (hb : VarFollowed base) :
    VarFollowed (.field m base name position) := by
  intro ctx p c hc hs
  rw [checkVar, watchVar, Var.nodes]
  exact .note (.last (hb hc hs) fun _ _ _ => .lift _ fun _ _ _ => .pure _)

theorem VarFollowed.element {base : Var} {index : Exp} (hb : VarFollowed base) (hi : ExpFollowed index) :
    VarFollowed (.element m base index) := by
  intro ctx p c hc hs
  rw [checkVar, watchVar, Var.nodes]
  refine .note (.bind (hb hc hs) fun base' c₁ h₁ => ?_)
  obtain ⟨hw₁, -⟩ := walked_var hc hs h₁
  exact .last (hi hw₁.sound (hs.walked hw₁)) fun _ _ _ => .lift _ fun _ _ _ => .pure _

/-! ## Nodes with parts -/

theorem ExpFollowed.binary {op : BinOp} {left right : Exp} (hl : ExpFollowed left)
    (hr : ExpFollowed right) : ExpFollowed (.binary m op left right) := by
  intro ctx p c hc hs
  rw [checkExp, watchExp, Exp.nodes]
  refine .note (.bind (hl hc hs) fun left' c₁ h₁ => ?_)
  obtain ⟨hw₁, -⟩ := walked_exp hc hs h₁
  exact .last (hr hw₁.sound (hs.walked hw₁)) fun _ _ _ => .lift _ fun _ _ _ => .pure _

theorem ExpFollowed.assign {target : Var} {value : Exp} (ht : VarFollowed target)
    (hv : ExpFollowed value) : ExpFollowed (.assign m target value) := by
  intro ctx p c hc hs
  rw [checkExp, watchExp, Exp.nodes]
  refine .note (.bind (ht hc hs) fun target' c₁ h₁ => ?_)
  obtain ⟨hw₁, -⟩ := walked_var hc hs h₁
  exact .last (hv hw₁.sound (hs.walked hw₁)) fun _ _ _ => .lift _ fun _ _ _ => .pure _

theorem ExpFollowed.condNone {test thenPart : Exp} (ht : ExpFollowed test)
    (hp : ExpFollowed thenPart) : ExpFollowed (.cond m test thenPart none) := by
  intro ctx p c hc hs
  rw [checkExp, watchExp, Exp.nodes]
  refine .note (.bind (ht hc hs) fun test' c₁ h₁ => ?_)
  obtain ⟨hw₁, -⟩ := walked_exp hc hs h₁
  exact .last (hp hw₁.sound (hs.walked hw₁)) fun _ _ _ => .lift _ fun _ _ _ => .pure _

theorem ExpFollowed.condSome {test thenPart elsePart : Exp} (ht : ExpFollowed test)
    (hp : ExpFollowed thenPart) (he : ExpFollowed elsePart) :
    ExpFollowed (.cond m test thenPart (some elsePart)) := by
  intro ctx p c hc hs
  rw [checkExp, watchExp, Exp.nodes]
  refine .note (.bind (ht hc hs) fun test' c₁ h₁ => ?_)
  obtain ⟨hw₁, -⟩ := walked_exp hc hs h₁
  refine .bind (hp hw₁.sound (hs.walked hw₁)) fun thenPart' c₂ h₂ => ?_
  obtain ⟨hw₂, -⟩ := walked_exp hw₁.sound (hs.walked hw₁) h₂
  exact .last (he hw₂.sound ((hs.walked hw₁).walked hw₂)) fun _ _ _ => .lift _ fun _ _ _ => .pure _

theorem ExpFollowed.whileLoop {test body : Exp} (ht : ExpFollowed test) (hb : ExpFollowed body) :
    ExpFollowed (.whileLoop m test body) := by
  intro ctx p c hc hs
  rw [checkExp, watchExp, Exp.nodes]
  refine .note (.bind (ht hc hs) fun test' c₁ h₁ => ?_)
  obtain ⟨hw₁, -⟩ := walked_exp hc hs h₁
  exact .last (hb hw₁.sound ((hs.walked hw₁).loops _)) fun _ _ _ => .lift _ fun _ _ _ => .pure _

theorem ExpFollowed.doWhile {body test : Exp} (hb : ExpFollowed body) (ht : ExpFollowed test) :
    ExpFollowed (.doWhile m body test) := by
  intro ctx p c hc hs
  rw [checkExp, watchExp, Exp.nodes]
  refine .note (.bind (hb hc (hs.loops _)) fun body' c₁ h₁ => ?_)
  obtain ⟨hw₁, -⟩ := walked_exp hc (hs.loops _) h₁
  exact .last (ht hw₁.sound (hs.walked hw₁)) fun _ _ _ => .lift _ fun _ _ _ => .pure _

theorem ExpFollowed.array {typeName : Ident} {size init : Exp} (hz : ExpFollowed size)
    (hi : ExpFollowed init) : ExpFollowed (.array m typeName size init) := by
  intro ctx p c hc hs
  rw [checkExp, watchExp, Exp.nodes]
  refine .note (.lift _ fun ty c₀ h₀ => ?_)
  obtain ⟨hw₀, -⟩ := walked_typeOf hc h₀
  have hs₀ := hs.walked hw₀
  refine .bind (hz hw₀.sound hs₀) fun size' c₁ h₁ => ?_
  obtain ⟨hw₁, -⟩ := walked_exp hw₀.sound hs₀ h₁
  exact .last (hi hw₁.sound (hs₀.walked hw₁)) fun _ _ _ => .lift _ fun _ _ _ => .pure _

theorem ExpFollowed.forLoop {counter : Ident} {low high body : Exp} {slot : Option VarId}
    (hl : ExpFollowed low) (hh : ExpFollowed high) (hb : ExpFollowed body) :
    ExpFollowed (.forLoop m counter low high body slot) := by
  intro ctx p c hc hs
  rw [checkExp, watchExp, Exp.nodes]
  refine .note (.bind (hl hc hs) fun low' c₁ h₁ => ?_)
  obtain ⟨hw₁, -⟩ := walked_exp hc hs h₁
  have hs₁ := hs.walked hw₁
  refine .bind (hh hw₁.sound hs₁) fun high' c₂ h₂ => ?_
  obtain ⟨hw₂, -⟩ := walked_exp hw₁.sound hs₁ h₂
  refine .lift _ fun fit c₃ h₃ => ?_
  have hw₃ := (passive_bounds _ _).walked h₃ hw₂.sound
  have hcounter := hw₃.sound.counter ((hs₁.walked hw₂).walked hw₃) counter.name
  simp only [yields_bind, yields_pure] at hcounter
  refine .lift _ fun _ c₄ h₄ => .lift _ fun v c₅ h₅ => .lift _ fun _ c₆ h₆ => ?_
  obtain ⟨hc₆, hs₆, -⟩ := ((hcounter.of_run h₄).of_run h₅).of_run h₆
  exact .last (hb hc₆ (hs₆.loops (ctx.loops + 1))) fun _ _ _ => .lift _ fun _ _ _ => .pure _

/-! ## Lists -/

/-- The items of a list are all checked, fitting or not. -/
theorem followed_each {es : List Exp} (h : ∀ e ∈ es, ExpFollowed e) :
    ∀ {params : List Ty} {i : ℕ} {c : Checker}, c.Sound → ctx.Sits c →
      Follows (watchEach ctx p i params es) (checkEach ctx params es) c (nodesAll p i es) := by
  induction es with
  | nil =>
    intro params i c _ _
    rw [checkEach, watchEach, nodesAll]
    exact .pure _
  | cons e es ih =>
    intro params i c hc hs
    obtain ⟨he, hes⟩ := List.forall_mem_cons.mp h
    rw [checkEach, watchEach, nodesAll]
    refine .bind (he hc hs) fun e' c₁ h₁ => ?_
    obtain ⟨hw₁, -⟩ := walked_exp hc hs h₁
    refine .lift _ fun ok c₂ h₂ => ?_
    have hw₂ := (passive_arg _ _).walked h₂ hw₁.sound
    exact .last (ih hes hw₂.sound ((hs.walked hw₁).walked hw₂)) fun _ _ _ => .pure _

/-- The initializers of a record literal are all checked, in their places or not. -/
theorem followed_inits {loc : Location} {typeName : String} {inits : List (Ident × Exp)}
    (h : ∀ i ∈ inits, ExpFollowed i.2) :
    ∀ {fields : Option (List Field)} {i : ℕ} {c : Checker}, c.Sound → ctx.Sits c →
      Follows (watchInits ctx p i loc typeName fields inits) (checkInits ctx loc typeName fields inits) c
        (nodesInits p i inits) := by
  induction inits with
  | nil =>
    intro fields i c _ _
    rw [checkInits, watchInits, nodesInits]
    exact .pure _
  | cons init inits ih =>
    intro fields i c hc hs
    obtain ⟨hinit, hinits⟩ := List.forall_mem_cons.mp h
    obtain ⟨name, e⟩ := init
    rw [checkInits, watchInits, nodesInits]
    refine .lift _ fun place c₀ h₀ => ?_
    have hw₀ := (passive_place _).walked h₀ hc
    have hs₀ := hs.walked hw₀
    refine .bind (hinit hw₀.sound hs₀) fun e' c₁ h₁ => ?_
    obtain ⟨hw₁, -⟩ := walked_exp hw₀.sound hs₀ h₁
    refine .lift _ fun ok c₂ h₂ => ?_
    have hw₂ := (passive_init _ _).walked h₂ hw₁.sound
    exact .last (ih hinits hw₂.sound ((hs₀.walked hw₁).walked hw₂)) fun _ _ _ => .pure _

theorem ExpFollowed.seq {items : List Exp} (h : ∀ e ∈ items, ExpFollowed e) :
    ExpFollowed (.seq m items) := by
  intro ctx p c hc hs
  rw [checkExp, watchExp, Exp.nodes]
  exact .note (.last (followed_each h hc hs) fun _ _ _ => .pure _)

/-- The arguments of a call are all checked, even if the function is not known or has fewer parameters. -/
theorem ExpFollowed.call {callee : Ident} {args : List Exp} {function : Option FunctionId}
    (h : ∀ e ∈ args, ExpFollowed e) : ExpFollowed (.call m callee args function) := by
  intro ctx p c hc hs
  rw [checkExp, watchExp, Exp.nodes]
  refine .note (.lift _ fun target c₁ h₁ => ?_)
  have hfound : ∀ id, c.functions.lookup callee.name = some id → ∃ f,
      c.frames.functions[id.index]? = some f ∧
        ∀ sig, f.signature = some sig → f.hiddenParams ≤ sig.params.length := by
    intro id hid
    obtain ⟨f, hf⟩ := hc.functions _ id hid
    exact ⟨f, hf, fun sig hsig => (hc.signatures id f sig hf hsig).1⟩
  obtain ⟨rfl, -⟩ := (Rule.yields_target? callee.name hfound).of_run h₁
  exact .last (followed_each h hc hs) fun _ _ _ => .lift _ fun _ _ _ => .pure _

/-- The initializers of a record literal are all checked, even if its type is not known or not a record
type, or if their number is wrong. -/
theorem ExpFollowed.record {typeName : Ident} {inits : List (Ident × Exp)}
    (h : ∀ i ∈ inits, ExpFollowed i.2) : ExpFollowed (.record m typeName inits) := by
  intro ctx p c hc hs
  rw [checkExp, watchExp, Exp.nodes]
  refine .note (.lift _ fun ty c₁ h₁ => ?_)
  obtain ⟨hw₁, -⟩ := walked_typeOf hc h₁
  refine .lift _ fun fields c₂ h₂ => ?_
  have hw₂ := (passive_recordFields _).walked h₂ hw₁.sound
  exact .last (followed_inits h hw₂.sound ((hs.walked hw₁).walked hw₂)) fun _ _ _ => .pure _

/-! ## Runs of types -/

theorem nodesDecs_map_type {o : OpenRun} {i : ℕ} (ds : List TypeDec) :
    nodesDecs p i o (ds.map .type) = [] := by
  induction ds generalizing i o with
  | nil => rfl
  | cons d ds ih =>
    rw [List.map_cons, nodesDecs, ih, Dec.nodes, ite_self]
    rfl

/-- There is no node in the declaration of a type. -/
theorem followed_type {plan : Plan} {dec : TypeDec} :
    Follows (watchDec ctx p plan (.type dec)) (checkDec ctx plan (.type dec)) c [] := by
  cases plan with
  | typeBody id =>
    rw [watchDec, checkDec]
    exact .lift _ fun _ _ _ => .pure _
  | dropped => exact .pure _
  | functionBody => exact .pure _
  | «variable» => exact .pure _

theorem followed_types {plans : List Plan} {ds : List TypeDec} {i : ℕ} :
    Follows (watchPlanned ctx p i plans (ds.map .type)) (checkPlanned ctx plans (ds.map .type)) c [] := by
  induction ds generalizing plans i c with
  | nil => cases plans <;> exact .pure _
  | cons d ds ih =>
    cases plans with
    | nil => exact .pure _
    | cons plan plans =>
      rw [List.map_cons, watchPlanned, checkPlanned]
      exact .last followed_type fun _ _ _ => .last ih fun _ _ _ => .pure _

/-! ## Runs of functions -/

theorem followed_body {h : Header} {head : FunctionHead} {body : Exp} {loc : Location}
    {id : Option FunctionId} (hb : ExpFollowed body) (hc : c.Sound) (hs : ctx.Sits c)
    (hfits : h.Fits ctx head c) : Follows (watchDec ctx p (.functionBody h) (.function head body loc id))
      (checkDec ctx (.functionBody h) (.function head body loc id)) c (body.nodes p) := by
  rw [watchDec, checkDec]
  have hopen : Yields enterValues c fun _ d => Yields (bindParams head.params h.params) d
      fun _ d' => d' = c.inBody head h := yields_enterValues.mpr (yields_bindParams.mpr rfl)
  refine .lift _ fun _ c₁ h₁ => .lift _ fun _ c₂ h₂ => ?_
  obtain rfl : c₂ = c.inBody head h := (hopen.of_run h₁).of_run h₂
  exact .last (hb (hc.withValues _) (hfits.sits_inBody hs)) fun _ _ _ =>
    .lift _ fun _ _ _ => .lift _ fun _ _ _ => .lift _ fun _ _ _ => .pure _

/-- The bodies of a run of functions are checked, except those of the dropped ones. -/
theorem followed_bodies {seen : List String} {ds : List Dec} {plans : List Plan} {d d' : Checker}
    (hbinds : BindsFunctions ctx seen ds d plans d') (hc₀ : c₀.Sound)
    (hfits : List.Forall₂ (Plan.Fits ctx c₀) plans ds) (hk : ∀ d ∈ ds, d.kind = .function)
    (h : ∀ d ∈ ds, d.Parts ExpFollowed) : ∀ {c : Checker} {i : ℕ}, c₀.Walked c → ctx.Sits c →
      Follows (watchPlanned ctx p i plans ds) (checkPlanned ctx plans ds) c
        (nodesDecs p i ⟨some .function, seen⟩ ds) := by
  induction hbinds with
  | nil => exact fun _ _ => .pure _
  | dropped hseen _ ih =>
    intro c i hw hs
    obtain ⟨hd, hk⟩ := List.forall_mem_cons.mp hk
    obtain ⟨-, hfits⟩ := List.forall₂_cons.mp hfits
    rw [watchPlanned, checkPlanned, watchDec_dropped, checkDec_dropped, pure_bind, pure_bind,
      nodesDecs_of_mem hd hseen]
    exact .last (ih hfits hk (List.forall_mem_cons.mp h).2 hw hs) fun _ _ _ => .pure _
  | @bound _ head body loc id _ _ _ _ g _ hseen _ _ ih =>
    intro c i hw hs
    obtain ⟨hfit, hfits⟩ := List.forall₂_cons.mp hfits
    obtain ⟨hpart, hparts⟩ := List.forall_mem_cons.mp h
    cases hfit with
    | functionBody hfit =>
      have hfit := hfit.extends hc₀.rest hw.grown hw.scopes.typeNames_eq
      rw [watchPlanned, checkPlanned,
        nodesDecs_of_not_mem (k := .function) (d := .function head body loc id) rfl hseen]
      refine .bind (followed_body hpart hw.sound hs hfit) fun r c₁ h₁ => ?_
      have hw₁ := walked_functionBody hw.sound hs hfit h₁
      exact .last (ih hfits (List.forall_mem_cons.mp hk).2 hparts (hw.trans hw₁) (hs.walked hw₁))
        fun _ _ _ => .pure _

/-! ## Runs of variables -/

section

variable {first : ℕ} {seen : List String} {name : Ident} {typeName : Option Ident} {init : Exp}
  {loc : Location} {slot : Option VarId}

/-- The initializer of a dropped variable is not checked. -/
theorem followed_again (hb : c.BoundFrom first seen) (hmem : name.name ∈ seen) :
    Follows (watchDec ctx p (.variable first) (.var name typeName init loc slot))
      (checkDec ctx (.variable first) (.var name typeName init loc slot)) c [] := by
  rw [watchDec, checkDec]
  refine .lift _ fun again c₁ h₁ => ?_
  have hbound : Yields (boundSince first name.name) c fun again _ => again = true :=
    yields_boundSince.mpr ((hb.iff_mem name.name).mpr hmem)
  rw [hbound.of_run h₁, if_pos rfl, if_pos rfl]
  exact .lift _ fun _ _ _ => .pure _

theorem followed_variable (hi : ExpFollowed init) (hc : c.Sound) (hs : ctx.Sits c)
    (hb : c.BoundFrom first seen) (hmem : name.name ∉ seen) :
    Follows (watchDec ctx p (.variable first) (.var name typeName init loc slot))
      (checkDec ctx (.variable first) (.var name typeName init loc slot)) c (init.nodes p) := by
  rw [watchDec, checkDec]
  refine .lift _ fun again c₁ h₁ => ?_
  have hbound : Yields (boundSince first name.name) c fun again d => again = false ∧ d = c := by
    rw [yields_boundSince]
    exact ⟨Bool.eq_false_iff.mpr (mt (hb.iff_mem name.name).mp hmem), rfl⟩
  obtain ⟨rfl, rfl⟩ := hbound.of_run h₁
  rw [if_neg Bool.false_ne_true, if_neg Bool.false_ne_true]
  exact .last (hi hc hs) fun _ _ _ => .lift _ fun _ _ _ => .lift _ fun _ _ _ => .lift _ fun _ _ _ => .pure _

end

/-- The initializers of a run of variables are checked, except those of the dropped ones. -/
theorem followed_variables {first : ℕ} {ds : List Dec} (hk : ∀ d ∈ ds, d.kind = .var)
    (h : ∀ d ∈ ds, d.Parts ExpFollowed) : ∀ {seen : List String} {c : Checker} {i : ℕ}, c.Sound →
      ctx.Sits c → c.BoundFrom first seen →
      Follows (watchPlanned ctx p i (ds.map fun _ => .variable first) ds)
        (checkPlanned ctx (ds.map fun _ => .variable first) ds) c
        (nodesDecs p i ⟨some .var, seen⟩ ds) := by
  induction ds with
  | nil => exact fun _ _ _ => .pure _
  | cons d ds ih =>
    intro seen c i hc hs hb
    obtain ⟨hd, hkinds⟩ := List.forall_mem_cons.mp hk
    obtain ⟨hpart, hparts⟩ := List.forall_mem_cons.mp h
    cases d with
    | type => cases hd
    | function => cases hd
    | var name typeName init loc slot =>
      rw [List.map_cons, watchPlanned, checkPlanned]
      by_cases hmem : name.name ∈ seen
      · rw [nodesDecs_of_mem (k := .var) (d := .var name typeName init loc slot) rfl hmem]
        refine .skip (followed_again hb hmem) fun r c₁ h₁ => ?_
        obtain ⟨rfl, -⟩ := eq_of_run_again hb hmem h₁
        have hw := Checker.walked_reported hc (.duplicateDefinition name.name) name.loc
        exact .last (ih hkinds hparts hw.sound (hs.walked hw) (hb.walked hw)) fun _ _ _ => .pure _
      · rw [nodesDecs_of_not_mem (k := .var) (d := .var name typeName init loc slot) rfl hmem]
        refine .bind (followed_variable hpart hc hs hb hmem) fun r c₁ h₁ => ?_
        have hd₁ := declared_variable hc hs h₁
        have hb₁ := boundFrom_of_run hc hs hb hmem h₁
        exact .last (ih hkinds hparts hd₁.sound hd₁.sits hb₁) fun _ _ _ => .pure _

/-! ## Blocks -/

/-- **A run is opened, and its live declarations are checked.** -/
theorem followed_run {d : Dec} {run : List Dec} {plans : List Plan} {i : ℕ}
    (hk : ∀ e ∈ d :: run, e.kind = d.kind) (h : ∀ e ∈ d :: run, e.Parts ExpFollowed) (hc : c.Sound)
    (hs : ctx.Sits c) (hopen : (openRun ctx (d :: run)).run c = .ok (plans, c')) :
    Follows (watchPlanned ctx p i plans (d :: run)) (checkPlanned ctx plans (d :: run)) c'
      (nodesDecs p i ⟨some d.kind, []⟩ (d :: run)) := by
  have hw := Checker.walked_note hc (.run d.kind (run.length + 1))
  cases hkind : d.kind with
  | type =>
    obtain ⟨ts, hts⟩ := eq_map_type_of_kind (hkind ▸ hk)
    rw [hts, nodesDecs_map_type]
    exact followed_types
  | function =>
    have hs' := hs.walked hw
    have hbinds := bindsFunctions_of_openRun (hkind ▸ hk) hc hs hopen
    have hd := hbinds.declared hw.sound hs'
    exact followed_bodies hbinds hd.sound (hbinds.fits hw.sound hs') (hkind ▸ hk) h (.refl hd.sound) hd.sits
  | var =>
    obtain ⟨rfl, rfl⟩ := eq_of_run_openRun hkind hopen
    exact followed_variables (hkind ▸ hk) h hw.sound (hs.walked hw) (.opened (hs.walked hw))

/-- **The live declarations of a block are checked, run by run.** -/
theorem followed_decs : ∀ ds : List Dec, (∀ d ∈ ds, d.Parts ExpFollowed) → ∀ {o : OpenRun} {i : ℕ}
    {c : Checker}, o.Ends ds → c.Sound → ctx.Sits c →
      Follows (watchDecs ctx p i [] ds) (checkDecs ctx [] ds) c (nodesDecs p i o ds)
  | [], _, o, i, c, _, _, _ => by
    rw [watchDecs, checkDecs, nodesDecs]
    exact .pure _
  | d :: ds, h, o, i, c, ho, hc, hs => by
    obtain ⟨run, hrun⟩ : ∃ run, Dec.leadingRun (d :: ds) = d :: run := ⟨_, rfl⟩
    have hsplit : d :: ds = (d :: run) ++ ds.dropWhile (Dec.sameKind d) := by
      rw [← hrun, Dec.leadingRun, List.cons_append, List.takeWhile_append_dropWhile]
    have hk : ∀ e ∈ d :: run, e.kind = d.kind := fun e he => kind_of_mem_leadingRun (hrun ▸ he)
    have hall : ∀ e ∈ (d :: run) ++ ds.dropWhile (Dec.sameKind d), e.Parts ExpFollowed := hsplit ▸ h
    obtain ⟨hparts, hrest⟩ := List.forall_mem_append.mp hall
    rw [watchDecs_opens, checkDecs_opens, hrun, nodesDecs_opens (ho d rfl)]
    refine .lift _ fun plans c₁ h₁ => ?_
    have hlen := length_of_openRun h₁
    cases plans with
    | nil => cases hlen
    | cons plan plans =>
      rw [List.headD_cons, List.tail_cons, ← watchDecs_cons, ← checkDecs_cons, hsplit,
        watchDecs_planned _ _ _ _ _ _ hlen, checkDecs_planned _ _ _ _ hlen, nodesDecs_append]
      refine .bind (followed_run hk hparts hc hs h₁) fun r c₂ h₂ => ?_
      have hd := declared_run hk hc hs h₁ h₂
      have hends := OpenRun.ends_dropWhile (o := OpenRun.after ⟨some d.kind, []⟩ (d :: run))
        (OpenRun.kind_after hk) ds
      exact .last (followed_decs _ hrest hends hd.sound hd.sits) fun _ _ _ => .pure _
termination_by ds => ds.length
decreasing_by
  exact Nat.lt_succ_of_le (List.length_dropWhile_le _ ds)

theorem ExpFollowed.letIn {decs : List Dec} {body : Exp} (hd : ∀ d ∈ decs, d.Parts ExpFollowed)
    (hb : ExpFollowed body) : ExpFollowed (.letIn m decs body) := by
  intro ctx p c hc hs
  rw [checkExp, watchExp, Exp.nodes]
  refine .note (.lift _ fun _ c₀ h₀ => ?_)
  obtain rfl := Checker.eq_of_run_enterScopes h₀
  refine .bind (followed_decs decs hd (fun _ _ => nofun) hc.entered hs.entered) fun r c₁ h₁ => ?_
  have hdecl := declared_decs hc.entered hs.entered h₁
  exact .last (hb hdecl.sound hdecl.sits) fun _ _ _ => .lift _ fun _ _ _ => .pure _

/-- There is a case for every form of node. -/
theorem followedCases : Tree.Cases ExpFollowed VarFollowed (Dec.Parts ExpFollowed) where
  var _ _ h := .var h
  nil _ := .nil
  int _ _ := .int
  string _ _ := .string
  call _ _ _ _ h := .call h
  binary _ _ _ _ hl hr := .binary hl hr
  record _ _ _ h := .record h
  seq _ _ h := .seq h
  assign _ _ _ ht hv := .assign ht hv
  condNone _ _ _ ht hp := .condNone ht hp
  condSome _ _ _ _ ht hp he := .condSome ht hp he
  whileLoop _ _ _ ht hb := .whileLoop ht hb
  doWhile _ _ _ hb ht := .doWhile hb ht
  forLoop _ _ _ _ _ _ hl hh hb := .forLoop hl hh hb
  breakLoop _ := .breakLoop
  letIn _ _ _ hd hb := .letIn hd hb
  array _ _ _ _ hz hi := .array hz hi
  simple _ _ _ := .simple
  field _ _ _ _ hb := .field hb
  element _ _ _ hb hi := .element hb hi
  type _ := trivial
  function _ _ _ _ hb := hb
  varDec _ _ _ _ _ hi := hi

/-- **The check of every expression goes through its live nodes, once each.** -/
theorem expFollowed (e : Exp) : ExpFollowed e := followedCases.all.1 e

end TigerCheck
