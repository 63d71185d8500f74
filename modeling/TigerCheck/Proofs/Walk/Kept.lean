import TigerCheck.Proofs.Tame.Rule
import TigerCheck.Proofs.Tree.Live
import TigerCheck.Proofs.Walk.Variables

/-!
# What a check leaves alone

A check fills the cells of a tree and changes nothing else in it. The cells within dropped declarations it
does not even look at.

* `Exp.Keeps`, …: only the cells of live nodes are different.
* `ExpKept`, `VarKept`: the statement for one expression and for one variable.
* `kept_functionBodies`, `kept_variables`, `kept_checkDecs`: declarations.
* **`expKept`**: every expression.
-/

namespace TigerCheck

open Check

/-- Two expressions that differ at most in the cells of live nodes. -/
structure Exp.Keeps (e e' : Exp) : Prop where
  blank : e'.blank = e.blank
  dropped : e'.dropped = e.dropped

/-- Two variables that differ at most in the cells of live nodes. -/
structure Var.Keeps (v v' : Var) : Prop where
  blank : v'.blank = v.blank
  dropped : v'.dropped = v.dropped

/-- Two declarations that differ at most in the cells of live nodes. -/
structure Dec.Keeps (d d' : Dec) : Prop where
  blank : d'.blank = d.blank
  dropped : d'.dropped = d.dropped

/-- Declarations that differ at most in the cells of live nodes, given the run before them. -/
structure OpenRun.Keeps (o : OpenRun) (ds ds' : List Dec) : Prop where
  blank : blankDecs ds' = blankDecs ds
  dropped : droppedDecs o ds' = droppedDecs o ds

/-- **The check of an expression leaves everything but the cells of live nodes alone.** -/
def ExpKept (e : Exp) : Prop :=
  ∀ ⦃ctx : Context⦄ ⦃c c' : Checker⦄ ⦃e' : Exp⦄, c.Sound → ctx.Sits c →
    (checkExp ctx e).run c = .ok (e', c') → e.Keeps e'

/-- The check of a variable leaves everything but the cells of live nodes alone. -/
def VarKept (v : Var) : Prop :=
  ∀ ⦃ctx : Context⦄ ⦃c c' : Checker⦄ ⦃v' : Var⦄, c.Sound → ctx.Sits c →
    (checkVar ctx v).run c = .ok (v', c') → v.Keeps v'

variable {ctx : Context} {c c' : Checker} {m : Mark}

/-! ## Leaves -/

theorem ExpKept.nil : ExpKept (.nil m) := by
  intro ctx c c' e' _ _ h
  obtain ⟨rfl, rfl⟩ := eq_of_run_nil h
  exact ⟨rfl, rfl⟩

theorem ExpKept.int {n : Int64} : ExpKept (.int m n) := by
  intro ctx c c' e' _ _ h
  obtain ⟨rfl, rfl⟩ := eq_of_run_int h
  exact ⟨rfl, rfl⟩

theorem ExpKept.string {s : String} : ExpKept (.string m s) := by
  intro ctx c c' e' _ _ h
  obtain ⟨rfl, rfl⟩ := eq_of_run_string h
  exact ⟨rfl, rfl⟩

theorem ExpKept.breakLoop : ExpKept (.breakLoop m) := by
  intro ctx c c' e' _ _ h
  rcases exists_of_run_breakLoop h with ⟨-, -, rfl⟩ | ⟨-, -, rfl⟩
  · exact ⟨rfl, rfl⟩
  · exact ⟨rfl, rfl⟩

/-! ## Nodes with parts -/

theorem ExpKept.var {v : Var} (hv : VarKept v) : ExpKept (.var m v) := by
  intro ctx c c' e' hc hs h
  obtain ⟨v', h₁, rfl⟩ := exists_of_run_var h
  have hv' := hv hc hs h₁
  exact ⟨by simp [hv'.blank], hv'.dropped⟩

theorem ExpKept.binary {op : BinOp} {left right : Exp} (hl : ExpKept left) (hr : ExpKept right) :
    ExpKept (.binary m op left right) := by
  intro ctx c c' e' hc hs h
  obtain ⟨left', c₁, right', c₂, ty, h₁, h₂, -, rfl⟩ := exists_of_run_binary h
  have hw := (walked_exp hc hs h₁).1
  have hl' := hl hc hs h₁
  have hr' := hr hw.sound (hs.walked hw) h₂
  exact ⟨by simp [hl'.blank, hr'.blank], by simp [Exp.dropped, hl'.dropped, hr'.dropped]⟩

theorem ExpKept.assign {target : Var} {value : Exp} (ht : VarKept target) (hv : ExpKept value) :
    ExpKept (.assign m target value) := by
  intro ctx c c' e' hc hs h
  obtain ⟨target', c₁, value', c₂, ty, h₁, h₂, -, rfl⟩ := exists_of_run_assign h
  have hw := (walked_var hc hs h₁).1
  have ht' := ht hc hs h₁
  have hv' := hv hw.sound (hs.walked hw) h₂
  exact ⟨by simp [ht'.blank, hv'.blank], by simp [Exp.dropped, ht'.dropped, hv'.dropped]⟩

theorem ExpKept.condNone {test thenPart : Exp} (ht : ExpKept test) (hp : ExpKept thenPart) :
    ExpKept (.cond m test thenPart none) := by
  intro ctx c c' e' hc hs h
  obtain ⟨test', c₁, then', c₂, ty, h₁, h₂, -, rfl⟩ := exists_of_run_condNone h
  have hw := (walked_exp hc hs h₁).1
  have ht' := ht hc hs h₁
  have hp' := hp hw.sound (hs.walked hw) h₂
  exact ⟨by simp [ht'.blank, hp'.blank], by simp [Exp.dropped, ht'.dropped, hp'.dropped]⟩

theorem ExpKept.condSome {test thenPart elsePart : Exp} (ht : ExpKept test) (hp : ExpKept thenPart)
    (he : ExpKept elsePart) : ExpKept (.cond m test thenPart (some elsePart)) := by
  intro ctx c c' e' hc hs h
  obtain ⟨test', c₁, then', c₂, else', c₃, ty, h₁, h₂, h₃, -, rfl⟩ := exists_of_run_condSome h
  have hw := (walked_exp hc hs h₁).1
  have hw₂ := (walked_exp hw.sound (hs.walked hw) h₂).1
  have ht' := ht hc hs h₁
  have hp' := hp hw.sound (hs.walked hw) h₂
  have he' := he hw₂.sound ((hs.walked hw).walked hw₂) h₃
  exact ⟨by simp [ht'.blank, hp'.blank, he'.blank],
    by simp [Exp.dropped, ht'.dropped, hp'.dropped, he'.dropped]⟩

theorem ExpKept.whileLoop {test body : Exp} (ht : ExpKept test) (hb : ExpKept body) :
    ExpKept (.whileLoop m test body) := by
  intro ctx c c' e' hc hs h
  obtain ⟨test', c₁, body', c₂, ty, h₁, h₂, -, rfl⟩ := exists_of_run_whileLoop h
  have hw := (walked_exp hc hs h₁).1
  have ht' := ht hc hs h₁
  have hb' := hb hw.sound ((hs.walked hw).loops _) h₂
  exact ⟨by simp [ht'.blank, hb'.blank], by simp [Exp.dropped, ht'.dropped, hb'.dropped]⟩

theorem ExpKept.doWhile {body test : Exp} (hb : ExpKept body) (ht : ExpKept test) :
    ExpKept (.doWhile m body test) := by
  intro ctx c c' e' hc hs h
  obtain ⟨body', c₁, test', c₂, ty, h₁, h₂, -, rfl⟩ := exists_of_run_doWhile h
  have hw := (walked_exp hc (hs.loops _) h₁).1
  have hb' := hb hc (hs.loops _) h₁
  have ht' := ht hw.sound (hs.walked hw) h₂
  exact ⟨by simp [hb'.blank, ht'.blank], by simp [Exp.dropped, hb'.dropped, ht'.dropped]⟩

theorem ExpKept.forLoop {counter : Ident} {low high body : Exp} {slot : Option VarId} (hl : ExpKept low)
    (hh : ExpKept high) (hb : ExpKept body) : ExpKept (.forLoop m counter low high body slot) := by
  intro ctx c c' e' hc hs h
  obtain ⟨low', c₁, high', c₂, fit, c₃, v, frames, body', c₄, h₁, h₂, -, -, hc₃, hs₃, -, h₄, -, rfl⟩ :=
    exists_of_run_forLoop hc hs h
  have hw := (walked_exp hc hs h₁).1
  have hl' := hl hc hs h₁
  have hh' := hh hw.sound (hs.walked hw) h₂
  have hb' := hb hc₃ hs₃ h₄
  exact ⟨by simp [hl'.blank, hh'.blank, hb'.blank],
    by simp [Exp.dropped, hl'.dropped, hh'.dropped, hb'.dropped]⟩

theorem ExpKept.array {typeName : Ident} {size init : Exp} (hz : ExpKept size) (hi : ExpKept init) :
    ExpKept (.array m typeName size init) := by
  intro ctx c c' e' hc hs h
  obtain ⟨ty, c₁, size', c₂, init', c₃, ty', h₁, h₂, h₃, -, rfl⟩ := exists_of_run_array h
  have hw₁ := (walked_typeOf hc h₁).1
  have hs₁ := hs.walked hw₁
  have hw₂ := (walked_exp hw₁.sound hs₁ h₂).1
  have hz' := hz hw₁.sound hs₁ h₂
  have hi' := hi hw₂.sound (hs₁.walked hw₂) h₃
  exact ⟨by simp [hz'.blank, hi'.blank], by simp [Exp.dropped, hz'.dropped, hi'.dropped]⟩

/-! ## Lists of parts -/

theorem kept_checkEach {es : List Exp} (h : ∀ e ∈ es, ExpKept e) : ∀ {params : List Ty} {c c' : Checker}
    {r : List Exp × Bool}, c.Sound → ctx.Sits c → (checkEach ctx params es).run c = .ok (r, c') →
      blankAll r.1 = blankAll es ∧ droppedAll r.1 = droppedAll es := by
  induction es with
  | nil =>
    intro params c c' r _ _ hrun
    rw [checkEach] at hrun
    cases hrun
    exact ⟨rfl, rfl⟩
  | cons e es ih =>
    intro params c c' r hc hs hrun
    obtain ⟨he, hes⟩ := List.forall_mem_cons.mp h
    obtain ⟨e', c₁, ok, c₂, r', h₁, h₂, h₃, rfl⟩ := exists_of_run_checkEach hrun
    have hw₁ := (walked_exp hc hs h₁).1
    have hw₂ := ((passive_arg _ _).changes _ _ _ h₂).toSays.walked hw₁.sound
    have he' := he hc hs h₁
    obtain ⟨hblank, hdropped⟩ := ih hes hw₂.sound ((hs.walked hw₁).walked hw₂) h₃
    exact ⟨by simp [he'.blank, hblank], by simp [droppedAll, he'.dropped, hdropped]⟩

theorem kept_checkInits {inits : List (Ident × Exp)} {loc : Location} {typeName : String}
    (h : ∀ i ∈ inits, ExpKept i.2) : ∀ {fields : Option (List Field)} {c c' : Checker}
      {r : List (Ident × Exp) × Bool}, c.Sound → ctx.Sits c →
      (checkInits ctx loc typeName fields inits).run c = .ok (r, c') →
      blankInits r.1 = blankInits inits ∧ droppedInits r.1 = droppedInits inits := by
  induction inits with
  | nil =>
    intro fields c c' r _ _ hrun
    rw [checkInits] at hrun
    cases hrun
    exact ⟨rfl, rfl⟩
  | cons i inits ih =>
    intro fields c c' r hc hs hrun
    obtain ⟨name, e⟩ := i
    obtain ⟨he, hes⟩ := List.forall_mem_cons.mp h
    obtain ⟨fields', c₁, e', c₂, ok, c₃, r', h₁, h₂, h₃, h₄, rfl⟩ := exists_of_run_checkInits hrun
    have hw₁ := ((passive_place fields).changes _ _ _ h₁).toSays.walked hc
    have hs₁ := hs.walked hw₁
    have hw₂ := (walked_exp hw₁.sound hs₁ h₂).1
    have hw₃ := ((passive_init _ _).changes _ _ _ h₃).toSays.walked hw₂.sound
    have he' := he hw₁.sound hs₁ h₂
    obtain ⟨hblank, hdropped⟩ := ih hes hw₃.sound ((hs₁.walked hw₂).walked hw₃) h₄
    exact ⟨by simp [he'.blank, hblank], by simp [droppedInits, he'.dropped, hdropped]⟩

theorem ExpKept.seq {items : List Exp} (hi : ∀ e ∈ items, ExpKept e) : ExpKept (.seq m items) := by
  intro ctx c c' e' hc hs h
  obtain ⟨r, h₁, rfl⟩ := exists_of_run_seq h
  obtain ⟨hblank, hdropped⟩ := kept_checkEach hi hc hs h₁
  exact ⟨by simp [hblank], hdropped⟩

theorem ExpKept.record {typeName : Ident} {inits : List (Ident × Exp)} (hi : ∀ i ∈ inits, ExpKept i.2) :
    ExpKept (.record m typeName inits) := by
  intro ctx c c' e' hc hs h
  obtain ⟨ty, c₁, fields, c₂, r, h₁, h₂, h₃, rfl⟩ := exists_of_run_record h
  have hw₁ := (walked_typeOf hc h₁).1
  have hw₂ := ((passive_recordFields ty).changes _ _ _ h₂).toSays.walked hw₁.sound
  obtain ⟨hblank, hdropped⟩ := kept_checkInits hi hw₂.sound ((hs.walked hw₁).walked hw₂) h₃
  exact ⟨by simp [hblank], hdropped⟩

theorem ExpKept.call {callee : Ident} {args : List Exp} {function : Option FunctionId}
    (ha : ∀ e ∈ args, ExpKept e) : ExpKept (.call m callee args function) := by
  intro ctx c c' e' hc hs h
  obtain ⟨target, c₁, r, c₂, ty, h₁, h₂, -, rfl⟩ := exists_of_run_call h
  have htarget : Passive Fault.IsPlain True (Rule.target? callee.name) fun _ => True :=
    passive_target callee.name
  have hw₁ := (htarget.changes _ _ _ h₁).toSays.walked hc
  obtain ⟨hblank, hdropped⟩ := kept_checkEach ha hw₁.sound (hs.walked hw₁) h₂
  exact ⟨by simp [hblank], hdropped⟩

/-! ## Variables -/

theorem VarKept.simple {name : String} {binding : Option VarId} : VarKept (.simple m name binding) := by
  intro ctx c c' v' _ _ h
  obtain ⟨r, -, rfl⟩ := exists_of_run_simple h
  exact ⟨rfl, rfl⟩

theorem VarKept.field {base : Var} {name : Ident} {position : Option ℕ} (hb : VarKept base) :
    VarKept (.field m base name position) := by
  intro ctx c c' v' hc hs h
  obtain ⟨base', c₁, r, h₁, -, rfl⟩ := exists_of_run_field h
  have hb' := hb hc hs h₁
  exact ⟨by simp [hb'.blank], hb'.dropped⟩

theorem VarKept.element {base : Var} {index : Exp} (hb : VarKept base) (hi : ExpKept index) :
    VarKept (.element m base index) := by
  intro ctx c c' v' hc hs h
  obtain ⟨base', c₁, index', c₂, ty, h₁, h₂, -, rfl⟩ := exists_of_run_element h
  have hw := (walked_var hc hs h₁).1
  have hb' := hb hc hs h₁
  have hi' := hi hw.sound (hs.walked hw) h₂
  exact ⟨by simp [hb'.blank, hi'.blank], by simp [Var.dropped, hb'.dropped, hi'.dropped]⟩

/-! ## Declarations -/

namespace OpenRun.Keeps

variable {k : Dec.Kind} {seen : List String} {d d' : Dec} {ds ds' : List Dec}

theorem refl (o : OpenRun) (ds : List Dec) : o.Keeps ds ds := ⟨rfl, rfl⟩

/-- A declaration whose name occurred before is left as it is. -/
theorem skip (h : Keeps ⟨some k, seen⟩ ds ds') (hk : d.kind = k) (hmem : d.name.name ∈ seen) :
    Keeps ⟨some k, seen⟩ (d :: ds) (d :: ds') where
  blank := by simp [h.blank]
  dropped := by rw [droppedDecs_of_mem hk hmem, droppedDecs_of_mem hk hmem, h.dropped]

/-- Of another declaration the live cells may be different. -/
theorem cons (h : Keeps ⟨some k, d.name.name :: seen⟩ ds ds') (hd : d.Keeps d') (hk : d.kind = k)
    (hmem : d.name.name ∉ seen) : Keeps ⟨some k, seen⟩ (d :: ds) (d' :: ds') where
  blank := by simp [h.blank, hd.blank]
  dropped := by
    have hname := Dec.name_eq_of_blank hd.blank
    rw [droppedDecs_of_not_mem hk hmem, droppedDecs_of_not_mem ((Dec.kind_eq_of_blank hd.blank).trans hk)
      (by rw [hname]; exact hmem), hname, h.dropped, hd.dropped]

/-- The first declaration is of the same kind. -/
theorem exists_cons {o : OpenRun} {es : List Dec} (h : o.Keeps (d :: ds) es) :
    ∃ d' ds', es = d' :: ds' ∧ d'.kind = d.kind := by
  have hblank := h.blank
  cases es with
  | nil => cases hblank
  | cons d' ds' => exact ⟨d', ds', rfl, Dec.kind_eq_of_blank (List.cons.inj hblank).1⟩

end OpenRun.Keeps

/-- The bodies of a run of functions are kept. -/
theorem kept_functionBodies {c₀ : Checker} {plans : List Plan} {ds : List Dec} {seen : List String}
    (hc₀ : c₀.Sound) (hp : Planned ctx c₀ seen plans ds) (h : ∀ d ∈ ds, d.Parts ExpKept) :
    ∀ {c c' : Checker} {r : List Dec × Bool}, c₀.Walked c → ctx.Sits c →
      (checkPlanned ctx plans ds).run c = .ok (r, c') → OpenRun.Keeps ⟨some .function, seen⟩ ds r.1 := by
  induction hp with
  | nil =>
    intro c c' r _ _ hrun
    cases hrun
    exact .refl _ _
  | dropped hk hseen _ ih =>
    intro c c' r hw hs hrun
    obtain ⟨-, hparts⟩ := List.forall_mem_cons.mp h
    obtain ⟨rs, h₁, rfl⟩ := exists_of_run_dropped hrun
    exact (ih hparts hw hs h₁).skip hk hseen
  | @body seen g plans head body loc id ds hseen hfits _ ih =>
    intro c c' r hw hs hrun
    obtain ⟨hpart, hparts⟩ := List.forall_mem_cons.mp h
    have hfits := hfits.extends hc₀.rest hw.grown hw.scopes.typeNames_eq
    obtain ⟨r₁, c₁, rs, h₁, h₂, rfl⟩ := exists_of_run_checkPlanned hrun
    have hw₁ := walked_functionBody hw.sound hs hfits h₁
    obtain ⟨body', c₃, frames, ok, h₃, -, -, rfl⟩ := exists_of_run_bodyOf hw.sound hs hfits h₁
    have hbody := hpart (hw.sound.withValues _) (hfits.sits_inBody hs) h₃
    have hd : (Dec.function head body loc id).Keeps (.function head body' loc (some g.id)) :=
      ⟨by simp [hbody.blank], hbody.dropped⟩
    exact (ih hparts (hw.trans hw₁) (hs.walked hw₁) h₂).cons (d := .function head body loc id) hd rfl hseen

/-- The initializers of a run of variables are kept. -/
theorem kept_variables {first : ℕ} {ds : List Dec} (hk : ∀ d ∈ ds, d.kind = .var)
    (h : ∀ d ∈ ds, d.Parts ExpKept) : ∀ {seen : List String} {c c' : Checker} {r : List Dec × Bool},
      c.Sound → ctx.Sits c → c.BoundFrom first seen →
      (checkPlanned ctx (ds.map fun _ => .variable first) ds).run c = .ok (r, c') →
      OpenRun.Keeps ⟨some .var, seen⟩ ds r.1 := by
  induction ds with
  | nil =>
    intro seen c c' r _ _ _ hrun
    cases hrun
    exact .refl _ _
  | cons d ds ih =>
    intro seen c c' r hc hs hb hrun
    obtain ⟨hkind, hkinds⟩ := List.forall_mem_cons.mp hk
    obtain ⟨hpart, hparts⟩ := List.forall_mem_cons.mp h
    cases d with
    | type => cases hkind
    | function => cases hkind
    | var name typeName init loc slot =>
      obtain ⟨r₁, c₁, rs, h₁, h₂, rfl⟩ := exists_of_run_checkPlanned hrun
      have hd₁ := declared_variable hc hs h₁
      by_cases hmem : name.name ∈ seen
      · obtain ⟨rfl, rfl⟩ := eq_of_run_again hb hmem h₁
        have hw := Checker.walked_reported hc (.duplicateDefinition name.name) name.loc
        exact (ih hkinds hparts hd₁.sound hd₁.sits (hb.walked hw) h₂).skip rfl hmem
      · have hb₁ := boundFrom_of_run hc hs hb hmem h₁
        obtain ⟨init', c₃, d, c₄, v, frames, h₃, -, -, -, rfl⟩ := exists_of_run_newVariable hb hmem h₁
        have hinit := hpart hc hs h₃
        have hd : (Dec.var name typeName init loc slot).Keeps (.var name typeName init' loc (some v)) :=
          ⟨by simp [hinit.blank], hinit.dropped⟩
        exact (ih hkinds hparts hd₁.sound hd₁.sits hb₁ h₂).cons (d := .var name typeName init loc slot) hd rfl
          hmem

/-- **The declarations of a run are kept**, of whatever kind they are. -/
theorem kept_run {d : Dec} {run : List Dec} {c₁ : Checker} {plans : List Plan} {r : List Dec × Bool}
    (hk : ∀ e ∈ d :: run, e.kind = d.kind) (h : ∀ e ∈ d :: run, e.Parts ExpKept) (hc : c.Sound)
    (hs : ctx.Sits c) (hopen : (openRun ctx (d :: run)).run c = .ok (plans, c₁))
    (hrun : (checkPlanned ctx plans (d :: run)).run c₁ = .ok (r, c')) :
    OpenRun.Keeps ⟨some d.kind, []⟩ (d :: run) r.1 := by
  have hw := Checker.walked_note hc (.run d.kind (run.length + 1))
  cases hkind : d.kind with
  | type =>
    rw [hkind] at hk
    obtain ⟨t, ts, hts⟩ := exists_map_type_of_kind hk
    rw [hts] at hopen hrun ⊢
    rw [(((yields_typeRun hc hs t ts).of_run hopen).2.of_run hrun).1]
    exact .refl _ _
  | function =>
    rw [hkind] at hk
    have hb := bindsFunctions_of_openRun hk hc hs hopen
    have hd := hb.declared hw.sound (hs.walked hw)
    exact kept_functionBodies hd.sound (hb.planned hk hw.sound (hs.walked hw)) h (.refl hd.sound) hd.sits hrun
  | var =>
    rw [hkind] at hk
    obtain ⟨rfl, rfl⟩ := eq_of_run_openRun hkind hopen
    exact kept_variables hk h hw.sound (hs.walked hw) (.opened (hs.walked hw)) hrun

/-- **The declarations of a block are kept**, run by run. -/
theorem kept_checkDecs : ∀ ds : List Dec, (∀ d ∈ ds, d.Parts ExpKept) → ∀ {o : OpenRun} {c c' : Checker}
    {r : List Dec × Bool}, o.Ends ds → c.Sound → ctx.Sits c → (checkDecs ctx [] ds).run c = .ok (r, c') →
    o.Keeps ds r.1
  | [], _, o, c, c', r, _, _, _, hrun => by
    rw [checkDecs] at hrun
    cases hrun
    exact .refl _ _
  | d :: ds, h, o, c, c', r, ho, hc, hs, hrun => by
    have hsplit : d :: ds = Dec.leadingRun (d :: ds) ++ ds.dropWhile (Dec.sameKind d) := by
      simp [Dec.leadingRun]
    have hk : ∀ e ∈ Dec.leadingRun (d :: ds), e.kind = d.kind := fun e he => kind_of_mem_leadingRun he
    obtain ⟨plans, c₁, r₁, c₂, r₂, hopen, hplanned, hrest, rfl⟩ := exists_of_run_checkDecs hrun
    have hkept := kept_run hk (fun e he => h e (hsplit ▸ List.mem_append_left _ he)) hc hs hopen hplanned
    have hd₂ := declared_run hk hc hs hopen hplanned
    have hkind : (o.after r₁.1).kind = some d.kind := by
      rw [OpenRun.after_eq_of_blank hkept.blank]
      exact OpenRun.kind_after hk
    have hkept' := kept_checkDecs (ds.dropWhile (Dec.sameKind d)) (fun e he =>
      h e (List.mem_cons_of_mem _ (List.dropWhile_subset _ he))) (OpenRun.ends_dropWhile hkind ds) hd₂.sound
      hd₂.sits hrest
    have hprev := ho d rfl
    obtain ⟨d', ds', hr₁, hd'⟩ := hkept.exists_cons
    have hopens : droppedDecs o r₁.1 = droppedDecs o (Dec.leadingRun (d :: ds)) := by
      rw [hr₁, droppedDecs_opens (hd' ▸ hprev), hd', ← hr₁, hkept.dropped]
      exact (droppedDecs_opens hprev).symm
    constructor
    · rw [blankDecs_append, hkept.blank, hkept'.blank, ← blankDecs_append]
      exact congrArg blankDecs hsplit.symm
    · rw [droppedDecs_append, hkept'.dropped, hopens, OpenRun.after_eq_of_blank hkept.blank]
      exact (droppedDecs_append ..).symm.trans (congrArg (droppedDecs o) hsplit.symm)
termination_by ds => ds.length
decreasing_by
  exact Nat.lt_succ_of_le (List.length_dropWhile_le _ ds)

theorem ExpKept.letIn {decs : List Dec} {body : Exp} (hd : ∀ d ∈ decs, d.Parts ExpKept) (hb : ExpKept body) :
    ExpKept (.letIn m decs body) := by
  intro ctx c c' e' hc hs h
  obtain ⟨r, c₁, body', c₂, h₁, h₂, hdecl, -, -, rfl⟩ := exists_of_run_letIn hc hs h
  have hends : OpenRun.Ends {} decs := by
    rintro d - ⟨⟩
  have hdecs := kept_checkDecs decs hd hends hc.entered hs.entered h₁
  have hbody := hb hdecl.sound hdecl.sits h₂
  exact ⟨by simp [hdecs.blank, hbody.blank], by simp [Exp.dropped, hdecs.dropped, hbody.dropped]⟩

/-! ## Every expression -/

theorem keptCases : Tree.Cases ExpKept VarKept (Dec.Parts ExpKept) where
  var _ _ h := .var h
  nil _ := .nil
  int _ _ := .int
  string _ _ := .string
  call _ _ _ _ h := .call h
  binary _ _ _ _ hl hr := .binary hl hr
  record _ _ _ h := .record h
  seq _ _ h := .seq h
  assign _ _ _ ht hv := .assign ht hv
  condNone _ _ _ ht hp := .condNone ht hp
  condSome _ _ _ _ ht hp he := .condSome ht hp he
  whileLoop _ _ _ ht hb := .whileLoop ht hb
  doWhile _ _ _ hb ht := .doWhile hb ht
  forLoop _ _ _ _ _ _ hl hh hb := .forLoop hl hh hb
  breakLoop _ := .breakLoop
  letIn _ _ _ hd hb := .letIn hd hb
  array _ _ _ _ hz hi := .array hz hi
  simple _ _ _ := .simple
  field _ _ _ _ hb := .field hb
  element _ _ _ hb hi := .element hb hi
  type _ := trivial
  function _ _ _ _ hb := hb
  varDec _ _ _ _ _ hi := hi

/-- **The check of every expression leaves everything but the cells of live nodes alone.** -/
theorem expKept (e : Exp) : ExpKept e := keptCases.all.1 e

end TigerCheck
