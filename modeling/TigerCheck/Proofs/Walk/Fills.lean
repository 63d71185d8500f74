import TigerCheck.Proofs.Restores
import TigerCheck.Proofs.Tree.Holders
import TigerCheck.Proofs.Walk.Kept

/-!
# The slots of a frame and their holders

The check of an expression appends slots to the frame of the code it stands in: one for each live holder, in
the order of the holders, under the holder's name, and the holder's cell gets the slot. Nothing else goes
there. What the functions in the expression declare goes to frames of their own.

* `FrameTable.Fills`: slots are appended to a frame, and each has its holder.
* `FrameTable.Fills.moves`: an action that leaves the frame alone.
* `ExpFills`, `VarFills`: the check of an expression, and of a variable.
* `fills_plain`, `fills_variables`, `fills_checkDecs`: declarations.
* **`expFills`**: every expression.
-/

namespace TigerCheck

open Check

namespace FrameTable

variable {f : FrameId} {hs hs' : List Holder} {h : Holder} {v : VarId} {t t' t'' : FrameTable}

/-- The cell of a holder has a slot of the holder's name. -/
def Holds (t : FrameTable) (h : Holder) (v : VarId) : Prop :=
  h.slot = some v ∧ ∃ s, t.vars[v.index]? = some s ∧ s.name = h.name

/-- Slots are appended to a frame, one for each of some holders. -/
structure Fills (f : FrameId) (hs : List Holder) (t t' : FrameTable) : Prop where
  vars : ∀ (v : VarId) s, t.vars[v.index]? = some s → t'.vars[v.index]? = some s
  frame : ∃ fr vs, t.frames[f.index]? = some fr ∧
    t'.frames[f.index]? = some { fr with slots := fr.slots ++ vs.toArray } ∧ List.Forall₂ t'.Holds hs vs

theorem Holds.mono (hv : t.Holds h v)
    (hvars : ∀ (v : VarId) s, t.vars[v.index]? = some s → t'.vars[v.index]? = some s) : t'.Holds h v := by
  obtain ⟨hslot, s, hs, hname⟩ := hv
  exact ⟨hslot, s, hvars v s hs, hname⟩

theorem Fills.refl {fr : Frame} (hf : t.frames[f.index]? = some fr) : t.Fills f [] t where
  vars _ _ hs := hs
  frame := ⟨fr, [], hf, by simpa using hf, .nil⟩

/-- One after another. -/
theorem Fills.trans (h : t.Fills f hs t') (h' : t'.Fills f hs' t'') : t.Fills f (hs ++ hs') t'' where
  vars v s hs := h'.vars v s (h.vars v s hs)
  frame := by
    obtain ⟨fr, vs, hfr, hfr', hvs⟩ := h.frame
    obtain ⟨fr₁, ws, hfr₁, hfr'', hws⟩ := h'.frame
    obtain rfl := Option.some.inj (hfr₁.symm.trans hfr')
    refine ⟨fr, vs ++ ws, hfr, by simpa using hfr'', ?_⟩
    exact List.rel_append (hvs.imp fun _ _ hv => hv.mono h'.vars) hws

/-- The frame is in the table. -/
theorem Fills.lt (h : t.Fills f hs t') : f.index < t'.frames.size := by
  obtain ⟨_, _, -, hfr, -⟩ := h.frame
  exact (Array.getElem?_eq_some_iff.mp hfr).1

theorem fills_alloc {name : String} {ty : Option Ty} {kind : SlotKind}
    (h : t.alloc f name ty kind = .ok (v, t')) : t.Fills f [⟨name, some v⟩] t' := by
  obtain ⟨happends, rfl, -, -, -, s, hs, hname, -, -⟩ := appends_of_alloc h
  obtain ⟨hlt, -, ht'⟩ := alloc_eq h
  refine ⟨fun w s hw => ?_, _, [⟨t.vars.size⟩], Array.getElem?_eq_getElem hlt,
    happends.frame _ (Array.getElem?_eq_getElem hlt), .cons ⟨rfl, s, hs, hname⟩ .nil⟩
  have hne : w.index ≠ t.vars.size := Nat.ne_of_lt (Array.getElem?_eq_some_iff.mp hw).1
  rw [ht', Array.getElem?_push, if_neg hne, hw]

end FrameTable

/-- Another action leaves the frame alone. -/
theorem FrameTable.Fills.moves {α : Type} {f : FrameId} {hs : List Holder} {t : FrameTable} {c c' : Checker}
    {m : Check α} {S : Checker → Checker → Prop} {P : α → Prop} {a : α} (h : t.Fills f hs c.frames)
    (hm : Moves (f.index + 1) ⟨f.index + 1⟩ S m P) (hrun : m.run c = .ok (a, c')) :
    t.Fills f hs c'.frames := by
  obtain ⟨hleaves, -, -⟩ := hm h.lt hrun
  have hne : f ≠ ⟨f.index + 1⟩ := fun heq => Nat.succ_ne_self _ (congrArg FrameId.index heq).symm
  obtain ⟨fr, vs, hfr, hfr', hvs⟩ := h.frame
  have hvars : ∀ (v : VarId) s, c.frames.vars[v.index]? = some s → c'.frames.vars[v.index]? = some s := by
    intro v s hs
    obtain ⟨rest, hrest⟩ := hleaves.slots
    rw [← Array.getElem?_toList] at hs ⊢
    rw [← hrest, List.getElem?_append_left (List.getElem?_eq_some_iff.mp hs).1, hs]
  exact ⟨fun v s hs => hvars v s (h.vars v s hs), fr, vs, hfr,
    (hleaves.frames.others f (Nat.lt_succ_self _) hne h.lt).trans hfr', hvs.imp fun _ _ hv => hv.mono hvars⟩

/-- So does an action that reports faults and does nothing else. -/
theorem FrameTable.Fills.passive {α : Type} {f : FrameId} {hs : List Holder} {t : FrameTable} {c c' : Checker}
    {m : Check α} {P : α → Prop} {F : Fault → Prop} {ok : Prop} {a : α} (h : t.Fills f hs c.frames)
    (hm : Passive F ok m P) (hrun : m.run c = .ok (a, c')) : t.Fills f hs c'.frames :=
  h.moves (restores_of_passive hm) hrun

/-! ## Expressions -/

/-- The check of an expression fills the frame it stands in. -/
def ExpFills (e : Exp) : Prop :=
  ∀ ⦃ctx : Context⦄ ⦃c c' : Checker⦄ ⦃e' : Exp⦄, c.Sound → ctx.Sits c →
    (checkExp ctx e).run c = .ok (e', c') → c.frames.Fills ctx.frame e'.live.holders c'.frames

/-- The check of a variable fills the frame it stands in. -/
def VarFills (v : Var) : Prop :=
  ∀ ⦃ctx : Context⦄ ⦃c c' : Checker⦄ ⦃v' : Var⦄, c.Sound → ctx.Sits c →
    (checkVar ctx v).run c = .ok (v', c') → c.frames.Fills ctx.frame v'.live.holders c'.frames

variable {ctx : Context} {c c' : Checker} {m : Mark}

theorem Context.Sits.fills (hs : ctx.Sits c) : c.frames.Fills ctx.frame [] c.frames := by
  obtain ⟨fr, hfr, -⟩ := hs.frame
  exact .refl hfr

theorem ExpFills.var {v : Var} (hv : VarFills v) : ExpFills (.var m v) := by
  intro ctx c c' e' hc hs h
  obtain ⟨v', h₁, rfl⟩ := exists_of_run_var h
  exact hv hc hs h₁

theorem ExpFills.nil : ExpFills (.nil m) := by
  intro ctx c c' e' _ hs h
  obtain ⟨rfl, rfl⟩ := eq_of_run_nil h
  exact hs.fills

theorem ExpFills.int {n : Int64} : ExpFills (.int m n) := by
  intro ctx c c' e' _ hs h
  obtain ⟨rfl, rfl⟩ := eq_of_run_int h
  exact hs.fills

theorem ExpFills.string {s : String} : ExpFills (.string m s) := by
  intro ctx c c' e' _ hs h
  obtain ⟨rfl, rfl⟩ := eq_of_run_string h
  exact hs.fills

theorem ExpFills.breakLoop : ExpFills (.breakLoop m) := by
  intro ctx c c' e' _ hs h
  rcases exists_of_run_breakLoop h with ⟨-, rfl, rfl⟩ | ⟨-, rfl, rfl⟩
  · exact hs.fills
  · exact hs.fills

theorem ExpFills.binary {op : BinOp} {left right : Exp} (hl : ExpFills left) (hr : ExpFills right) :
    ExpFills (.binary m op left right) := by
  intro ctx c c' e' hc hs h
  obtain ⟨left', c₁, right', c₂, ty, h₁, h₂, h₃, rfl⟩ := exists_of_run_binary h
  have hw := (walked_exp hc hs h₁).1
  exact ((hl hc hs h₁).trans (hr hw.sound (hs.walked hw) h₂)).passive (passive_binary _ _) h₃

theorem ExpFills.assign {target : Var} {value : Exp} (ht : VarFills target) (hv : ExpFills value) :
    ExpFills (.assign m target value) := by
  intro ctx c c' e' hc hs h
  obtain ⟨target', c₁, value', c₂, ty, h₁, h₂, h₃, rfl⟩ := exists_of_run_assign h
  have hw := (walked_var hc hs h₁).1
  exact ((ht hc hs h₁).trans (hv hw.sound (hs.walked hw) h₂)).passive (passive_assign _ _) h₃

theorem ExpFills.condNone {test thenPart : Exp} (ht : ExpFills test) (hp : ExpFills thenPart) :
    ExpFills (.cond m test thenPart none) := by
  intro ctx c c' e' hc hs h
  obtain ⟨test', c₁, then', c₂, ty, h₁, h₂, h₃, rfl⟩ := exists_of_run_condNone h
  have hw := (walked_exp hc hs h₁).1
  exact ((ht hc hs h₁).trans (hp hw.sound (hs.walked hw) h₂)).passive (passive_cond _ _ _) h₃

theorem ExpFills.condSome {test thenPart elsePart : Exp} (ht : ExpFills test) (hp : ExpFills thenPart)
    (he : ExpFills elsePart) : ExpFills (.cond m test thenPart (some elsePart)) := by
  intro ctx c c' e' hc hs h
  obtain ⟨test', c₁, then', c₂, else', c₃, ty, h₁, h₂, h₃, h₄, rfl⟩ := exists_of_run_condSome h
  have hw := (walked_exp hc hs h₁).1
  have hs₁ := hs.walked hw
  have hw₂ := (walked_exp hw.sound hs₁ h₂).1
  exact (((ht hc hs h₁).trans (hp hw.sound hs₁ h₂)).trans (he hw₂.sound (hs₁.walked hw₂) h₃)).passive
    (passive_cond _ _ _) h₄

theorem ExpFills.whileLoop {test body : Exp} (ht : ExpFills test) (hb : ExpFills body) :
    ExpFills (.whileLoop m test body) := by
  intro ctx c c' e' hc hs h
  obtain ⟨test', c₁, body', c₂, ty, h₁, h₂, h₃, rfl⟩ := exists_of_run_whileLoop h
  have hw := (walked_exp hc hs h₁).1
  have hbody := hb hw.sound ((hs.walked hw).loops _) h₂
  exact ((ht hc hs h₁).trans hbody).passive (passive_loop _ _) h₃

theorem ExpFills.doWhile {body test : Exp} (hb : ExpFills body) (ht : ExpFills test) :
    ExpFills (.doWhile m body test) := by
  intro ctx c c' e' hc hs h
  obtain ⟨body', c₁, test', c₂, ty, h₁, h₂, h₃, rfl⟩ := exists_of_run_doWhile h
  have hw := (walked_exp hc (hs.loops _) h₁).1
  have hbody := hb hc (hs.loops _) h₁
  have htest := ht hw.sound (hs.walked hw) h₂
  exact (hbody.trans htest).passive (passive_loop _ _) h₃

/-- The counter gets its slot between the bounds and the body. -/
theorem ExpFills.forLoop {counter : Ident} {low high body : Exp} {slot : Option VarId} (hl : ExpFills low)
    (hh : ExpFills high) (hb : ExpFills body) : ExpFills (.forLoop m counter low high body slot) := by
  intro ctx c c' e' hc hs h
  obtain ⟨low', c₁, high', c₂, fit, c₃, v, frames, body', c₄, h₁, h₂, h₃, halloc, hc₃, hs₃, -, h₄, rfl, rfl⟩ :=
    exists_of_run_forLoop hc hs h
  have hw := (walked_exp hc hs h₁).1
  have hbounds := ((hl hc hs h₁).trans (hh hw.sound (hs.walked hw) h₂)).passive (passive_bounds _ _) h₃
  have hbody := hb hc₃ hs₃ h₄
  exact (hbounds.trans (FrameTable.fills_alloc halloc)).trans hbody

theorem ExpFills.array {typeName : Ident} {size init : Exp} (hz : ExpFills size) (hi : ExpFills init) :
    ExpFills (.array m typeName size init) := by
  intro ctx c c' e' hc hs h
  obtain ⟨ty, c₁, size', c₂, init', c₃, ty', h₁, h₂, h₃, h₄, rfl⟩ := exists_of_run_array h
  have hw₁ := (walked_typeOf hc h₁).1
  have hs₁ := hs.walked hw₁
  have hw₂ := (walked_exp hw₁.sound hs₁ h₂).1
  have htype := hs.fills.moves (restores_typeOf typeName) h₁
  exact ((htype.trans (hz hw₁.sound hs₁ h₂)).trans (hi hw₂.sound (hs₁.walked hw₂) h₃)).passive
    (passive_array _ _ _) h₄

/-! ## Lists of parts -/

theorem fills_checkEach {es : List Exp} (h : ∀ e ∈ es, ExpFills e) : ∀ {params : List Ty} {c c' : Checker}
    {r : List Exp × Bool}, c.Sound → ctx.Sits c → (checkEach ctx params es).run c = .ok (r, c') →
      c.frames.Fills ctx.frame (holdersAll (liveAll r.1)) c'.frames := by
  induction es with
  | nil =>
    intro params c c' r _ hs hrun
    rw [checkEach] at hrun
    cases hrun
    exact hs.fills
  | cons e es ih =>
    intro params c c' r hc hs hrun
    obtain ⟨he, hes⟩ := List.forall_mem_cons.mp h
    obtain ⟨e', c₁, ok, c₂, r', h₁, h₂, h₃, rfl⟩ := exists_of_run_checkEach hrun
    have hw₁ := (walked_exp hc hs h₁).1
    have hw₂ := ((passive_arg _ _).changes _ _ _ h₂).toSays.walked hw₁.sound
    have hitem := (he hc hs h₁).passive (passive_arg _ _) h₂
    exact hitem.trans (ih hes hw₂.sound ((hs.walked hw₁).walked hw₂) h₃)

theorem fills_checkInits {inits : List (Ident × Exp)} {loc : Location} {typeName : String}
    (h : ∀ i ∈ inits, ExpFills i.2) : ∀ {fields : Option (List Field)} {c c' : Checker}
      {r : List (Ident × Exp) × Bool}, c.Sound → ctx.Sits c →
      (checkInits ctx loc typeName fields inits).run c = .ok (r, c') →
      c.frames.Fills ctx.frame (holdersInits (liveInits r.1)) c'.frames := by
  induction inits with
  | nil =>
    intro fields c c' r _ hs hrun
    rw [checkInits] at hrun
    cases hrun
    exact hs.fills
  | cons i inits ih =>
    intro fields c c' r hc hs hrun
    obtain ⟨name, e⟩ := i
    obtain ⟨he, hes⟩ := List.forall_mem_cons.mp h
    obtain ⟨fields', c₁, e', c₂, ok, c₃, r', h₁, h₂, h₃, h₄, rfl⟩ := exists_of_run_checkInits hrun
    have hw₁ := ((passive_place fields).changes _ _ _ h₁).toSays.walked hc
    have hs₁ := hs.walked hw₁
    have hw₂ := (walked_exp hw₁.sound hs₁ h₂).1
    have hw₃ := ((passive_init _ _).changes _ _ _ h₃).toSays.walked hw₂.sound
    have hplace := hs.fills.passive (passive_place fields) h₁
    have hinit := (hplace.trans (he hw₁.sound hs₁ h₂)).passive (passive_init _ _) h₃
    exact hinit.trans (ih hes hw₃.sound ((hs₁.walked hw₂).walked hw₃) h₄)

theorem ExpFills.seq {items : List Exp} (hi : ∀ e ∈ items, ExpFills e) : ExpFills (.seq m items) := by
  intro ctx c c' e' hc hs h
  obtain ⟨r, h₁, rfl⟩ := exists_of_run_seq h
  exact fills_checkEach hi hc hs h₁

theorem ExpFills.record {typeName : Ident} {inits : List (Ident × Exp)} (hi : ∀ i ∈ inits, ExpFills i.2) :
    ExpFills (.record m typeName inits) := by
  intro ctx c c' e' hc hs h
  obtain ⟨ty, c₁, fields, c₂, r, h₁, h₂, h₃, rfl⟩ := exists_of_run_record h
  have hw₁ := (walked_typeOf hc h₁).1
  have hw₂ := ((passive_recordFields ty).changes _ _ _ h₂).toSays.walked hw₁.sound
  have htype := (hs.fills.moves (restores_typeOf typeName) h₁).passive (passive_recordFields ty) h₂
  exact htype.trans (fills_checkInits hi hw₂.sound ((hs.walked hw₁).walked hw₂) h₃)

theorem ExpFills.call {callee : Ident} {args : List Exp} {function : Option FunctionId}
    (ha : ∀ e ∈ args, ExpFills e) : ExpFills (.call m callee args function) := by
  intro ctx c c' e' hc hs h
  obtain ⟨target, c₁, r, c₂, ty, h₁, h₂, h₃, rfl⟩ := exists_of_run_call h
  obtain rfl := eq_of_run_target hc h₁
  have hcall : Passive anyFault (r.2 = true) (Rule.call m.loc callee target r.1.length r.2) (· ≠ none) :=
    passive_call (fun _ _ => trivial) target fun _ => trivial
  exact (fills_checkEach ha hc hs h₂).passive hcall h₃

/-! ## Variables -/

theorem VarFills.simple {name : String} {binding : Option VarId} : VarFills (.simple m name binding) := by
  intro ctx c c' v' _ hs h
  obtain ⟨r, h₁, rfl⟩ := exists_of_run_simple h
  have hrule : Passive anyFault True (Rule.simple m.loc name) (·.2 ≠ none) := passive_simple trivial
  exact hs.fills.passive hrule h₁

theorem VarFills.field {base : Var} {name : Ident} {position : Option ℕ} (hb : VarFills base) :
    VarFills (.field m base name position) := by
  intro ctx c c' v' hc hs h
  obtain ⟨base', c₁, r, h₁, h₂, rfl⟩ := exists_of_run_field h
  exact (hb hc hs h₁).passive (passive_field _) h₂

theorem VarFills.element {base : Var} {index : Exp} (hb : VarFills base) (hi : ExpFills index) :
    VarFills (.element m base index) := by
  intro ctx c c' v' hc hs h
  obtain ⟨base', c₁, index', c₂, ty, h₁, h₂, h₃, rfl⟩ := exists_of_run_element h
  have hw := (walked_var hc hs h₁).1
  exact ((hb hc hs h₁).trans (hi hw.sound (hs.walked hw) h₂)).passive (passive_element _ _) h₃

/-! ## Types and functions -/

section

variable {n : ℕ}

/-- What is planned for a type or a function leaves all frames alone that were there before. -/
theorem moves_plain {plan : Plan} {d : Dec} (hd : d.kind ≠ .var) (hplan : plan.Later n) :
    Moves n ⟨n⟩ Checker.SameOuter (checkDec ctx plan d) fun _ => True := by
  cases plan with
  | dropped =>
    rw [checkDec_dropped]
    exact .pure trivial
  | typeBody id =>
    cases d with
    | type dec =>
      rw [checkDec]
      exact ((restores_typeAt id).mono (·.outer) fun _ h => h).andThen fun ty => .pure trivial
    | function | var => exact .pure trivial
  | functionBody header =>
    cases d with
    | function head body loc id =>
      have hbody : Restores n ⟨n⟩ (checkDec ⟨0, ⟨n⟩, 0⟩ (.functionBody header) (.function head body loc id)) :=
        restores_functionBody (restores_exp body) hplan
      rw [checkDec] at hbody ⊢
      exact hbody.mono (·.outer) fun _ h => h
    | type | var => exact .pure trivial
  | «variable» first =>
    cases d with
    | type | function => exact .pure trivial
    | var => exact absurd rfl hd

theorem moves_plainPlanned : ∀ {plans : List Plan} {ds : List Dec}, (∀ d ∈ ds, d.kind ≠ .var) →
    (∀ p ∈ plans, p.Later n) →
    Moves n ⟨n⟩ Checker.SameOuter (checkPlanned ctx plans ds) fun _ => True
  | [], _, _, _ => by
    rw [checkPlanned]
    · exact .pure trivial
    · exact fun _ _ _ _ h => by cases h
  | _ :: _, [], _, _ => by
    rw [checkPlanned]
    · exact .pure trivial
    · exact fun _ _ _ _ _ h => by cases h
  | plan :: plans, d :: ds, hds, hplans => by
    obtain ⟨hd, hds⟩ := List.forall_mem_cons.mp hds
    obtain ⟨hplan, hplans⟩ := List.forall_mem_cons.mp hplans
    rw [checkPlanned]
    exact (moves_plain hd hplan).andThen fun _ => (moves_plainPlanned hds hplans).andThen fun _ => .pure trivial

end

/-- **Types and functions hold no slot of the frame around them.** -/
theorem fills_plain {run : List Dec} {c₁ : Checker} {plans : List Plan} {r : List Dec × Bool}
    (hk : ∀ d ∈ run, d.kind ≠ .var) (hs : ctx.Sits c) (hopen : (openRun ctx run).run c = .ok (plans, c₁))
    (hrun : (checkPlanned ctx plans run).run c₁ = .ok (r, c')) :
    c.frames.Fills ctx.frame [] c'.frames := by
  have hplans : ∀ p ∈ plans, p.Later (ctx.frame.index + 1) :=
    (moves_openRun (f := ⟨ctx.frame.index + 1⟩) run hs.fills.lt hopen).2.2
  have hopened := hs.fills.moves (moves_openRun run) hopen
  exact hopened.moves (moves_plainPlanned hk hplans) hrun

/-! ## Variables of a block -/

/-- **A new variable gets its slot behind its initializer**; one whose name occurs earlier in the run gets
none. -/
theorem fills_variables {first : ℕ} {ds : List Dec} (hk : ∀ d ∈ ds, d.kind = .var)
    (h : ∀ d ∈ ds, d.Parts ExpFills) : ∀ {seen : List String} {c c' : Checker} {r : List Dec × Bool},
      c.Sound → ctx.Sits c → c.BoundFrom first seen →
      (checkPlanned ctx (ds.map fun _ => .variable first) ds).run c = .ok (r, c') →
      c.frames.Fills ctx.frame (holdersDecs (liveDecs ⟨some .var, seen⟩ r.1)) c'.frames := by
  induction ds with
  | nil =>
    intro seen c c' r _ hs _ hrun
    cases hrun
    exact hs.fills
  | cons d ds ih =>
    intro seen c c' r hc hs hb hrun
    obtain ⟨hkind, hkinds⟩ := List.forall_mem_cons.mp hk
    obtain ⟨hpart, hparts⟩ := List.forall_mem_cons.mp h
    cases d with
    | type => cases hkind
    | function => cases hkind
    | var name typeName init loc slot =>
      obtain ⟨r₁, c₁, rs, h₁, h₂, rfl⟩ := exists_of_run_checkPlanned hrun
      have hd₁ := declared_variable hc hs h₁
      by_cases hmem : name.name ∈ seen
      · obtain ⟨rfl, rfl⟩ := eq_of_run_again hb hmem h₁
        have hw := Checker.walked_reported hc (.duplicateDefinition name.name) name.loc
        have hrest := ih hkinds hparts hd₁.sound hd₁.sits (hb.walked hw) h₂
        dsimp only
        rw [liveDecs_of_mem (k := .var) (d := .var name typeName init loc slot) rfl hmem]
        exact hrest
      · have hb₁ := boundFrom_of_run hc hs hb hmem h₁
        obtain ⟨init', c₂, d, c₃, v, frames, h₃, h₄, halloc, rfl, rfl⟩ := exists_of_run_newVariable hb hmem h₁
        have hinit := (hpart hc hs h₃).moves (restores_declared typeName _ _) h₄
        dsimp only
        rw [liveDecs_var hmem]
        exact (hinit.trans (FrameTable.fills_alloc halloc)).trans
          (ih hkinds hparts hd₁.sound hd₁.sits hb₁ h₂)

/-! ## Declarations -/

/-- The declarations of a run, of whatever kind they are. -/
theorem fills_run {d : Dec} {run : List Dec} {c₁ : Checker} {plans : List Plan} {r : List Dec × Bool}
    (hk : ∀ e ∈ d :: run, e.kind = d.kind) (h : ∀ e ∈ d :: run, e.Parts ExpFills) (hc : c.Sound)
    (hs : ctx.Sits c) (hopen : (openRun ctx (d :: run)).run c = .ok (plans, c₁))
    (hrun : (checkPlanned ctx plans (d :: run)).run c₁ = .ok (r, c')) :
    c.frames.Fills ctx.frame (holdersDecs (liveDecs ⟨some d.kind, []⟩ r.1)) c'.frames := by
  by_cases hkind : d.kind = .var
  · rw [hkind] at hk ⊢
    obtain ⟨rfl, rfl⟩ := eq_of_run_openRun hkind hopen
    have hw := Checker.walked_note hc (.run d.kind (run.length + 1))
    have hfills := fills_variables hk h hw.sound (hs.walked hw) (.opened (hs.walked hw)) hrun
    exact hfills
  · have hkept := kept_run hk (fun e _ => keptCases.all.2.2 e) hc hs hopen hrun
    have hkinds : ∀ e ∈ liveDecs ⟨some d.kind, []⟩ r.1, e.kind = d.kind :=
      kind_of_mem_liveDecs (kind_of_mem_blankDecs hkept.blank hk) _
    rw [holdersDecs_eq_nil fun e he => hkinds e he ▸ hkind]
    exact fills_plain (fun e he => hk e he ▸ hkind) hs hopen hrun

/-- **The declarations of a block**, run by run. -/
theorem fills_checkDecs : ∀ ds : List Dec, (∀ d ∈ ds, d.Parts ExpFills) → ∀ {o : OpenRun} {c c' : Checker}
    {r : List Dec × Bool}, o.Ends ds → c.Sound → ctx.Sits c → (checkDecs ctx [] ds).run c = .ok (r, c') →
    c.frames.Fills ctx.frame (holdersDecs (liveDecs o r.1)) c'.frames
  | [], _, o, c, c', r, _, _, hs, hrun => by
    rw [checkDecs] at hrun
    cases hrun
    exact hs.fills
  | d :: ds, h, o, c, c', r, ho, hc, hs, hrun => by
    have hsplit : d :: ds = Dec.leadingRun (d :: ds) ++ ds.dropWhile (Dec.sameKind d) := by
      simp [Dec.leadingRun]
    have hk : ∀ e ∈ Dec.leadingRun (d :: ds), e.kind = d.kind := fun e he => kind_of_mem_leadingRun he
    obtain ⟨plans, c₁, r₁, c₂, r₂, hopen, hplanned, hrest, rfl⟩ := exists_of_run_checkDecs hrun
    have hrun₁ := fills_run hk (fun e he => h e (hsplit ▸ List.mem_append_left _ he)) hc hs hopen hplanned
    have hkept := kept_run hk (fun e _ => keptCases.all.2.2 e) hc hs hopen hplanned
    have hd₂ := declared_run hk hc hs hopen hplanned
    have hkind : (o.after r₁.1).kind = some d.kind := by
      rw [OpenRun.after_eq_of_blank hkept.blank]
      exact OpenRun.kind_after hk
    have hrest₁ := fills_checkDecs (ds.dropWhile (Dec.sameKind d)) (fun e he =>
      h e (List.mem_cons_of_mem _ (List.dropWhile_subset _ he))) (OpenRun.ends_dropWhile hkind ds) hd₂.sound
      hd₂.sits hrest
    obtain ⟨d', ds', hr₁, hd'⟩ := hkept.exists_cons
    have hopens : liveDecs o r₁.1 = liveDecs ⟨some d.kind, []⟩ r₁.1 := by
      rw [hr₁, liveDecs_opens (hd' ▸ ho d rfl), hd']
    rw [liveDecs_append, holdersDecs_append, hopens]
    exact hrun₁.trans hrest₁
termination_by ds => ds.length
decreasing_by
  exact Nat.lt_succ_of_le (List.length_dropWhile_le _ ds)

theorem ExpFills.letIn {decs : List Dec} {body : Exp} (hd : ∀ d ∈ decs, d.Parts ExpFills)
    (hb : ExpFills body) : ExpFills (.letIn m decs body) := by
  intro ctx c c' e' hc hs h
  obtain ⟨r, c₁, body', c₂, h₁, h₂, hdecl, -, rfl, rfl⟩ := exists_of_run_letIn hc hs h
  have hends : OpenRun.Ends {} decs := by
    rintro d - ⟨⟩
  have hdecs := fills_checkDecs decs hd hends hc.entered hs.entered h₁
  have hbody := hb hdecl.sound hdecl.sits h₂
  exact hdecs.trans hbody

/-! ## Every expression -/

theorem fillsCases : Tree.Cases ExpFills VarFills (Dec.Parts ExpFills) where
  var _ _ h := .var h
  nil _ := .nil
  int _ _ := .int
  string _ _ := .string
  call _ _ _ _ h := .call h
  binary _ _ _ _ hl hr := .binary hl hr
  record _ _ _ h := .record h
  seq _ _ h := .seq h
  assign _ _ _ ht hv := .assign ht hv
  condNone _ _ _ ht hp := .condNone ht hp
  condSome _ _ _ _ ht hp he := .condSome ht hp he
  whileLoop _ _ _ ht hb := .whileLoop ht hb
  doWhile _ _ _ hb ht := .doWhile hb ht
  forLoop _ _ _ _ _ _ hl hh hb := .forLoop hl hh hb
  breakLoop _ := .breakLoop
  letIn _ _ _ hd hb := .letIn hd hb
  array _ _ _ _ hz hi := .array hz hi
  simple _ _ _ := .simple
  field _ _ _ _ hb := .field hb
  element _ _ _ hb hi := .element hb hi
  type _ := trivial
  function _ _ _ _ hb := hb
  varDec _ _ _ _ _ hi := hi

/-- **Every expression fills the frame it stands in**, with the slots of its holders and no others. -/
theorem expFills (e : Exp) : ExpFills e := fillsCases.all.1 e

end TigerCheck
