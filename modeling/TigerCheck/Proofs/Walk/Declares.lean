import TigerCheck.Proofs.Restores

/-!
# The names that a block binds

A declaration binds its name once, in the innermost scope of its own namespace; a dropped one binds nothing.
This is so in every state, if only the variables of the innermost scope have slots: by its number the slot
of a variable tells whether it was bound since a run was opened.

* `Checker.boundNames`: the names that the innermost scope of a namespace binds.
* `Checker.Declares`: just the names of some declarations were bound.
* `declares_openRun`, `declares_variables`: types and functions are bound together, variables one by one.
* **`declares_checkDecs`**: the declarations of a block bind the names of those that are not dropped.
-/

namespace TigerCheck

open Check

/-- The names of the declarations of a kind. -/
def namesOf (k : Dec.Kind) (ds : List Dec) : List String := (ds.filter (·.kind = k)).map (·.name.name)

theorem namesOf_append (k : Dec.Kind) (ds es : List Dec) : namesOf k (ds ++ es) = namesOf k ds ++ namesOf k es := by
  rw [namesOf, List.filter_append, List.map_append]
  rfl

theorem namesOf_live (k : Dec.Kind) (d : Dec) : namesOf k [d.live] = namesOf k [d] := by
  cases d <;> cases k <;> rfl

namespace Checker

variable {c c' c'' : Checker} {ds es : List Dec} {first : ℕ} {seen : List String}

/-- The names that the innermost scope of a namespace binds, the latest first. -/
def boundNames (c : Checker) : Dec.Kind → List String
  | .type => c.typeNames.innermost.map (·.1)
  | .function => c.functions.innermost.map (·.1)
  | .var => c.values.innermost.map (·.1)

/-- In a new block nothing is bound yet. -/
theorem entered_slotted (c : Checker) : c.entered.Slotted := nofun

theorem SameScopes.boundNames_eq (h : c.SameScopes c') (k : Dec.Kind) : c'.boundNames k = c.boundNames k := by
  cases k with
  | type => rw [boundNames, h.typeNames_eq, boundNames]
  | function => rw [boundNames, h.functions_eq, boundNames]
  | var => rw [boundNames, h.values_eq, boundNames]

/-! ## What was bound -/

/-- The names of some declarations were bound, one after another, each in the innermost scope of its own
namespace, and no other name was. -/
structure Declares (c : Checker) (ds : List Dec) (c' : Checker) : Prop where
  bound : ∀ k, c'.boundNames k = (namesOf k ds).reverse ++ c.boundNames k
  slotted : c.Slotted → c'.Slotted
  vars_le : c.frames.vars.size ≤ c'.frames.vars.size

theorem Declares.of_sameScopes (h : c.SameScopes c') (hle : c.frames.vars.size ≤ c'.frames.vars.size) :
    c.Declares [] c' where
  bound := h.boundNames_eq
  slotted hc := hc.of_values h.values_eq hle
  vars_le := hle

theorem Declares.trans (h : c.Declares ds c') (h' : c'.Declares es c'') : c.Declares (ds ++ es) c'' where
  bound k := by rw [h'.bound, h.bound, namesOf_append, List.reverse_append, List.append_assoc]
  slotted hc := h'.slotted (h.slotted hc)
  vars_le := Nat.le_trans h.vars_le h'.vars_le

theorem Declares.live {d : Dec} (h : c.Declares [d] c') : c.Declares [d.live] c' where
  bound k := by rw [namesOf_live, h.bound]
  slotted := h.slotted
  vars_le := h.vars_le

/-! ## A new variable -/

theorem Declares.reported (c : Checker) (fault : Fault) (loc : Location) :
    c.Declares [] (c.reported fault loc) :=
  .of_sameScopes ⟨rfl, rfl, rfl⟩ (Nat.le_refl _)

/-- A name is bound to a new slot. -/
structure BindsNew (c : Checker) (name : String) (c' : Checker) : Prop where
  values_eq : ∃ v : VarId, c.frames.vars.size ≤ v.index ∧ v.index < c'.frames.vars.size ∧
    c'.values = c.values.bind name v
  typeNames_eq : c'.typeNames = c.typeNames
  functions_eq : c'.functions = c.functions

variable {name : Ident} {typeName : Option Ident} {init : Exp} {loc : Location} {slot : Option VarId}

/-- A variable with a new slot is one of the run. -/
theorem BindsNew.boundFrom (h : c.BindsNew name.name c') (hb : c.BoundFrom first seen) :
    c'.BoundFrom first (name.name :: seen) := by
  obtain ⟨v, hle, hlt, hv⟩ := h.values_eq
  exact hb.bind (Nat.le_trans hb.le_size hle) hv (Nat.le_trans hle (Nat.le_of_lt hlt))

theorem BindsNew.declares (h : c.BindsNew name.name c') :
    c.Declares [.var name typeName init loc slot] c' := by
  obtain ⟨v, hle, hlt, hv⟩ := h.values_eq
  have hvars : c.frames.vars.size ≤ c'.frames.vars.size := Nat.le_trans hle (Nat.le_of_lt hlt)
  refine ⟨fun k => ?_, fun hc other w hw => ?_, hvars⟩
  · cases k with
    | type => simp [boundNames, namesOf, Dec.kind, h.typeNames_eq]
    | function => simp [boundNames, namesOf, Dec.kind, h.functions_eq]
    | var => simp [boundNames, namesOf, Dec.kind, Dec.name, hv, Scopes.bind]
  · rw [hv, Scopes.lookupLocal_bind] at hw
    split at hw
    · cases hw
      exact hlt
    · exact Nat.lt_of_lt_of_le (hc other w hw) hvars

end Checker

/-! ## Actions that bind nothing -/

section

variable {α : Type} {ctx : Context} {c c₁ c' : Checker} {f : FrameId} {m : Check α} {a : α}

theorem Check.Moves.vars_le {S : Checker → Checker → Prop} {P : α → Prop} (h : Moves 0 f S m P)
    (hm : m.run c = .ok (a, c')) : c.frames.vars.size ≤ c'.frames.vars.size := by
  have hprefix := (h (Nat.zero_le _) hm).1.slots.length_le
  simpa using hprefix

theorem Check.Moves.declares {P : α → Prop} (h : Moves 0 f Checker.SameScopes m P)
    (hm : m.run c = .ok (a, c')) : c.Declares [] c' :=
  .of_sameScopes (h (Nat.zero_le _) hm).2.1 (h.vars_le hm)

/-- The declarations of types and functions were bound when their run was opened. -/
theorem restores_checkDec {plan : Plan} {d : Dec} (hd : d.kind ≠ .var) :
    Restores 0 ctx.frame (checkDec ctx plan d) := by
  cases d with
  | var => exact absurd rfl hd
  | type dec =>
    cases plan with
    | typeBody id =>
      rw [checkDec]
      exact (restores_typeAt id).andThen fun ty => .pure trivial
    | dropped | functionBody | «variable» => exact .pure trivial
  | function head body loc id =>
    cases plan with
    | functionBody header => exact restores_functionBody (restores_exp body) (Nat.zero_le _)
    | dropped | typeBody | «variable» => exact .pure trivial

theorem restores_checkPlanned {ds : List Dec} (hds : ∀ d ∈ ds, d.kind ≠ .var) :
    ∀ plans, Restores 0 ctx.frame (checkPlanned ctx plans ds) := by
  induction ds with
  | nil => exact fun plans => by cases plans <;> exact .pure trivial
  | cons d ds ih =>
    obtain ⟨hd, hds⟩ := List.forall_mem_cons.mp hds
    intro plans
    cases plans with
    | nil => exact .pure trivial
    | cons plan plans =>
      rw [checkPlanned]
      exact (restores_checkDec hd).andThen fun r => (ih hds plans).andThen fun s => .pure trivial

/-! ## Types and functions -/

theorem declares_declareType {dec : TypeDec} {id : NamedTypeId}
    (hrun : (declareType dec).run c = .ok (id, c')) : c.Declares [.type dec] c' := by
  cases hrun
  refine ⟨fun k => ?_, fun hc => hc.of_values rfl (Nat.le_refl _), Nat.le_refl _⟩
  cases k <;> rfl

theorem declares_declareFunction {head : FunctionHead} {body : Exp} {loc : Location}
    {id : Option FunctionId} {h : Header} (hrun : (declareFunction ctx head).run c = .ok (h, c')) :
    c.Declares [.function head body loc id] c' := by
  have hle := (moves_declareFunction (f := ctx.frame)).vars_le hrun
  obtain ⟨link, frames, r, c₃, result, c₄, signature, halloc, hparams, hresult, -, rfl⟩ :=
    exists_of_run_declareFunction hrun
  have hs₃ := (restores_declareParams (n := 0) head.params (Nat.zero_le _) hparams).2.1
  have hs₄ : c₃.SameScopes c₄ := by
    cases hd : head.result with
    | none =>
      rw [hd] at hresult
      cases hresult
      exact ⟨rfl, rfl, rfl⟩
    | some name =>
      rw [hd] at hresult
      exact (restores_typeOf (n := 0) (f := ctx.frame) name (Nat.zero_le _) hresult).2.1
  have hvalues : c₄.values = c.values := hs₄.values_eq.trans hs₃.values_eq
  refine ⟨fun k => ?_, fun hc => hc.of_values hvalues hle, hle⟩
  cases k with
  | type => exact congrArg (·.innermost.map (·.1)) (hs₄.typeNames_eq.trans hs₃.typeNames_eq)
  | function =>
    exact congrArg (fun s : Scopes FunctionId => head.name.name :: s.innermost.map (·.1))
      (hs₄.functions_eq.trans hs₃.functions_eq)
  | var => exact congrArg (·.innermost.map (·.1)) hvalues

/-- **The types and functions of a run are bound together**, each name once. -/
theorem declares_bindHeaders {k : Dec.Kind} {ds : List Dec} (hk : ∀ d ∈ ds, d.kind = k) (hvar : k ≠ .var) :
    ∀ {seen : List String} {c c' : Checker} {plans : List Plan},
      (bindHeaders ctx seen ds).run c = .ok (plans, c') → c.Declares (liveDecs ⟨some k, seen⟩ ds) c' := by
  induction ds with
  | nil =>
    intro seen c c' plans hrun
    cases hrun
    exact .of_sameScopes ⟨rfl, rfl, rfl⟩ (Nat.le_refl _)
  | cons d ds ih =>
    intro seen c c' plans hrun
    obtain ⟨hd, hds⟩ := List.forall_mem_cons.mp hk
    rcases exists_of_run_bindHeaders hrun with ⟨hmem, plans', -, h₂⟩ | ⟨hmem, plan, c₁, plans', -, hbinds, h₂⟩
    · rw [liveDecs_of_mem hd hmem]
      exact (Checker.Declares.reported c _ _).trans (ih hds h₂)
    · rw [liveDecs_of_not_mem hd hmem]
      cases hbinds with
      | var => exact absurd hd.symm hvar
      | type h₁ => exact (declares_declareType h₁).live.trans (ih hds h₂)
      | function h₁ => exact (declares_declareFunction h₁).live.trans (ih hds h₂)

/-! ## Variables -/

section

variable {first : ℕ} {seen : List String} {name : Ident} {typeName : Option Ident} {init : Exp}
  {loc : Location} {slot : Option VarId} {r : Dec × Bool}

theorem bindsNew_of_run (hb : c.BoundFrom first seen) (hmem : name.name ∉ seen)
    (hrun : (checkDec ctx (.variable first) (.var name typeName init loc slot)).run c = .ok (r, c')) :
    c.BindsNew name.name c' := by
  obtain ⟨init', c₁, d, c₂, v, frames, hinit, hdecl, halloc, rfl, -⟩ :=
    exists_of_run_newVariable hb hmem hrun
  have hs₁ := (restores_exp init 0 ctx (Nat.zero_le _) hinit).2.1
  have hs₂ := (restores_declared (n := 0) (f := ctx.frame) typeName _ _ (Nat.zero_le _) hdecl).2.1
  have hle := Nat.le_trans ((restores_exp init 0 ctx).vars_le hinit)
    ((restores_declared (f := ctx.frame) typeName _ _).vars_le hdecl)
  obtain ⟨-, hid, hsize, -⟩ := FrameTable.appends_of_alloc halloc
  refine ⟨⟨v, ?_, ?_, ?_⟩, hs₂.typeNames_eq.trans hs₁.typeNames_eq, hs₂.functions_eq.trans hs₁.functions_eq⟩
  · rw [hid]
    exact hle
  · rw [hid, hsize]
    exact Nat.lt_succ_self _
  · rw [hs₂.values_eq, hs₁.values_eq]

end

/-- **The variables of a run are bound one by one**, each name once. -/
theorem declares_variables {first : ℕ} {ds : List Dec} (hk : ∀ d ∈ ds, d.kind = .var) :
    ∀ {seen : List String} {c c' : Checker} {r : List Dec × Bool}, c.BoundFrom first seen →
      (checkPlanned ctx (ds.map fun _ => .variable first) ds).run c = .ok (r, c') →
      c.Declares (liveDecs ⟨some .var, seen⟩ ds) c' := by
  induction ds with
  | nil =>
    intro seen c c' r _ hrun
    cases hrun
    exact .of_sameScopes ⟨rfl, rfl, rfl⟩ (Nat.le_refl _)
  | cons d ds ih =>
    intro seen c c' r hb hrun
    obtain ⟨hd, hds⟩ := List.forall_mem_cons.mp hk
    cases d with
    | type => cases hd
    | function => cases hd
    | var name typeName init loc slot =>
      obtain ⟨r₁, c₁, r₂, h₁, h₂, rfl⟩ := exists_of_run_checkPlanned hrun
      by_cases hmem : name.name ∈ seen
      · obtain ⟨rfl, -⟩ := eq_of_run_again hb hmem h₁
        rw [liveDecs_of_mem hd hmem]
        exact (Checker.Declares.reported c _ _).trans (ih hds (hb.of_values rfl (Nat.le_refl _)) h₂)
      · have hnew := bindsNew_of_run hb hmem h₁
        rw [liveDecs_of_not_mem hd hmem]
        exact hnew.declares.live.trans (ih hds (hnew.boundFrom hb) h₂)

/-! ## Blocks -/

/-- A run binds the names of its declarations, each once. -/
theorem declares_run {d : Dec} {ds : List Dec} {plans : List Plan} {r : List Dec × Bool}
    (hk : ∀ e ∈ d :: ds, e.kind = d.kind) (hc : c.Slotted)
    (hopen : (openRun ctx (d :: ds)).run c = .ok (plans, c₁))
    (hrun : (checkPlanned ctx plans (d :: ds)).run c₁ = .ok (r, c')) :
    c.Declares (liveDecs ⟨some d.kind, []⟩ (d :: ds)) c' := by
  have hnote : c.Declares [] (c.note (.run d.kind (ds.length + 1))) :=
    .of_sameScopes ⟨rfl, rfl, rfl⟩ (Nat.le_refl _)
  by_cases hvar : d.kind = .var
  · obtain ⟨rfl, rfl⟩ := eq_of_run_openRun hvar hopen
    rw [hvar] at hk ⊢
    exact hnote.trans (declares_variables hk (hc.boundFrom.of_values rfl (Nat.le_refl _)) hrun)
  · have hopened := declares_bindHeaders hk hvar (run_bindHeaders_of_openRun hvar hopen)
    have hplanned := (restores_checkPlanned (fun e he => (hk e he).trans_ne hvar) plans).declares hrun
    simpa using (hnote.trans hopened).trans hplanned

/-- **The declarations of a block bind the names of those that are not dropped.** -/
theorem declares_checkDecs : ∀ (ds : List Dec) {o : OpenRun} {c c' : Checker} {r : List Dec × Bool},
    o.Ends ds → c.Slotted → (checkDecs ctx [] ds).run c = .ok (r, c') → c.Declares (liveDecs o ds) c'
  | [], _, _, _, _, _, _, hrun => by
    rw [checkDecs] at hrun
    cases hrun
    exact .of_sameScopes ⟨rfl, rfl, rfl⟩ (Nat.le_refl _)
  | d :: ds, o, c, c', r, ho, hc, hrun => by
    have hsplit : d :: ds = Dec.leadingRun (d :: ds) ++ ds.dropWhile (Dec.sameKind d) := by
      simp [Dec.leadingRun]
    have hk : ∀ e ∈ Dec.leadingRun (d :: ds), e.kind = d.kind := fun e he => kind_of_mem_leadingRun he
    obtain ⟨plans, c₁, r₁, c₂, r₂, hopen, hplanned, hrest, rfl⟩ := exists_of_run_checkDecs hrun
    have hdecl := declares_run hk hc hopen hplanned
    have hends := OpenRun.ends_dropWhile (OpenRun.kind_after (o := o) hk) ds
    have hrest' := declares_checkDecs (ds.dropWhile (Dec.sameKind d)) hends (hdecl.slotted hc) hrest
    rw [hsplit, liveDecs_append]
    have hopens : liveDecs o (Dec.leadingRun (d :: ds)) = liveDecs ⟨some d.kind, []⟩ (Dec.leadingRun (d :: ds)) :=
      liveDecs_opens (ho d rfl)
    rw [hopens]
    exact hdecl.trans hrest'
termination_by ds => ds.length
decreasing_by exact Nat.lt_succ_of_le (List.length_dropWhile_le _ ds)

end

end TigerCheck
