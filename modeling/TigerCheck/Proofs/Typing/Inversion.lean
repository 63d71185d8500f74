import TigerCheck.Proofs.Typing.System

/-!
# Reading the typing rules backwards

Each form of node has one rule, or two that exclude each other, so a typing of the node consists of
typings of its parts. The parts are named in the order in which they are evaluated.

* `Exp.typed_call_iff`, `Exp.typed_binary_iff`, …: expressions.
* `Var.typed_field_iff`, `Var.typed_element_iff`: variables.
* `allTyped_cons_iff`, `initsTyped_cons_iff`: lists of expressions.
* `bodiesTyped_cons_iff`, `variablesTyped_cons_iff`, `decsTyped_types_iff`, …: declarations.
-/

namespace TigerCheck

variable {a : Arena} {Γ Γ' : Env} {n : ℕ} {l : Bool} {m : Mark} {y : Ty}

/-! ## Expressions -/

namespace Exp

variable {left right test thenPart elsePart body size init low high value : Exp} {es : List Exp}

theorem typed_var_iff {v : Var} : (var m v).Typed a Γ n l y ↔ v.Typed a Γ n l y :=
  ⟨fun h => by cases h; assumption, .var⟩

theorem typed_nil_iff : (nil m).Typed a Γ n l y ↔ y = .nil :=
  ⟨fun h => by cases h; rfl, fun h => h ▸ .nil⟩

theorem typed_int_iff {i : Int64} : (int m i).Typed a Γ n l y ↔ y = .int :=
  ⟨fun h => by cases h; rfl, fun h => h ▸ .int⟩

theorem typed_string_iff {s : String} : (string m s).Typed a Γ n l y ↔ y = .string :=
  ⟨fun h => by cases h; rfl, fun h => h ▸ .string⟩

theorem typed_breakLoop_iff : (breakLoop m).Typed a Γ n l y ↔ l = true ∧ y = .void := by
  constructor
  · rintro ⟨⟩
    exact ⟨rfl, rfl⟩
  · rintro ⟨rfl, rfl⟩
    exact .breakLoop

theorem typed_call_iff {callee : Ident} {function : Option FunctionId} :
    (call m callee es function).Typed a Γ n l y ↔ ∃ s, Γ.functions callee.name = some s ∧
      ∃ ts, (AllTyped a Γ n l es ts ∧ List.Forall₂ a.Same ts s.params) ∧ y = s.result := by
  constructor
  · intro h
    cases h with
    | call hs hes hsame => exact ⟨_, hs, _, ⟨hes, hsame⟩, rfl⟩
  · rintro ⟨s, hs, ts, ⟨hes, hsame⟩, rfl⟩
    exact .call hs hes hsame

theorem typed_binary_iff {op : BinOp} : (binary m op left right).Typed a Γ n l y ↔
    ∃ t, left.Typed a Γ n l t ∧ ∃ u, right.Typed a Γ (n + left.typeDecs) l u ∧ y = .int ∧
      if op.isEquality then a.Matches t u else t = .int ∧ u = .int := by
  constructor
  · intro h
    cases h with
    | comparison heq ht hu hm => exact ⟨_, ht, _, hu, rfl, by rw [if_pos heq]; exact hm⟩
    | arithmetic heq ht hu => exact ⟨_, ht, _, hu, rfl, by simp [heq]⟩
  · rintro ⟨t, ht, u, hu, rfl, h⟩
    by_cases heq : op.isEquality = true
    · rw [if_pos heq] at h
      exact .comparison heq ht hu h
    · rw [if_neg heq] at h
      obtain ⟨rfl, rfl⟩ := h
      exact .arithmetic (Bool.eq_false_iff.mpr heq) ht hu

theorem typed_record_iff {typeName : Ident} {inits : List (Ident × Exp)} :
    (record m typeName inits).Typed a Γ n l y ↔ ∃ t, Γ.types typeName.name = some t ∧
      ∃ fs, (∃ e, a.record? t = some e ∧ fs = e.fields) ∧ InitsTyped a Γ n l fs inits ∧ y = t := by
  constructor
  · intro h
    cases h with
    | record ht he hinits => exact ⟨_, ht, _, ⟨_, he, rfl⟩, hinits, rfl⟩
  · rintro ⟨t, ht, _, ⟨e, he, rfl⟩, hinits, rfl⟩
    exact .record ht he hinits

theorem typed_seq_iff : (seq m es).Typed a Γ n l y ↔
    ∃ ts, AllTyped a Γ n l es ts ∧ y = ts.getLast?.getD .void := by
  constructor
  · intro h
    cases h with
    | seq h => exact ⟨_, h, rfl⟩
  · rintro ⟨ts, h, rfl⟩
    exact .seq h

theorem typed_assign_iff {target : Var} : (assign m target value).Typed a Γ n l y ↔
    ∃ t, target.Typed a Γ n l t ∧ ∃ u, value.Typed a Γ (n + target.typeDecs) l u ∧
      y = .void ∧ a.Matches t u := by
  constructor
  · intro h
    cases h with
    | assign ht hu hm => exact ⟨_, ht, _, hu, rfl, hm⟩
  · rintro ⟨t, ht, u, hu, rfl, hm⟩
    exact .assign ht hu hm

theorem typed_condNone_iff : (cond m test thenPart none).Typed a Γ n l y ↔
    ∃ t, test.Typed a Γ n l t ∧ ∃ u, thenPart.Typed a Γ (n + test.typeDecs) l u ∧
      y = .void ∧ t = .int ∧ u = .void := by
  constructor
  · intro h
    cases h with
    | condNone ht hu => exact ⟨_, ht, _, hu, rfl, rfl, rfl⟩
  · rintro ⟨t, ht, u, hu, rfl, rfl, rfl⟩
    exact .condNone ht hu

theorem typed_condSome_iff : (cond m test thenPart (some elsePart)).Typed a Γ n l y ↔
    ∃ s, test.Typed a Γ n l s ∧ ∃ t, thenPart.Typed a Γ (n + test.typeDecs) l t ∧
      ∃ u, elsePart.Typed a Γ (n + test.typeDecs + thenPart.typeDecs) l u ∧
        s = .int ∧ a.Matches t u ∧ y = if t.isNil then u else t := by
  constructor
  · intro h
    cases h with
    | condSome hs ht hu hm => exact ⟨_, hs, _, ht, _, hu, rfl, hm, rfl⟩
  · rintro ⟨_, hs, t, ht, u, hu, rfl, hm, rfl⟩
    exact .condSome hs ht hu hm

theorem typed_whileLoop_iff : (whileLoop m test body).Typed a Γ n l y ↔
    ∃ t, test.Typed a Γ n l t ∧ ∃ u, body.Typed a Γ (n + test.typeDecs) true u ∧
      y = .void ∧ t = .int ∧ u = .void := by
  constructor
  · intro h
    cases h with
    | whileLoop ht hu => exact ⟨_, ht, _, hu, rfl, rfl, rfl⟩
  · rintro ⟨t, ht, u, hu, rfl, rfl, rfl⟩
    exact .whileLoop ht hu

theorem typed_doWhile_iff : (doWhile m body test).Typed a Γ n l y ↔
    ∃ u, body.Typed a Γ n true u ∧ ∃ t, test.Typed a Γ (n + body.typeDecs) l t ∧
      y = .void ∧ t = .int ∧ u = .void := by
  constructor
  · intro h
    cases h with
    | doWhile hu ht => exact ⟨_, hu, _, ht, rfl, rfl, rfl⟩
  · rintro ⟨u, hu, t, ht, rfl, rfl, rfl⟩
    exact .doWhile hu ht

theorem typed_forLoop_iff {counter : Ident} {slot : Option VarId} :
    (forLoop m counter low high body slot).Typed a Γ n l y ↔ ∃ s, low.Typed a Γ n l s ∧
      ∃ t, high.Typed a Γ (n + low.typeDecs) l t ∧ (s = .int ∧ t = .int) ∧
        ∃ u, body.Typed a (Γ.bindValue counter.name .int) (n + low.typeDecs + high.typeDecs) true u ∧
          y = .void := by
  constructor
  · intro h
    cases h with
    | forLoop hl hh hb => exact ⟨_, hl, _, hh, ⟨rfl, rfl⟩, _, hb, rfl⟩
  · rintro ⟨_, hl, _, hh, ⟨rfl, rfl⟩, u, hb, rfl⟩
    exact .forLoop hl hh hb

theorem typed_letIn_iff {decs : List Dec} : (letIn m decs body).Typed a Γ n l y ↔
    ∃ Γ', DecsTyped a Γ n l decs Γ' ∧ body.Typed a Γ' (n + typeDecsDecs decs) l y := by
  constructor
  · intro h
    cases h with
    | letIn hd hb => exact ⟨_, hd, hb⟩
  · rintro ⟨Γ', hd, hb⟩
    exact .letIn hd hb

theorem typed_array_iff {typeName : Ident} : (array m typeName size init).Typed a Γ n l y ↔
    ∃ t, Γ.types typeName.name = some t ∧ ∃ s, size.Typed a Γ n l s ∧
      ∃ u, init.Typed a Γ (n + size.typeDecs) l u ∧
        y = t ∧ s = .int ∧ ∃ e, a.element? t = some e ∧ a.Same u e := by
  constructor
  · intro h
    cases h with
    | array ht he hs hu hsame => exact ⟨_, ht, _, hs, _, hu, rfl, rfl, _, he, hsame⟩
  · rintro ⟨t, ht, _, hs, u, hu, rfl, rfl, e, he, hsame⟩
    exact .array ht he hs hu hsame

end Exp

/-! ## Variables -/

namespace Var

variable {base : Var}

theorem typed_simple_iff {name : String} {binding : Option VarId} :
    (simple m name binding).Typed a Γ n l y ↔ Γ.values name = some y :=
  ⟨fun h => by cases h; assumption, .simple⟩

theorem typed_field_iff {name : Ident} {position : Option ℕ} :
    (field m base name position).Typed a Γ n l y ↔ ∃ t, base.Typed a Γ n l t ∧
      ∃ e f, a.record? t = some e ∧ e.fields.find? (·.name == name.name) = some f ∧ y = f.ty := by
  constructor
  · intro h
    cases h with
    | field ht he hf => exact ⟨_, ht, _, _, he, hf, rfl⟩
  · rintro ⟨t, ht, e, f, he, hf, rfl⟩
    exact .field ht he hf

theorem typed_element_iff {index : Exp} : (element m base index).Typed a Γ n l y ↔
    ∃ t, base.Typed a Γ n l t ∧ ∃ u, index.Typed a Γ (n + base.typeDecs) l u ∧
      u = .int ∧ a.element? t = some y := by
  constructor
  · intro h
    cases h with
    | element ht hu he => exact ⟨_, ht, _, hu, rfl, he⟩
  · rintro ⟨t, ht, _, hu, rfl, he⟩
    exact .element ht hu he

end Var

/-! ## Lists of expressions -/

section

variable {e : Exp} {es : List Exp} {ts : List Ty} {f : Field} {fs : List Field} {name : Ident}
  {inits : List (Ident × Exp)}

theorem allTyped_nil_iff : AllTyped a Γ n l [] ts ↔ ts = [] :=
  ⟨fun h => by cases h; rfl, fun h => h ▸ .nil⟩

theorem allTyped_cons_iff : AllTyped a Γ n l (e :: es) ts ↔
    ∃ t, e.Typed a Γ n l t ∧ ∃ us, AllTyped a Γ (n + e.typeDecs) l es us ∧ ts = t :: us := by
  constructor
  · intro h
    cases h with
    | cons ht hus => exact ⟨_, ht, _, hus, rfl⟩
  · rintro ⟨t, ht, us, hus, rfl⟩
    exact .cons ht hus

theorem AllTyped.length_eq (h : AllTyped a Γ n l es ts) : ts.length = es.length := by
  induction es generalizing n ts with
  | nil => rw [allTyped_nil_iff.mp h]; rfl
  | cons e es ih =>
    obtain ⟨t, -, us, hus, rfl⟩ := allTyped_cons_iff.mp h
    rw [List.length_cons, List.length_cons, ih hus]

theorem initsTyped_nil_iff : InitsTyped a Γ n l fs [] ↔ fs = [] :=
  ⟨fun h => by cases h; rfl, fun h => h ▸ .nil⟩

theorem initsTyped_cons_iff : InitsTyped a Γ n l (f :: fs) ((name, e) :: inits) ↔
    name.name = f.name ∧ ∃ t, e.Typed a Γ n l t ∧ a.Matches t f.ty ∧
      InitsTyped a Γ (n + e.typeDecs) l fs inits := by
  constructor
  · intro h
    cases h with
    | cons hname ht hm hrest => exact ⟨hname, _, ht, hm, hrest⟩
  · rintro ⟨hname, t, ht, hm, hrest⟩
    exact .cons hname ht hm hrest

theorem InitsTyped.length_eq (h : InitsTyped a Γ n l fs inits) : fs.length = inits.length := by
  induction inits generalizing n fs with
  | nil => rw [initsTyped_nil_iff.mp h]; rfl
  | cons i inits ih =>
    cases h with
    | cons _ _ _ hrest => rw [List.length_cons, List.length_cons, ih hrest]

end

/-! ## Declarations -/

section Declarations

variable {seen : List String} {head : FunctionHead} {body init : Exp} {loc : Location}
  {id : Option FunctionId} {slot : Option VarId} {name : Ident} {typeName : Option Ident}
  {d : Dec} {ds : List Dec}

theorem functionsDeclared_nil_iff : FunctionsDeclared seen Γ [] Γ' ↔ Γ' = Γ :=
  ⟨fun h => by cases h; rfl, fun h => h ▸ .nil⟩

theorem functionsDeclared_cons_iff :
    FunctionsDeclared seen Γ (.function head body loc id :: ds) Γ' ↔ head.name.name ∉ seen ∧
      ∃ s, Γ.Signs head s ∧
        FunctionsDeclared (head.name.name :: seen) (Γ.bindFunction head.name.name s) ds Γ' := by
  constructor
  · intro h
    cases h with
    | cons hseen hs hrest => exact ⟨hseen, _, hs, hrest⟩
  · rintro ⟨hseen, s, hs, hrest⟩
    exact .cons hseen hs hrest

theorem FunctionsDeclared.head_not_mem (h : FunctionsDeclared seen Γ (d :: ds) Γ') :
    d.kind = .function ∧ d.name.name ∉ seen := by
  cases h with
  | cons hseen => exact ⟨rfl, hseen⟩

theorem bodiesTyped_cons_iff : BodiesTyped a Γ n (.function head body loc id :: ds) ↔
    (∃ s, Γ.Signs head s ∧ ∃ t, body.Typed a (Γ.bindParams head.params s.params) n false t ∧
      ResultOk a s.result t) ∧ BodiesTyped a Γ (n + body.typeDecs) ds := by
  constructor
  · intro h
    cases h with
    | cons hs ht hok hrest => exact ⟨⟨_, hs, _, ht, hok⟩, hrest⟩
  · rintro ⟨⟨s, hs, t, ht, hok⟩, hrest⟩
    exact .cons hs ht hok hrest

theorem variablesTyped_nil_iff : VariablesTyped a seen Γ n l [] Γ' ↔ Γ' = Γ :=
  ⟨fun h => by cases h; rfl, fun h => h ▸ .nil⟩

theorem variablesTyped_cons_iff :
    VariablesTyped a seen Γ n l (.var name typeName init loc slot :: ds) Γ' ↔ name.name ∉ seen ∧
      ∃ u, init.Typed a Γ n l u ∧ ∃ t, VariableTy a Γ typeName init.isLiteral u t ∧
        VariablesTyped a (name.name :: seen) (Γ.bindValue name.name t) (n + init.typeDecs) l ds Γ' := by
  constructor
  · intro h
    cases h with
    | cons hseen hu ht hrest => exact ⟨hseen, _, hu, _, ht, hrest⟩
  · rintro ⟨hseen, u, hu, t, ht, hrest⟩
    exact .cons hseen hu ht hrest

theorem VariablesTyped.head_kind (h : VariablesTyped a seen Γ n l (d :: ds) Γ') : d.kind = .var := by
  cases h
  rfl

theorem decsTyped_nil_iff : DecsTyped a Γ n l [] Γ' ↔ Γ' = Γ :=
  ⟨fun h => by cases h; rfl, fun h => h ▸ .nil⟩

theorem map_type_inj {r r' : List TypeDec} (h : r.map Dec.type = r'.map Dec.type) : r = r' :=
  List.map_injective_iff.mpr (fun _ _ h => by cases h; rfl) h

/-- A block that begins with a run of types. -/
theorem decsTyped_types_iff {run : List TypeDec} (hrun : Dec.leadingRun (d :: ds) = run.map .type) :
    DecsTyped a Γ n l (d :: ds) Γ' ↔
      ∃ Γ₁, (∃ types, TypesDeclared a n run Γ.types types ∧ Γ₁ = { Γ with types }) ∧
        DecsTyped a Γ₁ (n + run.length) l (ds.dropWhile (Dec.sameKind d)) Γ' := by
  have hd : d.kind = .type := by
    cases run with
    | nil => cases hrun
    | cons t run =>
      rw [Dec.leadingRun, List.map_cons, List.cons.injEq] at hrun
      rw [hrun.1]
      rfl
  constructor
  · intro h
    cases h with
    | types hrun' htypes hrest =>
      cases map_type_inj (hrun.symm.trans hrun')
      exact ⟨_, ⟨_, htypes, rfl⟩, hrest⟩
    | functions hf => exact absurd (hd.symm.trans hf.head_not_mem.1) (by decide)
    | vars hv => exact absurd (hd.symm.trans hv.head_kind) (by decide)
  · rintro ⟨_, ⟨types, htypes, rfl⟩, hrest⟩
    exact .types hrun htypes hrest

theorem leadingRun_ne_map_type (hd : d.kind ≠ .type) {run : List TypeDec} :
    Dec.leadingRun (d :: ds) ≠ run.map .type := by
  intro h
  cases run with
  | nil => cases h
  | cons t run =>
    rw [Dec.leadingRun, List.map_cons, List.cons.injEq] at h
    rw [h.1] at hd
    exact hd rfl

/-- A block that begins with a run of functions. -/
theorem decsTyped_functions_iff (hd : d.kind = .function) : DecsTyped a Γ n l (d :: ds) Γ' ↔
    ∃ Γ₁, (FunctionsDeclared [] Γ (Dec.leadingRun (d :: ds)) Γ₁ ∧
      BodiesTyped a Γ₁ n (Dec.leadingRun (d :: ds))) ∧
        DecsTyped a Γ₁ (n + typeDecsDecs (Dec.leadingRun (d :: ds))) l
          (ds.dropWhile (Dec.sameKind d)) Γ' := by
  constructor
  · intro h
    cases h with
    | types hrun => exact absurd hrun (leadingRun_ne_map_type (by rw [hd]; decide))
    | functions hf hb hrest => exact ⟨_, ⟨hf, hb⟩, hrest⟩
    | vars hv => exact absurd (hd.symm.trans hv.head_kind) (by decide)
  · rintro ⟨Γ₁, ⟨hf, hb⟩, hrest⟩
    exact .functions hf hb hrest

/-- A block that begins with a run of variables. -/
theorem decsTyped_variables_iff (hd : d.kind = .var) : DecsTyped a Γ n l (d :: ds) Γ' ↔
    ∃ Γ₁, VariablesTyped a [] Γ n l (Dec.leadingRun (d :: ds)) Γ₁ ∧
        DecsTyped a Γ₁ (n + typeDecsDecs (Dec.leadingRun (d :: ds))) l
          (ds.dropWhile (Dec.sameKind d)) Γ' := by
  constructor
  · intro h
    cases h with
    | types hrun => exact absurd hrun (leadingRun_ne_map_type (by rw [hd]; decide))
    | functions hf => exact absurd (hd.symm.trans hf.head_not_mem.1) (by decide)
    | vars hv hrest => exact ⟨_, hv, hrest⟩
  · rintro ⟨Γ₁, hv, hrest⟩
    exact .vars hv hrest

end Declarations

end TigerCheck
