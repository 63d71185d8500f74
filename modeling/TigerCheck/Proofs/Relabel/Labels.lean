import Mathlib.Logic.Function.Basic
import Mathlib.Order.Monotone.Basic
import TigerCheck.Checker.Walk

/-!
# Renaming and renumbering

A relabelling gives other names to the entities of a program, namespace by namespace, and other numbers to
the entries of a checker's tables, table by table. It acts on all data that names or handles occur in.

* `Names`: new names for variables, functions, types and fields. `Names.Faithful`: different ones for
  different names.
* `Handle`, `Relabelling`: the tables of a checker, and new names with new numbers for each table.
  `Relabelling.Faithful`: numbers keep their order.
* `Ty.relabel`, `Scopes.relabel`, `NamedType.relabel`, …: data of the checker.
* `Exp.relabel`, `Var.relabel`, `Dec.relabel`, `Program.relabel`: trees.
* `Fault.Renamed`: one fault with names of a program, and with the new names. `Fault.variant`: a fault without
  the names in it.
-/

namespace TigerCheck

/-! ## Names and numbers -/

/-- New names, one for each name of each namespace. -/
structure Names where
  value : String → String
  function : String → String
  typeName : String → String
  field : String → String

/-- The new names of what a kind of declarations introduces. -/
def Names.ofKind (ν : Names) : Dec.Kind → String → String
  | .type => ν.typeName
  | .function => ν.function
  | .var => ν.value

/-- Different names get different new ones. -/
structure Names.Faithful (ν : Names) : Prop where
  value : Function.Injective ν.value
  function : Function.Injective ν.function
  typeName : Function.Injective ν.typeName
  field : Function.Injective ν.field

theorem Names.Faithful.ofKind {ν : Names} (h : ν.Faithful) : ∀ k, Function.Injective (ν.ofKind k)
  | .type => h.typeName
  | .function => h.function
  | .var => h.value

/-- The tables that handles point to. -/
inductive Handle where
  | record | array | frame | var | function | typeName
deriving DecidableEq

/-- New names, and new numbers for each table. -/
structure Relabelling extends Names where
  handle : Handle → ℕ → ℕ

/-- Names stay apart, and handles keep their order. -/
structure Relabelling.Faithful (ρ : Relabelling) : Prop where
  names : ρ.toNames.Faithful
  handle : ∀ k, StrictMono (ρ.handle k)

theorem Relabelling.Faithful.handle_inj {ρ : Relabelling} (h : ρ.Faithful) (k : Handle) {i j : ℕ} :
    ρ.handle k i = ρ.handle k j ↔ i = j := (h.handle k).injective.eq_iff

variable (ρ : Relabelling)

def RecordId.relabel (id : RecordId) : RecordId := ⟨ρ.handle .record id.index⟩

def ArrayId.relabel (id : ArrayId) : ArrayId := ⟨ρ.handle .array id.index⟩

def FrameId.relabel (id : FrameId) : FrameId := ⟨ρ.handle .frame id.index⟩

def VarId.relabel (id : VarId) : VarId := ⟨ρ.handle .var id.index⟩

def FunctionId.relabel (id : FunctionId) : FunctionId := ⟨ρ.handle .function id.index⟩

def NamedTypeId.relabel (id : NamedTypeId) : NamedTypeId := ⟨ρ.handle .typeName id.index⟩

def Ident.rename (f : String → String) (x : Ident) : Ident := { x with name := f x.name }

def TypedName.rename (f g : String → String) (x : TypedName) : TypedName := ⟨x.name.rename f, x.typeName.rename g⟩

/-! ## Data of the checker -/

def Ty.relabel : Ty → Ty
  | .int => .int
  | .string => .string
  | .nil => .nil
  | .void => .void
  | .array id => .array (id.relabel ρ)
  | .record id => .record (id.relabel ρ)
  | .frame id => .frame (id.relabel ρ)

def Field.relabel (f : Field) : Field := ⟨ρ.field f.name, f.ty.relabel ρ⟩

def RecordEntry.relabel (r : RecordEntry) : RecordEntry := ⟨ρ.typeName r.name, r.fields.map (·.relabel ρ)⟩

def ArrayEntry.relabel (r : ArrayEntry) : ArrayEntry := ⟨ρ.typeName r.name, r.element.map (·.relabel ρ)⟩

def Signature.relabel (s : Signature) : Signature := ⟨s.params.map (·.relabel ρ), s.result.relabel ρ⟩

def Origin.relabel : Origin → Origin
  | .intrinsic symbol => .intrinsic symbol
  | .declared level frame staticLink params =>
    .declared level (frame.relabel ρ) (staticLink.relabel ρ) (params.map (·.relabel ρ))

def TypeBody.relabel : TypeBody → TypeBody
  | .synonym target => .synonym (target.rename ρ.typeName)
  | .record fields => .record (fields.map (·.rename ρ.field ρ.typeName))
  | .array element => .array (element.rename ρ.typeName)

def TypeDec.relabel (dec : TypeDec) : TypeDec := ⟨dec.name.rename ρ.typeName, dec.body.relabel ρ, dec.loc⟩

def NamedType.relabel : NamedType → NamedType
  | .pending dec handedOut => .pending (dec.relabel ρ) (handedOut.map (·.relabel ρ))
  | .resolved ty => .resolved (ty.relabel ρ)
  | .poisoned => .poisoned

/-- A table of names with new names for the old ones, and new values. -/
def Scopes.relabel {α β : Type} (f : String → String) (g : α → β) (s : Scopes α) : Scopes β :=
  ⟨s.innermost.map (Prod.map f g), s.outer.map (List.map (Prod.map f g))⟩

def Mark.relabel (m : Mark) : Mark := ⟨m.loc, m.ty.map (·.relabel ρ)⟩

def FunctionHead.relabel (head : FunctionHead) : FunctionHead where
  name := head.name.rename ρ.function
  params := head.params.map (·.rename ρ.value ρ.typeName)
  result := head.result.map (·.rename ρ.typeName)

def Header.relabel (h : Header) : Header where
  id := h.id.relabel ρ
  level := h.level
  frame := h.frame.relabel ρ
  params := h.params.map (·.relabel ρ)
  result := h.result.map (·.relabel ρ)

def Context.relabel (ctx : Context) : Context := { ctx with frame := ctx.frame.relabel ρ }

def Rule.Target.relabel (t : Rule.Target) : Rule.Target :=
  ⟨t.id.relabel ρ, t.signature.map (·.relabel ρ)⟩

/-! ## Trees -/

mutual

def Exp.relabel : Exp → Exp
  | .var m v => .var (m.relabel ρ) v.relabel
  | .nil m => .nil (m.relabel ρ)
  | .int m n => .int (m.relabel ρ) n
  | .string m s => .string (m.relabel ρ) s
  | .call m callee args function =>
    .call (m.relabel ρ) (callee.rename ρ.function) (relabelAll args) (function.map (·.relabel ρ))
  | .binary m op left right => .binary (m.relabel ρ) op left.relabel right.relabel
  | .record m typeName inits => .record (m.relabel ρ) (typeName.rename ρ.typeName) (relabelInits inits)
  | .seq m items => .seq (m.relabel ρ) (relabelAll items)
  | .assign m target value => .assign (m.relabel ρ) target.relabel value.relabel
  | .cond m test thenPart none => .cond (m.relabel ρ) test.relabel thenPart.relabel none
  | .cond m test thenPart (some elsePart) =>
    .cond (m.relabel ρ) test.relabel thenPart.relabel (some elsePart.relabel)
  | .whileLoop m test body => .whileLoop (m.relabel ρ) test.relabel body.relabel
  | .doWhile m body test => .doWhile (m.relabel ρ) body.relabel test.relabel
  | .forLoop m counter low high body slot =>
    .forLoop (m.relabel ρ) (counter.rename ρ.value) low.relabel high.relabel body.relabel
      (slot.map (·.relabel ρ))
  | .breakLoop m => .breakLoop (m.relabel ρ)
  | .letIn m decs body => .letIn (m.relabel ρ) (relabelDecs decs) body.relabel
  | .array m typeName size init =>
    .array (m.relabel ρ) (typeName.rename ρ.typeName) size.relabel init.relabel

def Var.relabel : Var → Var
  | .simple m name binding => .simple (m.relabel ρ) (ρ.value name) (binding.map (·.relabel ρ))
  | .field m base name position => .field (m.relabel ρ) base.relabel (name.rename ρ.field) position
  | .element m base index => .element (m.relabel ρ) base.relabel index.relabel

def Dec.relabel : Dec → Dec
  | .type dec => .type (dec.relabel ρ)
  | .function head body loc id => .function (head.relabel ρ) body.relabel loc (id.map (·.relabel ρ))
  | .var name typeName init loc slot =>
    .var (name.rename ρ.value) (typeName.map (·.rename ρ.typeName)) init.relabel loc (slot.map (·.relabel ρ))

def relabelAll : List Exp → List Exp
  | [] => []
  | e :: es => e.relabel :: relabelAll es

def relabelInits : List (Ident × Exp) → List (Ident × Exp)
  | [] => []
  | (name, e) :: inits => (name.rename ρ.field, e.relabel) :: relabelInits inits

def relabelDecs : List Dec → List Dec
  | [] => []
  | d :: ds => d.relabel :: relabelDecs ds

end

def Program.relabel (p : Program) : Program := ⟨p.body.relabel ρ⟩

/-! ## Faults -/

/-- A fault that names something, and the same fault with the new name. A name that is declared twice may be of
any namespace. -/
def Fault.Renamed (ν : Names) : Fault → Fault → Prop
  | .undefinedVariable name, f => f = .undefinedVariable (ν.value name)
  | .undefinedFunction name, f => f = .undefinedFunction (ν.function name)
  | .undefinedType name, f => f = .undefinedType (ν.typeName name)
  | .duplicateDefinition name, f => ∃ k, f = .duplicateDefinition (ν.ofKind k name)
  | .fieldPosition name record, f => f = .fieldPosition (ν.field name) (ν.typeName record)
  | .unknownField name, f => f = .unknownField (ν.field name)
  | .endlessTypeLoop name, f => f = .endlessTypeLoop (ν.typeName name)
  | g, f => f = g

/-- A fault at a place, and the same fault with the new names at the same place. -/
def Diagnostic.Renamed (ν : Names) (d d' : Diagnostic) : Prop :=
  d'.location = d.location ∧ d.fault.Renamed ν d'.fault

/-- The fault without the names in it. -/
def Fault.variant : Fault → Fault
  | .undefinedVariable _ => .undefinedVariable ""
  | .undefinedFunction _ => .undefinedFunction ""
  | .undefinedType _ => .undefinedType ""
  | .duplicateDefinition _ => .duplicateDefinition ""
  | .fieldPosition _ _ => .fieldPosition "" ""
  | .unknownField _ => .unknownField ""
  | .endlessTypeLoop _ => .endlessTypeLoop ""
  | f => f

theorem Fault.Renamed.variant_eq {ν : Names} {f g : Fault} (h : f.Renamed ν g) : g.variant = f.variant := by
  cases f
  case duplicateDefinition => obtain ⟨_, rfl⟩ := h; rfl
  all_goals cases h; rfl

/-- Where all names stay, so does a fault. -/
theorem Fault.Renamed.eq {f g : Fault} (h : f.Renamed ⟨id, id, id, id⟩ g) : g = f := by
  cases f
  case duplicateDefinition =>
    obtain ⟨k, rfl⟩ := h
    cases k <;> rfl
  all_goals exact h

/-! ## What stays -/

variable {ρ}

namespace Ty

@[simp] theorem isNil_relabel (t : Ty) : (t.relabel ρ).isNil = t.isNil := by cases t <;> rfl

@[simp] theorem isVoid_relabel (t : Ty) : (t.relabel ρ).isVoid = t.isVoid := by cases t <;> rfl

@[simp] theorem isInt_relabel (t : Ty) : (t.relabel ρ).isInt = t.isInt := by cases t <;> rfl

@[simp] theorem isArray_relabel (t : Ty) : (t.relabel ρ).isArray = t.isArray := by cases t <;> rfl

@[simp] theorem isRecord_relabel (t : Ty) : (t.relabel ρ).isRecord = t.isRecord := by cases t <;> rfl

end Ty

namespace Relabelling.Faithful

variable (h : ρ.Faithful)
include h

theorem arrayId_inj {x y : ArrayId} : x.relabel ρ = y.relabel ρ ↔ x = y := by
  cases x
  cases y
  simp [ArrayId.relabel, h.handle_inj]

theorem namedTypeId_inj {x y : NamedTypeId} : x.relabel ρ = y.relabel ρ ↔ x = y := by
  cases x
  cases y
  simp [NamedTypeId.relabel, h.handle_inj]

theorem ty_injective : Function.Injective (Ty.relabel ρ) := by
  rintro (_ | _ | _ | _ | ⟨⟨i⟩⟩ | ⟨⟨i⟩⟩ | ⟨⟨i⟩⟩) (_ | _ | _ | _ | ⟨⟨j⟩⟩ | ⟨⟨j⟩⟩ | ⟨⟨j⟩⟩) heq <;>
    simp_all [Ty.relabel, ArrayId.relabel, RecordId.relabel, FrameId.relabel, h.handle_inj]

theorem ty_inj {s t : Ty} : s.relabel ρ = t.relabel ρ ↔ s = t := h.ty_injective.eq_iff

end Relabelling.Faithful

@[simp] theorem TypeBody.isSynonym_relabel (b : TypeBody) : (b.relabel ρ).isSynonym = b.isSynonym := by
  cases b <;> rfl

@[simp] theorem Mark.relabel_typed (m : Mark) (ty : Option Ty) :
    (m.typed ty).relabel ρ = m.typed (ty.map (·.relabel ρ)) := rfl

@[simp] theorem Mark.typed_relabel (m : Mark) (ty : Option Ty) : (m.relabel ρ).typed ty = m.typed ty := rfl

namespace Exp

@[simp] theorem mark_relabel (e : Exp) : (e.relabel ρ).mark = e.mark.relabel ρ := by
  cases e
  case cond elsePart => cases elsePart <;> simp only [relabel, mark]
  all_goals simp only [relabel, mark]

@[simp] theorem ty_relabel (e : Exp) : (e.relabel ρ).ty = e.ty.map (·.relabel ρ) := by
  rw [ty, mark_relabel]
  rfl

@[simp] theorem isLiteral_relabel (e : Exp) : (e.relabel ρ).isLiteral = e.isLiteral := by
  cases e
  case cond elsePart => cases elsePart <;> simp only [relabel, isLiteral]
  all_goals simp only [relabel, isLiteral]

end Exp

namespace Var

@[simp] theorem mark_relabel (v : Var) : (v.relabel ρ).mark = v.mark.relabel ρ := by
  cases v <;> simp only [relabel, mark]

@[simp] theorem ty_relabel (v : Var) : (v.relabel ρ).ty = v.ty.map (·.relabel ρ) := by
  rw [ty, mark_relabel]
  rfl

end Var

namespace Dec

@[simp] theorem kind_relabel (d : Dec) : (d.relabel ρ).kind = d.kind := by
  cases d <;> simp only [relabel, kind]

@[simp] theorem name_relabel (d : Dec) : (d.relabel ρ).name = d.name.rename (ρ.ofKind d.kind) := by
  cases d <;> simp only [relabel, name, kind] <;> rfl

end Dec

theorem relabelAll_eq_map (es : List Exp) : relabelAll ρ es = es.map (·.relabel ρ) := by
  induction es with
  | nil => rfl
  | cons e es ih => rw [relabelAll, ih, List.map_cons]

theorem relabelInits_eq_map (is : List (Ident × Exp)) :
    relabelInits ρ is = is.map (Prod.map (·.rename ρ.field) (·.relabel ρ)) := by
  induction is with
  | nil => rfl
  | cons i is ih =>
    obtain ⟨name, e⟩ := i
    rw [relabelInits, ih, List.map_cons]
    rfl

theorem relabelDecs_eq_map (ds : List Dec) : relabelDecs ρ ds = ds.map (·.relabel ρ) := by
  induction ds with
  | nil => rfl
  | cons d ds ih => rw [relabelDecs, ih, List.map_cons]

theorem lastTy_relabelAll (es : List Exp) : lastTy (relabelAll ρ es) = (lastTy es).map (·.relabel ρ) := by
  rw [relabelAll_eq_map, lastTy, lastTy, List.getLast?_map]
  cases es.getLast? with
  | none => rfl
  | some e => exact e.ty_relabel

theorem leadingRun_relabelDecs (ds : List Dec) :
    Dec.leadingRun (relabelDecs ρ ds) = relabelDecs ρ (Dec.leadingRun ds) := by
  cases ds with
  | nil => rfl
  | cons d ds =>
    have hsame : Dec.sameKind (d.relabel ρ) ∘ (·.relabel ρ) = Dec.sameKind d := by
      funext e
      simp [Dec.sameKind]
    simp only [relabelDecs, Dec.leadingRun, relabelDecs_eq_map, List.takeWhile_map, hsame, List.map_cons]

/-! ## Tables of names -/

namespace Scopes

variable {α β : Type} {f : String → String} {g : α → β}

@[simp] theorem relabel_enter (s : Scopes α) : s.enter.relabel f g = (s.relabel f g).enter := rfl

@[simp] theorem relabel_bind (s : Scopes α) (name : String) (v : α) :
    (s.bind name v).relabel f g = (s.relabel f g).bind (f name) (g v) := rfl

theorem exit_relabel {s s' : Scopes α} (h : s.exit = .ok s') : (s.relabel f g).exit = .ok (s'.relabel f g) := by
  obtain ⟨innermost, _ | ⟨scope, rest⟩⟩ := s
  · cases h
  · cases h
    rfl

theorem lookup_scope_relabel (hf : Function.Injective f) (name : String) (s : Scope α) :
    List.lookup (f name) (s.map (Prod.map f g)) = (List.lookup name s).map g := by
  induction s with
  | nil => rfl
  | cons b s ih =>
    obtain ⟨other, v⟩ := b
    rw [List.map_cons, Prod.map_apply, List.lookup_cons, List.lookup_cons, ih]
    by_cases h : name = other
    · simp [h]
    · have h₁ : (name == other) = false := by simpa using h
      have h₂ : (f name == f other) = false := by simpa [hf.eq_iff] using h
      rw [h₁, h₂]

theorem lookupLocal_relabel (hf : Function.Injective f) (s : Scopes α) (name : String) :
    (s.relabel f g).lookupLocal (f name) = (s.lookupLocal name).map g :=
  lookup_scope_relabel hf name s.innermost

theorem lookup_relabel (hf : Function.Injective f) (s : Scopes α) (name : String) :
    (s.relabel f g).lookup (f name) = (s.lookup name).map g := by
  have hlist : ∀ scopes : List (Scope α),
      (scopes.map (List.map (Prod.map f g))).findSome? (·.lookup (f name)) =
        (scopes.findSome? (·.lookup name)).map g := by
    intro scopes
    induction scopes with
    | nil => rfl
    | cons s scopes ih =>
      rw [List.map_cons, List.findSome?_cons, List.findSome?_cons, lookup_scope_relabel hf, ih]
      cases List.lookup name s <;> rfl
  exact hlist (s.innermost :: s.outer)

end Scopes

end TigerCheck
