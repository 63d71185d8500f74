import Mathlib.Logic.Function.Basic
import TigerCheck.Intrinsic
import TigerCheck.Proofs.Ty.Same
import TigerCheck.Proofs.TypeName.Order
import TigerCheck.Tree.Run

/-!
# The type system

What it means for a program to be well typed, without a checker: a relation between an expression and its
type, with one rule for each form. The environments are maps that are handed down. Record and array types
are named by the position of their declaration among all type declarations of the program, and a table
says what is declared at each position.

* `Env`, `Env.initial`: the three environments of a place.
* `Exp.typeDecs`, `Var.typeDecs`, `Dec.typeDecs`: the number of type declarations in a tree.
* `RunStands`, `TypesDeclared`: what names stand for in the scope of a run of types.
* `Env.Signs`, `FunctionsDeclared`: declared signatures, and the functions of a run.
* **`Exp.Typed`**, `Var.Typed`: the typing rules, mutually with those for lists and declarations.
-/

namespace TigerCheck

/-! ## Environments -/

/-- What names stand for at a place: the types of the variables, the signatures of the functions as their
callers write them, and the types of the type names. -/
@[ext]
structure Env where
  values : String → Option Ty
  functions : String → Option Signature
  types : String → Option Ty

namespace Env

/-- At the beginning of a program there are the intrinsics, `int` and `string`. -/
def initial : Env where
  values _ := none
  functions name := (Intrinsic.find? name).map (·.signature)
  types name := if name = "int" then some .int else if name = "string" then some .string else none

/-- Bind a variable. -/
def bindValue (Γ : Env) (name : String) (t : Ty) : Env :=
  { Γ with values := Function.update Γ.values name (some t) }

/-- Bind a function. -/
def bindFunction (Γ : Env) (name : String) (s : Signature) : Env :=
  { Γ with functions := Function.update Γ.functions name (some s) }

/-- Bind the parameters of a function. -/
def bindParams (Γ : Env) : List TypedName → List Ty → Env
  | p :: ps, t :: ts => (Γ.bindValue p.name.name t).bindParams ps ts
  | _, _ => Γ

/-- A head declares a signature: the types of its parameters, and its result, which for a procedure is no
value. -/
def Signs (Γ : Env) (head : FunctionHead) (s : Signature) : Prop :=
  List.Forall₂ (fun p t => Γ.types p.typeName.name = some t) head.params s.params ∧
    match head.result with
    | some result => Γ.types result.name = some s.result
    | none => s.result = .void

end Env

/-! ## Positions of type declarations -/

mutual

/-- The number of type declarations in an expression. -/
def Exp.typeDecs : Exp → ℕ
  | .nil _ | .int _ _ | .string _ _ | .breakLoop _ => 0
  | .var _ v => v.typeDecs
  | .call _ _ args _ => typeDecsAll args
  | .binary _ _ left right => left.typeDecs + right.typeDecs
  | .record _ _ inits => typeDecsInits inits
  | .seq _ items => typeDecsAll items
  | .assign _ target value => target.typeDecs + value.typeDecs
  | .cond _ test thenPart none => test.typeDecs + thenPart.typeDecs
  | .cond _ test thenPart (some elsePart) =>
    test.typeDecs + thenPart.typeDecs + elsePart.typeDecs
  | .whileLoop _ test body => test.typeDecs + body.typeDecs
  | .doWhile _ body test => body.typeDecs + test.typeDecs
  | .forLoop _ _ low high body _ => low.typeDecs + high.typeDecs + body.typeDecs
  | .letIn _ decs body => typeDecsDecs decs + body.typeDecs
  | .array _ _ size init => size.typeDecs + init.typeDecs

/-- The number of type declarations in a variable. -/
def Var.typeDecs : Var → ℕ
  | .simple .. => 0
  | .field _ base _ _ => base.typeDecs
  | .element _ base index => base.typeDecs + index.typeDecs

/-- The number of type declarations in a declaration. -/
def Dec.typeDecs : Dec → ℕ
  | .type _ => 1
  | .function _ body _ _ => body.typeDecs
  | .var _ _ init _ _ => init.typeDecs

def typeDecsAll : List Exp → ℕ
  | [] => 0
  | e :: es => e.typeDecs + typeDecsAll es

def typeDecsInits : List (Ident × Exp) → ℕ
  | [] => 0
  | (_, e) :: inits => e.typeDecs + typeDecsInits inits

def typeDecsDecs : List Dec → ℕ
  | [] => 0
  | d :: ds => d.typeDecs + typeDecsDecs ds

end

attribute [grind =] Exp.typeDecs Var.typeDecs Dec.typeDecs typeDecsAll typeDecsInits typeDecsDecs

theorem typeDecsDecs_append (ds es : List Dec) :
    typeDecsDecs (ds ++ es) = typeDecsDecs ds + typeDecsDecs es := by
  induction ds with
  | nil => rw [List.nil_append, typeDecsDecs, Nat.zero_add]
  | cons d ds ih => rw [List.cons_append, typeDecsDecs, typeDecsDecs, ih, Nat.add_assoc]

theorem typeDecsDecs_map_type (ds : List TypeDec) : typeDecsDecs (ds.map .type) = ds.length := by
  induction ds with
  | nil => rfl
  | cons d ds ih => rw [List.map_cons, typeDecsDecs, ih, Dec.typeDecs, List.length_cons, Nat.add_comm]

/-! ## Runs of types -/

/-- The type that is declared at a position: a new record or a new array. A synonym declares none. -/
def TypeDec.handle (d : TypeDec) (position : ℕ) : Option Ty :=
  match d.body with
  | .record _ => some (.record ⟨position⟩)
  | .array _ => some (.array ⟨position⟩)
  | .synonym _ => none

/-- What a name stands for in the scope of a run of types that begins at a position: what it stood for
before, if it is not a name of the run; the type that is declared under it; or what the target stands for,
if it is a synonym. -/
inductive RunStands (types : String → Option Ty) (run : List TypeDec) (n : ℕ) :
    String → Ty → Prop where
  | outer {name : String} {t : Ty} : name ∉ names run → types name = some t →
      RunStands types run n name t
  | declared {i : ℕ} {d : TypeDec} {t : Ty} : run[i]? = some d → d.handle (n + i) = some t →
      RunStands types run n d.name.name t
  | synonym {d : TypeDec} {target : Ident} {t : Ty} : d ∈ run → d.body = .synonym target →
      RunStands types run n target.name t → RunStands types run n d.name.name t

/-- A run of types is right: its names are distinct, every name in a right-hand side stands for a type,
and the table has the declared records and arrays. -/
structure TypesDeclared (a : Arena) (n : ℕ) (run : List TypeDec) (types types' : String → Option Ty) :
    Prop where
  distinct : (names run).Nodup
  stands : ∀ name t, types' name = some t ↔ RunStands types run n name t
  found : ∀ d ∈ run, ∀ m ∈ d.body.mentions, ∃ t, types' m.name = some t
  entries : ∀ i (d : TypeDec) t, run[i]? = some d → d.handle (n + i) = some t → ∃ ts,
    List.Forall₂ (fun (m : Ident) u => types' m.name = some u) d.body.mentions ts ∧
      a.shape t = some (d.shape ts)

/-! ## Runs of functions and variables -/

/-- The functions of a run are bound, given the names of the run so far. -/
inductive FunctionsDeclared : List String → Env → List Dec → Env → Prop where
  | nil {seen : List String} {Γ : Env} : FunctionsDeclared seen Γ [] Γ
  | cons {seen : List String} {Γ Γ' : Env} {head : FunctionHead} {body : Exp} {loc : Location}
      {id : Option FunctionId} {ds : List Dec} {s : Signature} :
      head.name.name ∉ seen → Γ.Signs head s →
      FunctionsDeclared (head.name.name :: seen) (Γ.bindFunction head.name.name s) ds Γ' →
      FunctionsDeclared seen Γ (.function head body loc id :: ds) Γ'

/-- The type of a declared variable: that of its initializer, which is not just `nil`; or the type that it
is declared with, which the initializer matches. A literal has exactly that type. -/
def VariableTy (a : Arena) (Γ : Env) (typeName : Option Ident) (literal : Bool) (init t : Ty) : Prop :=
  match typeName with
  | none => t = init ∧ init ≠ .nil
  | some typeName =>
    Γ.types typeName.name = some t ∧ a.Matches t init ∧ (literal = true → t = init)

/-- The body of a procedure gives no value, and that of another function its result. -/
def ResultOk (a : Arena) (result body : Ty) : Prop :=
  if result = .void then body = .void else a.Same result body

/-! ## The rules -/

mutual

/-- The type of an expression, under a table of declared types: given the environments of the place, the
number of type declarations before it, and whether a loop of the same function is around it. -/
inductive Exp.Typed (a : Arena) : Env → ℕ → Bool → Exp → Ty → Prop where
  | var {Γ : Env} {n : ℕ} {l : Bool} {m : Mark} {v : Var} {t : Ty} :
      Var.Typed a Γ n l v t → Exp.Typed a Γ n l (.var m v) t
  | nil {Γ : Env} {n : ℕ} {l : Bool} {m : Mark} : Exp.Typed a Γ n l (.nil m) .nil
  | int {Γ : Env} {n : ℕ} {l : Bool} {m : Mark} {value : Int64} :
      Exp.Typed a Γ n l (.int m value) .int
  | string {Γ : Env} {n : ℕ} {l : Bool} {m : Mark} {value : String} :
      Exp.Typed a Γ n l (.string m value) .string
  | call {Γ : Env} {n : ℕ} {l : Bool} {m : Mark} {callee : Ident} {args : List Exp}
      {function : Option FunctionId} {s : Signature} {ts : List Ty} :
      Γ.functions callee.name = some s → AllTyped a Γ n l args ts →
      List.Forall₂ a.Same ts s.params → Exp.Typed a Γ n l (.call m callee args function) s.result
  | comparison {Γ : Env} {n : ℕ} {l : Bool} {m : Mark} {op : BinOp} {left right : Exp} {t u : Ty} :
      op.isEquality = true → Exp.Typed a Γ n l left t →
      Exp.Typed a Γ (n + left.typeDecs) l right u → a.Matches t u →
      Exp.Typed a Γ n l (.binary m op left right) .int
  | arithmetic {Γ : Env} {n : ℕ} {l : Bool} {m : Mark} {op : BinOp} {left right : Exp} :
      op.isEquality = false → Exp.Typed a Γ n l left .int →
      Exp.Typed a Γ (n + left.typeDecs) l right .int →
      Exp.Typed a Γ n l (.binary m op left right) .int
  | record {Γ : Env} {n : ℕ} {l : Bool} {m : Mark} {typeName : Ident} {inits : List (Ident × Exp)}
      {t : Ty} {e : RecordEntry} : Γ.types typeName.name = some t → a.record? t = some e →
      InitsTyped a Γ n l e.fields inits → Exp.Typed a Γ n l (.record m typeName inits) t
  | seq {Γ : Env} {n : ℕ} {l : Bool} {m : Mark} {items : List Exp} {ts : List Ty} :
      AllTyped a Γ n l items ts → Exp.Typed a Γ n l (.seq m items) (ts.getLast?.getD .void)
  | assign {Γ : Env} {n : ℕ} {l : Bool} {m : Mark} {target : Var} {value : Exp} {t u : Ty} :
      Var.Typed a Γ n l target t → Exp.Typed a Γ (n + target.typeDecs) l value u → a.Matches t u →
      Exp.Typed a Γ n l (.assign m target value) .void
  | condNone {Γ : Env} {n : ℕ} {l : Bool} {m : Mark} {test thenPart : Exp} :
      Exp.Typed a Γ n l test .int → Exp.Typed a Γ (n + test.typeDecs) l thenPart .void →
      Exp.Typed a Γ n l (.cond m test thenPart none) .void
  | condSome {Γ : Env} {n : ℕ} {l : Bool} {m : Mark} {test thenPart elsePart : Exp} {t u : Ty} :
      Exp.Typed a Γ n l test .int → Exp.Typed a Γ (n + test.typeDecs) l thenPart t →
      Exp.Typed a Γ (n + test.typeDecs + thenPart.typeDecs) l elsePart u → a.Matches t u →
      Exp.Typed a Γ n l (.cond m test thenPart (some elsePart)) (if t.isNil then u else t)
  | whileLoop {Γ : Env} {n : ℕ} {l : Bool} {m : Mark} {test body : Exp} :
      Exp.Typed a Γ n l test .int → Exp.Typed a Γ (n + test.typeDecs) true body .void →
      Exp.Typed a Γ n l (.whileLoop m test body) .void
  | doWhile {Γ : Env} {n : ℕ} {l : Bool} {m : Mark} {body test : Exp} :
      Exp.Typed a Γ n true body .void → Exp.Typed a Γ (n + body.typeDecs) l test .int →
      Exp.Typed a Γ n l (.doWhile m body test) .void
  | forLoop {Γ : Env} {n : ℕ} {l : Bool} {m : Mark} {counter : Ident} {low high body : Exp}
      {slot : Option VarId} {t : Ty} :
      Exp.Typed a Γ n l low .int → Exp.Typed a Γ (n + low.typeDecs) l high .int →
      Exp.Typed a (Γ.bindValue counter.name .int) (n + low.typeDecs + high.typeDecs) true body t →
      Exp.Typed a Γ n l (.forLoop m counter low high body slot) .void
  | breakLoop {Γ : Env} {n : ℕ} {m : Mark} : Exp.Typed a Γ n true (.breakLoop m) .void
  | letIn {Γ Γ' : Env} {n : ℕ} {l : Bool} {m : Mark} {decs : List Dec} {body : Exp} {t : Ty} :
      DecsTyped a Γ n l decs Γ' → Exp.Typed a Γ' (n + typeDecsDecs decs) l body t →
      Exp.Typed a Γ n l (.letIn m decs body) t
  | array {Γ : Env} {n : ℕ} {l : Bool} {m : Mark} {typeName : Ident} {size init : Exp} {t u e : Ty} :
      Γ.types typeName.name = some t → a.element? t = some e → Exp.Typed a Γ n l size .int →
      Exp.Typed a Γ (n + size.typeDecs) l init u → a.Same u e →
      Exp.Typed a Γ n l (.array m typeName size init) t

/-- The type of a variable. -/
inductive Var.Typed (a : Arena) : Env → ℕ → Bool → Var → Ty → Prop where
  | simple {Γ : Env} {n : ℕ} {l : Bool} {m : Mark} {name : String} {binding : Option VarId} {t : Ty} :
      Γ.values name = some t → Var.Typed a Γ n l (.simple m name binding) t
  | field {Γ : Env} {n : ℕ} {l : Bool} {m : Mark} {base : Var} {name : Ident} {position : Option ℕ}
      {t : Ty} {e : RecordEntry} {f : Field} : Var.Typed a Γ n l base t → a.record? t = some e →
      e.fields.find? (·.name == name.name) = some f →
      Var.Typed a Γ n l (.field m base name position) f.ty
  | element {Γ : Env} {n : ℕ} {l : Bool} {m : Mark} {base : Var} {index : Exp} {t u : Ty} :
      Var.Typed a Γ n l base t → Exp.Typed a Γ (n + base.typeDecs) l index .int →
      a.element? t = some u → Var.Typed a Γ n l (.element m base index) u

/-- The types of several expressions. -/
inductive AllTyped (a : Arena) : Env → ℕ → Bool → List Exp → List Ty → Prop where
  | nil {Γ : Env} {n : ℕ} {l : Bool} : AllTyped a Γ n l [] []
  | cons {Γ : Env} {n : ℕ} {l : Bool} {e : Exp} {es : List Exp} {t : Ty} {ts : List Ty} :
      Exp.Typed a Γ n l e t → AllTyped a Γ (n + e.typeDecs) l es ts →
      AllTyped a Γ n l (e :: es) (t :: ts)

/-- The initializers of a record literal fit the fields of the record, position by position. -/
inductive InitsTyped (a : Arena) : Env → ℕ → Bool → List Field → List (Ident × Exp) → Prop where
  | nil {Γ : Env} {n : ℕ} {l : Bool} : InitsTyped a Γ n l [] []
  | cons {Γ : Env} {n : ℕ} {l : Bool} {f : Field} {fs : List Field} {name : Ident} {e : Exp}
      {inits : List (Ident × Exp)} {t : Ty} :
      name.name = f.name → Exp.Typed a Γ n l e t → a.Matches t f.ty →
      InitsTyped a Γ (n + e.typeDecs) l fs inits → InitsTyped a Γ n l (f :: fs) ((name, e) :: inits)

/-- The bodies of the functions of a run, each with its parameters bound and outside every loop. -/
inductive BodiesTyped (a : Arena) : Env → ℕ → List Dec → Prop where
  | nil {Γ : Env} {n : ℕ} : BodiesTyped a Γ n []
  | cons {Γ : Env} {n : ℕ} {head : FunctionHead} {body : Exp} {loc : Location}
      {id : Option FunctionId} {ds : List Dec} {s : Signature} {t : Ty} :
      Γ.Signs head s → Exp.Typed a (Γ.bindParams head.params s.params) n false body t →
      ResultOk a s.result t → BodiesTyped a Γ (n + body.typeDecs) ds →
      BodiesTyped a Γ n (.function head body loc id :: ds)

/-- The variables of a run are bound one after another, given the names of the run so far. -/
inductive VariablesTyped (a : Arena) : List String → Env → ℕ → Bool → List Dec → Env → Prop where
  | nil {seen : List String} {Γ : Env} {n : ℕ} {l : Bool} : VariablesTyped a seen Γ n l [] Γ
  | cons {seen : List String} {Γ Γ' : Env} {n : ℕ} {l : Bool} {name : Ident}
      {typeName : Option Ident} {init : Exp} {loc : Location} {slot : Option VarId} {ds : List Dec}
      {t u : Ty} : name.name ∉ seen → Exp.Typed a Γ n l init u →
      VariableTy a Γ typeName init.isLiteral u t →
      VariablesTyped a (name.name :: seen) (Γ.bindValue name.name t) (n + init.typeDecs) l ds Γ' →
      VariablesTyped a seen Γ n l (.var name typeName init loc slot :: ds) Γ'

/-- The declarations of a block, run by run. The types of a run may refer to each other, and so may its
functions. -/
inductive DecsTyped (a : Arena) : Env → ℕ → Bool → List Dec → Env → Prop where
  | nil {Γ : Env} {n : ℕ} {l : Bool} : DecsTyped a Γ n l [] Γ
  | types {Γ Γ' : Env} {n : ℕ} {l : Bool} {d : Dec} {ds : List Dec} {run : List TypeDec}
      {types : String → Option Ty} : Dec.leadingRun (d :: ds) = run.map .type →
      TypesDeclared a n run Γ.types types →
      DecsTyped a { Γ with types } (n + run.length) l (ds.dropWhile (Dec.sameKind d)) Γ' →
      DecsTyped a Γ n l (d :: ds) Γ'
  | functions {Γ Γ₁ Γ' : Env} {n : ℕ} {l : Bool} {d : Dec} {ds : List Dec} :
      FunctionsDeclared [] Γ (Dec.leadingRun (d :: ds)) Γ₁ →
      BodiesTyped a Γ₁ n (Dec.leadingRun (d :: ds)) →
      DecsTyped a Γ₁ (n + typeDecsDecs (Dec.leadingRun (d :: ds))) l
        (ds.dropWhile (Dec.sameKind d)) Γ' →
      DecsTyped a Γ n l (d :: ds) Γ'
  | vars {Γ Γ₁ Γ' : Env} {n : ℕ} {l : Bool} {d : Dec} {ds : List Dec} :
      VariablesTyped a [] Γ n l (Dec.leadingRun (d :: ds)) Γ₁ →
      DecsTyped a Γ₁ (n + typeDecsDecs (Dec.leadingRun (d :: ds))) l
        (ds.dropWhile (Dec.sameKind d)) Γ' →
      DecsTyped a Γ n l (d :: ds) Γ'

end

end TigerCheck
