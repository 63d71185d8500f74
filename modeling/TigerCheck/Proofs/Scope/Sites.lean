import TigerCheck.Proofs.Tree.Live
import TigerCheck.Proofs.Tree.Uses
import TigerCheck.Proofs.Typing.System

/-!
# Sites

Where in a checked tree names are used and declared, and what names stand for there. The scopes are those
of the text alone: they are handed down and hold what the cells of the enclosing declarations hold, so they
do not depend on types or on faults.

A tree without dropped declarations is meant throughout. The frame and the parameters of a function are
found in the table of functions, under the handle in the function's cell. Type declarations have no cells;
they are named by their number among all type declarations.

* `Place`: the frame and the nesting level of some code, and the scopes there.
* `Place.bindRun`, `Place.behind`, `Place.inBody`: the places in and behind declarations.
* `Site`: an occurrence of a name, or a declaration that has a slot or a handle.
* `Exp.sites`, `Var.sites`, `Dec.sites`: the sites of a tree.
-/

namespace TigerCheck

/-! ## Places -/

/-- A place in a program: the frame and the nesting level of the code around it, and what names stand for
there. -/
structure Place where
  frame : FrameId
  level : ℕ
  values : String → Option VarId
  functions : String → Option FunctionId
  types : String → Option NamedTypeId

/-- The parameters of a declared function. -/
def FrameTable.paramsOf (t : FrameTable) (id : Option FunctionId) : List VarId :=
  match id.bind fun id => t.functions[id.index]? with
  | some ⟨_, _, .declared _ _ _ params⟩ => params
  | _ => []

namespace Place

/-- Outside every function there are the intrinsics, `int` and `string`. -/
def initial : Place where
  frame := ⟨0⟩
  level := 0
  values _ := none
  functions name := (Intrinsic.all.findIdx? (·.name == name)).map .mk
  types name := if name = "string" then some ⟨1⟩ else if name = "int" then some ⟨0⟩ else none

/-- Bind a variable to its slot. -/
def bindValue (pl : Place) (name : String) (slot : Option VarId) : Place :=
  { pl with values := Function.update pl.values name slot }

/-- Bind a function to its handle. -/
def bindFunction (pl : Place) (name : String) (id : Option FunctionId) : Place :=
  { pl with functions := Function.update pl.functions name id }

/-- Bind a type name. -/
def bindType (pl : Place) (name : String) (id : NamedTypeId) : Place :=
  { pl with types := Function.update pl.types name (some id) }

/-- Bind the parameters of a function to their slots. Of several with one name the last one counts. -/
def bindParams (pl : Place) : List TypedName → List VarId → Place
  | p :: ps, v :: vs => (pl.bindValue p.name.name (some v)).bindParams ps vs
  | _, _ => pl

/-- The body of a function. -/
def inBody (pl : Place) (t : FrameTable) (head : FunctionHead) (id : Option FunctionId) : Place :=
  { pl with frame := t.bodyFrame id pl.frame, level := pl.level + 1 }.bindParams head.params
    (t.paramsOf id)

/-- The names of the types and functions of a run are bound, given the number of type declarations before
it. -/
def bindRun (pl : Place) (n : ℕ) : List Dec → Place
  | [] => pl
  | .type dec :: ds => (pl.bindType dec.name.name ⟨n⟩).bindRun (n + 1) ds
  | .function head _ _ id :: ds => (pl.bindFunction head.name.name id).bindRun n ds
  | .var .. :: ds => pl.bindRun n ds

/-- A variable is bound behind its declaration. -/
def bindDec (pl : Place) : Dec → Place
  | .var name _ _ _ slot => pl.bindValue name.name slot
  | _ => pl

end Place

/-- The run that begins with the first declaration of a list, if that does not continue the run of the
declaration before it. -/
def Dec.newRun (previous : Option Dec.Kind) : List Dec → List Dec
  | [] => []
  | d :: ds => if previous = some d.kind then [] else Dec.leadingRun (d :: ds)

/-- The place behind some declarations, given the number of type declarations before them and the kind of
the declaration before them. -/
def Place.behind (pl : Place) (n : ℕ) (previous : Option Dec.Kind) : List Dec → Place
  | [] => pl
  | d :: ds => ((pl.bindRun n (Dec.newRun previous (d :: ds))).bindDec d).behind (n + d.typeDecs)
      (some d.kind) ds

/-! ## Sites -/

/-- A node of a checked program where a name is used or something is declared, with its place and its
cell. -/
inductive Site where
  /-- A variable is used. -/
  | use (place : Place) (name : Ident) (binding : Option VarId)
  | call (place : Place) (callee : Ident) (function : Option FunctionId)
  /-- A type name in a literal, an annotation, a signature or the right-hand side of a type. -/
  | typeName (place : Place) (name : Ident)
  /-- A variable or a counter is declared. -/
  | slot (place : Place) (cell : Option VarId)
  | function (place : Place) (head : FunctionHead) (body : Exp) (cell : Option FunctionId)

/-- The type names of a function's signature. -/
def FunctionHead.mentions (head : FunctionHead) : List Ident :=
  head.params.map (·.typeName) ++ head.result.toList

/-- The sites of the heads of the functions of a run. -/
def headSites (pl : Place) : List Dec → List Site
  | [] => []
  | .function head body _ id :: ds =>
    .function pl head body id :: head.mentions.map (.typeName pl) ++ headSites pl ds
  | _ :: ds => headSites pl ds

mutual

/-- The sites in an expression, given the number of type declarations before it. -/
def Exp.sites (t : FrameTable) (pl : Place) (n : ℕ) : Exp → List Site
  | .nil _ | .int _ _ | .string _ _ | .breakLoop _ => []
  | .var _ v => v.sites t pl n
  | .call _ callee args function => .call pl callee function :: sitesAll t pl n args
  | .binary _ _ left right => left.sites t pl n ++ right.sites t pl (n + left.typeDecs)
  | .record _ typeName inits => .typeName pl typeName :: sitesInits t pl n inits
  | .seq _ items => sitesAll t pl n items
  | .assign _ target value => target.sites t pl n ++ value.sites t pl (n + target.typeDecs)
  | .cond _ test thenPart none => test.sites t pl n ++ thenPart.sites t pl (n + test.typeDecs)
  | .cond _ test thenPart (some elsePart) =>
    test.sites t pl n ++ thenPart.sites t pl (n + test.typeDecs) ++
      elsePart.sites t pl (n + test.typeDecs + thenPart.typeDecs)
  | .whileLoop _ test body => test.sites t pl n ++ body.sites t pl (n + test.typeDecs)
  | .doWhile _ body test => body.sites t pl n ++ test.sites t pl (n + body.typeDecs)
  | .forLoop _ counter low high body slot =>
    low.sites t pl n ++ high.sites t pl (n + low.typeDecs) ++ [.slot pl slot] ++
      body.sites t (pl.bindValue counter.name slot) (n + low.typeDecs + high.typeDecs)
  | .letIn _ decs body =>
    sitesDecs t pl n none decs ++ body.sites t (pl.behind n none decs) (n + typeDecsDecs decs)
  | .array _ typeName size init =>
    .typeName pl typeName :: (size.sites t pl n ++ init.sites t pl (n + size.typeDecs))

/-- The sites in a variable. -/
def Var.sites (t : FrameTable) (pl : Place) (n : ℕ) : Var → List Site
  | .simple m name binding => [.use pl ⟨name, m.loc⟩ binding]
  | .field _ base _ _ => base.sites t pl n
  | .element _ base index => base.sites t pl n ++ index.sites t pl (n + base.typeDecs)

/-- The sites in a declaration, besides those of the head of a function. -/
def Dec.sites (t : FrameTable) (pl : Place) (n : ℕ) : Dec → List Site
  | .type dec => dec.body.mentions.map (.typeName pl)
  | .function head body _ id => body.sites t (pl.inBody t head id) n
  | .var _ typeName init _ slot =>
    init.sites t pl n ++ typeName.toList.map (.typeName pl) ++ [.slot pl slot]

def sitesAll (t : FrameTable) (pl : Place) (n : ℕ) : List Exp → List Site
  | [] => []
  | e :: es => e.sites t pl n ++ sitesAll t pl (n + e.typeDecs) es

def sitesInits (t : FrameTable) (pl : Place) (n : ℕ) : List (Ident × Exp) → List Site
  | [] => []
  | (_, e) :: inits => e.sites t pl n ++ sitesInits t pl (n + e.typeDecs) inits

/-- The sites in some declarations. The heads of the functions of a run come before their bodies. -/
def sitesDecs (t : FrameTable) (pl : Place) (n : ℕ) (previous : Option Dec.Kind) :
    List Dec → List Site
  | [] => []
  | d :: ds =>
    let run := Dec.newRun previous (d :: ds)
    let inner := pl.bindRun n run
    headSites inner run ++ d.sites t inner n ++
      sitesDecs t (inner.bindDec d) (n + d.typeDecs) (some d.kind) ds

end

attribute [grind =] Exp.sites Var.sites Dec.sites sitesAll sitesInits sitesDecs

section

variable {t : FrameTable} {pl : Place} {n : ℕ} {k : Dec.Kind} {d : Dec} {ds : List Dec}

/-- A declaration that continues a run opens none. -/
theorem sitesDecs_of_kind (h : d.kind = k) : sitesDecs t pl n (some k) (d :: ds) =
    d.sites t pl n ++ sitesDecs t (pl.bindDec d) (n + d.typeDecs) (some k) ds := by
  rw [sitesDecs, Dec.newRun, h, if_pos rfl]
  rfl

theorem behind_of_kind (h : d.kind = k) : pl.behind n (some k) (d :: ds) =
    (pl.bindDec d).behind (n + d.typeDecs) (some k) ds := by
  rw [Place.behind, Dec.newRun, h, if_pos rfl]
  rfl

end

/-- The sites of a program. -/
def Program.sites (p : Program) (t : FrameTable) : List Site := p.body.live.sites t .initial 2

namespace Site

/-- The slots that belong to a site: that of a variable or counter; the static link and the parameters of a
function. -/
def slots (t : FrameTable) : Site → List (Option VarId)
  | .slot _ cell => [cell]
  | .function _ _ _ cell =>
    match cell.bind fun id => t.functions[id.index]? with
    | some ⟨_, _, .declared _ _ link params⟩ => some link :: params.map some
    | _ => []
  | _ => []

/-- The handle of a declared function. -/
def functions : Site → List (Option FunctionId)
  | .function _ _ _ cell => [cell]
  | _ => []

/-- The frame of a declared function. -/
def frames (t : FrameTable) : Site → List FrameId
  | .function pl _ _ cell => [t.bodyFrame cell pl.frame]
  | _ => []

/-- What is reported where the name of a site is not bound. -/
def unbound : Site → Option Diagnostic
  | .use pl name _ => if pl.values name.name = none then
      some ⟨name.loc, .undefinedVariable name.name⟩ else none
  | .call pl callee _ => if pl.functions callee.name = none then
      some ⟨callee.loc, .undefinedFunction callee.name⟩ else none
  | .typeName pl name => if pl.types name.name = none then
      some ⟨name.loc, .undefinedType name.name⟩ else none
  | _ => none

end Site

/-! ## Declared functions -/

section

variable {t : FrameTable} {id : FunctionId} {name : String} {signature : Option Signature} {level : ℕ}
  {frame : FrameId} {link : VarId} {params : List VarId}

theorem FrameTable.bodyFrame_of_declared
    (h : t.functions[id.index]? = some ⟨name, signature, .declared level frame link params⟩)
    (outer : FrameId) : t.bodyFrame (some id) outer = frame := by
  rw [bodyFrame, Option.bind_some, h]

theorem FrameTable.paramsOf_of_declared
    (h : t.functions[id.index]? = some ⟨name, signature, .declared level frame link params⟩) :
    t.paramsOf (some id) = params := by
  rw [paramsOf, Option.bind_some, h]

theorem Site.slots_of_declared
    (h : t.functions[id.index]? = some ⟨name, signature, .declared level frame link params⟩)
    (pl : Place) (head : FunctionHead) (body : Exp) :
    Site.slots t (.function pl head body (some id)) = some link :: params.map some := by
  rw [Site.slots, Option.bind_some, h]

end

end TigerCheck
