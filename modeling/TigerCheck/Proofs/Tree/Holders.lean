import TigerCheck.Proofs.Tree.Live

/-!
# Who holds a slot

The declarations of variables and the loops with a counter are the nodes of a tree that hold a slot of a
frame. Those outside the functions of a tree hold slots of one frame, that of the code around the tree. They
are listed here in the order in which the slots are allocated, each with its name and its cell.

* `Holder`: a name, and the cell of the node that declares it.
* `Exp.holders`, `Var.holders`, `Dec.holders`: the holders in a tree, outside the functions in it.
* `holdersDecs_append`, `holdersDecs_eq_nil`: lists of declarations.
-/

namespace TigerCheck

/-- A node that declares a variable or a counter: the name, and what is in the cell for the slot. -/
structure Holder where
  name : String
  slot : Option VarId
deriving DecidableEq

mutual

/-- The holders in an expression: a variable comes after its initializer, a counter after its bounds and
before its body. -/
def Exp.holders : Exp → List Holder
  | .nil _ | .int _ _ | .string _ _ | .breakLoop _ => []
  | .var _ v => v.holders
  | .call _ _ args _ => holdersAll args
  | .binary _ _ left right => left.holders ++ right.holders
  | .record _ _ inits => holdersInits inits
  | .seq _ items => holdersAll items
  | .assign _ target value => target.holders ++ value.holders
  | .cond _ test thenPart none => test.holders ++ thenPart.holders
  | .cond _ test thenPart (some elsePart) => test.holders ++ thenPart.holders ++ elsePart.holders
  | .whileLoop _ test body => test.holders ++ body.holders
  | .doWhile _ body test => body.holders ++ test.holders
  | .forLoop _ counter low high body slot =>
    low.holders ++ high.holders ++ [⟨counter.name, slot⟩] ++ body.holders
  | .letIn _ decs body => holdersDecs decs ++ body.holders
  | .array _ _ size init => size.holders ++ init.holders

/-- The holders in a variable. -/
def Var.holders : Var → List Holder
  | .simple .. => []
  | .field _ base _ _ => base.holders
  | .element _ base index => base.holders ++ index.holders

/-- The holders in a declaration. What is declared within a function belongs to the function. -/
def Dec.holders : Dec → List Holder
  | .type _ | .function .. => []
  | .var name _ init _ slot => init.holders ++ [⟨name.name, slot⟩]

def holdersAll : List Exp → List Holder
  | [] => []
  | e :: es => e.holders ++ holdersAll es

def holdersInits : List (Ident × Exp) → List Holder
  | [] => []
  | (_, e) :: inits => e.holders ++ holdersInits inits

def holdersDecs : List Dec → List Holder
  | [] => []
  | d :: ds => d.holders ++ holdersDecs ds

end

theorem holdersDecs_append (ds es : List Dec) :
    holdersDecs (ds ++ es) = holdersDecs ds ++ holdersDecs es := by
  induction ds with
  | nil => rfl
  | cons d ds ih => rw [List.cons_append, holdersDecs, holdersDecs, ih, List.append_assoc]

/-- Types and functions hold no slot of the code around them. -/
theorem holdersDecs_eq_nil {ds : List Dec} (h : ∀ d ∈ ds, d.kind ≠ .var) : holdersDecs ds = [] := by
  induction ds with
  | nil => rfl
  | cons d ds ih =>
    obtain ⟨hd, hds⟩ := List.forall_mem_cons.mp h
    have hnil : d.holders = [] := by
      cases d with
      | type | function => rfl
      | var => exact absurd rfl hd
    rw [holdersDecs, hnil, ih hds, List.nil_append]

end TigerCheck
