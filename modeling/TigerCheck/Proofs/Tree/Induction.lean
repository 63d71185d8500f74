import TigerCheck.Tree

/-!
# Induction on trees

The trees of a program are mutually recursive, and hold lists of each other. What is proved of all of
them has one case for each form of node, which may assume what is to be proved of the parts.

* `Tree.Cases`: the cases of an induction. **`Tree.Cases.all`**: they are enough.
* `Exp.nesting`, `Dec.nesting`: how many functions are nested in each other.
-/

namespace TigerCheck

/-- The cases of an induction on expressions, variables and declarations. -/
structure Tree.Cases (P : Exp → Prop) (Q : Var → Prop) (R : Dec → Prop) : Prop where
  var : ∀ m v, Q v → P (.var m v)
  nil : ∀ m, P (.nil m)
  int : ∀ m n, P (.int m n)
  string : ∀ m s, P (.string m s)
  call : ∀ m callee args function, (∀ e ∈ args, P e) → P (.call m callee args function)
  binary : ∀ m op left right, P left → P right → P (.binary m op left right)
  record : ∀ m typeName inits, (∀ i ∈ inits, P i.2) → P (.record m typeName inits)
  seq : ∀ m items, (∀ e ∈ items, P e) → P (.seq m items)
  assign : ∀ m target value, Q target → P value → P (.assign m target value)
  condNone : ∀ m test thenPart, P test → P thenPart → P (.cond m test thenPart none)
  condSome : ∀ m test thenPart elsePart, P test → P thenPart → P elsePart →
    P (.cond m test thenPart (some elsePart))
  whileLoop : ∀ m test body, P test → P body → P (.whileLoop m test body)
  doWhile : ∀ m body test, P body → P test → P (.doWhile m body test)
  forLoop : ∀ m counter low high body slot, P low → P high → P body →
    P (.forLoop m counter low high body slot)
  breakLoop : ∀ m, P (.breakLoop m)
  letIn : ∀ m decs body, (∀ d ∈ decs, R d) → P body → P (.letIn m decs body)
  array : ∀ m typeName size init, P size → P init → P (.array m typeName size init)
  simple : ∀ m name binding, Q (.simple m name binding)
  field : ∀ m base name position, Q base → Q (.field m base name position)
  element : ∀ m base index, Q base → P index → Q (.element m base index)
  type : ∀ dec, R (.type dec)
  function : ∀ head body loc id, P body → R (.function head body loc id)
  varDec : ∀ name typeName init loc slot, P init → R (.var name typeName init loc slot)

namespace Tree.Cases

mutual

theorem exp {P : Exp → Prop} {Q : Var → Prop} {R : Dec → Prop} (h : Tree.Cases P Q R) :
    ∀ e : Exp, P e
  | .var m v => h.var m v (var' h v)
  | .nil m => h.nil m
  | .int m n => h.int m n
  | .string m s => h.string m s
  | .call m callee args function => h.call m callee args function (exps h args)
  | .binary m op left right => h.binary m op left right (exp h left) (exp h right)
  | .record m typeName inits => h.record m typeName inits (inits' h inits)
  | .seq m items => h.seq m items (exps h items)
  | .assign m target value => h.assign m target value (var' h target) (exp h value)
  | .cond m test thenPart none => h.condNone m test thenPart (exp h test) (exp h thenPart)
  | .cond m test thenPart (some elsePart) =>
    h.condSome m test thenPart elsePart (exp h test) (exp h thenPart) (exp h elsePart)
  | .whileLoop m test body => h.whileLoop m test body (exp h test) (exp h body)
  | .doWhile m body test => h.doWhile m body test (exp h body) (exp h test)
  | .forLoop m counter low high body slot =>
    h.forLoop m counter low high body slot (exp h low) (exp h high) (exp h body)
  | .breakLoop m => h.breakLoop m
  | .letIn m ds body => h.letIn m ds body (decs h ds) (exp h body)
  | .array m typeName size init => h.array m typeName size init (exp h size) (exp h init)

theorem var' {P : Exp → Prop} {Q : Var → Prop} {R : Dec → Prop} (h : Tree.Cases P Q R) :
    ∀ v : Var, Q v
  | .simple m name binding => h.simple m name binding
  | .field m base name position => h.field m base name position (var' h base)
  | .element m base index => h.element m base index (var' h base) (exp h index)

theorem dec {P : Exp → Prop} {Q : Var → Prop} {R : Dec → Prop} (h : Tree.Cases P Q R) :
    ∀ d : Dec, R d
  | .type d => h.type d
  | .function head body loc id => h.function head body loc id (exp h body)
  | .var name typeName init loc slot => h.varDec name typeName init loc slot (exp h init)

theorem exps {P : Exp → Prop} {Q : Var → Prop} {R : Dec → Prop} (h : Tree.Cases P Q R) :
    ∀ es : List Exp, ∀ e ∈ es, P e
  | [] => List.forall_mem_nil _
  | e :: es => List.forall_mem_cons.mpr ⟨exp h e, exps h es⟩

theorem inits' {P : Exp → Prop} {Q : Var → Prop} {R : Dec → Prop} (h : Tree.Cases P Q R) :
    ∀ is : List (Ident × Exp), ∀ i ∈ is, P i.2
  | [] => List.forall_mem_nil _
  | (_, e) :: is => List.forall_mem_cons.mpr ⟨exp h e, inits' h is⟩

theorem decs {P : Exp → Prop} {Q : Var → Prop} {R : Dec → Prop} (h : Tree.Cases P Q R) :
    ∀ ds : List Dec, ∀ d ∈ ds, R d
  | [] => List.forall_mem_nil _
  | d :: ds => List.forall_mem_cons.mpr ⟨dec h d, decs h ds⟩

end

/-- **The cases cover all trees.** -/
theorem all {P : Exp → Prop} {Q : Var → Prop} {R : Dec → Prop} (h : Tree.Cases P Q R) :
    (∀ e, P e) ∧ (∀ v, Q v) ∧ ∀ d, R d :=
  ⟨h.exp, h.var', h.dec⟩

end Tree.Cases

/-! ## Nesting -/

mutual

/-- How many functions in an expression are nested in each other. -/
def Exp.nesting : Exp → Nat
  | .nil _ | .int _ _ | .string _ _ | .breakLoop _ => 0
  | .var _ v => v.nesting
  | .call _ _ args _ => nestings args
  | .binary _ _ left right => max left.nesting right.nesting
  | .record _ _ inits => initNestings inits
  | .seq _ items => nestings items
  | .assign _ target value => max target.nesting value.nesting
  | .cond _ test thenPart none => max test.nesting thenPart.nesting
  | .cond _ test thenPart (some elsePart) =>
    max (max test.nesting thenPart.nesting) elsePart.nesting
  | .whileLoop _ test body => max test.nesting body.nesting
  | .doWhile _ body test => max body.nesting test.nesting
  | .forLoop _ _ low high body _ => max (max low.nesting high.nesting) body.nesting
  | .letIn _ decs body => max (decNestings decs) body.nesting
  | .array _ _ size init => max size.nesting init.nesting

/-- How many functions in a variable are nested in each other. -/
def Var.nesting : Var → Nat
  | .simple .. => 0
  | .field _ base _ _ => base.nesting
  | .element _ base index => max base.nesting index.nesting

/-- How many functions in a declaration are nested in each other, a declared function included. -/
def Dec.nesting : Dec → Nat
  | .type _ => 0
  | .function _ body _ _ => body.nesting + 1
  | .var _ _ init _ _ => init.nesting

def nestings : List Exp → Nat
  | [] => 0
  | e :: es => max e.nesting (nestings es)

def initNestings : List (Ident × Exp) → Nat
  | [] => 0
  | (_, e) :: inits => max e.nesting (initNestings inits)

def decNestings : List Dec → Nat
  | [] => 0
  | d :: ds => max d.nesting (decNestings ds)

end

theorem decNestings_append (ds es : List Dec) :
    decNestings (ds ++ es) = max (decNestings ds) (decNestings es) := by
  induction ds with
  | nil => simp [decNestings]
  | cons d ds ih => rw [List.cons_append, decNestings, decNestings, ih, Nat.max_assoc]

end TigerCheck
