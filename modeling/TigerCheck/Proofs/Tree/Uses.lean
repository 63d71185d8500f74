import TigerCheck.Proofs.Tree.Induction

/-!
# Uses of variables

Where in a checked tree a variable is used: by which node, in the body of which function, and at which
nesting level. The frame of a function's body is found in the table of functions, under the handle in
the function's cell.

* `Use`: a bound variable, with the frame and the level of the code around it.
* `Exp.uses`, `Var.uses`, `Dec.uses`: the uses in a tree.
* `Exp.Unbound`: no variable of the tree is bound yet. **`Exp.uses_eq_nil`**: then there are no uses.
-/

namespace TigerCheck

/-- A variable that is used, with the frame and the nesting level of the code that uses it. -/
structure Use where
  slot : VarId
  frame : FrameId
  level : Nat
deriving DecidableEq

/-- The frame of a function's body; that of the surroundings where no function is known. -/
def FrameTable.bodyFrame (t : FrameTable) (id : Option FunctionId) (outer : FrameId) : FrameId :=
  match id.bind fun id => t.functions[id.index]? with
  | some ⟨_, _, .declared _ frame _ _⟩ => frame
  | _ => outer

mutual

/-- The uses in an expression. -/
def Exp.uses (t : FrameTable) (frame : FrameId) (level : Nat) : Exp → List Use
  | .nil _ | .int _ _ | .string _ _ | .breakLoop _ => []
  | .var _ v => v.uses t frame level
  | .call _ _ args _ => usesOfAll t frame level args
  | .binary _ _ left right => left.uses t frame level ++ right.uses t frame level
  | .record _ _ inits => usesOfInits t frame level inits
  | .seq _ items => usesOfAll t frame level items
  | .assign _ target value => target.uses t frame level ++ value.uses t frame level
  | .cond _ test thenPart none => test.uses t frame level ++ thenPart.uses t frame level
  | .cond _ test thenPart (some elsePart) =>
    test.uses t frame level ++ (thenPart.uses t frame level ++ elsePart.uses t frame level)
  | .whileLoop _ test body => test.uses t frame level ++ body.uses t frame level
  | .doWhile _ body test => body.uses t frame level ++ test.uses t frame level
  | .forLoop _ _ low high body _ =>
    low.uses t frame level ++ (high.uses t frame level ++ body.uses t frame level)
  | .letIn _ decs body => usesOfDecs t frame level decs ++ body.uses t frame level
  | .array _ _ size init => size.uses t frame level ++ init.uses t frame level

/-- The uses in a variable: where it is a name, its slot if it is bound. -/
def Var.uses (t : FrameTable) (frame : FrameId) (level : Nat) : Var → List Use
  | .simple _ _ none => []
  | .simple _ _ (some v) => [⟨v, frame, level⟩]
  | .field _ base _ _ => base.uses t frame level
  | .element _ base index => base.uses t frame level ++ index.uses t frame level

/-- The uses in a declaration. The body of a function is one level deeper. -/
def Dec.uses (t : FrameTable) (frame : FrameId) (level : Nat) : Dec → List Use
  | .type _ => []
  | .function _ body _ id => body.uses t (t.bodyFrame id frame) (level + 1)
  | .var _ _ init _ _ => init.uses t frame level

def usesOfAll (t : FrameTable) (frame : FrameId) (level : Nat) : List Exp → List Use
  | [] => []
  | e :: es => e.uses t frame level ++ usesOfAll t frame level es

def usesOfInits (t : FrameTable) (frame : FrameId) (level : Nat) : List (Ident × Exp) → List Use
  | [] => []
  | (_, e) :: inits => e.uses t frame level ++ usesOfInits t frame level inits

def usesOfDecs (t : FrameTable) (frame : FrameId) (level : Nat) : List Dec → List Use
  | [] => []
  | d :: ds => d.uses t frame level ++ usesOfDecs t frame level ds

end

/-! ## Fresh trees -/

mutual

/-- No variable of an expression is bound yet. -/
def Exp.Unbound : Exp → Prop
  | .nil _ | .int _ _ | .string _ _ | .breakLoop _ => True
  | .var _ v => v.Unbound
  | .call _ _ args _ => UnboundAll args
  | .binary _ _ left right => left.Unbound ∧ right.Unbound
  | .record _ _ inits => UnboundInits inits
  | .seq _ items => UnboundAll items
  | .assign _ target value => target.Unbound ∧ value.Unbound
  | .cond _ test thenPart none => test.Unbound ∧ thenPart.Unbound
  | .cond _ test thenPart (some elsePart) => test.Unbound ∧ thenPart.Unbound ∧ elsePart.Unbound
  | .whileLoop _ test body => test.Unbound ∧ body.Unbound
  | .doWhile _ body test => body.Unbound ∧ test.Unbound
  | .forLoop _ _ low high body _ => low.Unbound ∧ high.Unbound ∧ body.Unbound
  | .letIn _ decs body => UnboundDecs decs ∧ body.Unbound
  | .array _ _ size init => size.Unbound ∧ init.Unbound

/-- No name in a variable is bound yet. -/
def Var.Unbound : Var → Prop
  | .simple _ _ binding => binding = none
  | .field _ base _ _ => base.Unbound
  | .element _ base index => base.Unbound ∧ index.Unbound

/-- No variable of a declaration is bound yet. -/
def Dec.Unbound : Dec → Prop
  | .type _ => True
  | .function _ body _ _ => body.Unbound
  | .var _ _ init _ _ => init.Unbound

def UnboundAll : List Exp → Prop
  | [] => True
  | e :: es => e.Unbound ∧ UnboundAll es

def UnboundInits : List (Ident × Exp) → Prop
  | [] => True
  | (_, e) :: inits => e.Unbound ∧ UnboundInits inits

def UnboundDecs : List Dec → Prop
  | [] => True
  | d :: ds => d.Unbound ∧ UnboundDecs ds

end

theorem usesOfAll_eq_nil {es : List Exp}
    (h : ∀ e ∈ es, e.Unbound → ∀ t frame level, e.uses t frame level = []) (hu : UnboundAll es)
    (t : FrameTable) (frame : FrameId) (level : Nat) : usesOfAll t frame level es = [] := by
  induction es with
  | nil => rfl
  | cons e es ih =>
    rw [List.forall_mem_cons] at h
    rw [usesOfAll, h.1 hu.1, ih h.2 hu.2, List.append_nil]

theorem usesOfInits_eq_nil {inits : List (Ident × Exp)}
    (h : ∀ i ∈ inits, i.2.Unbound → ∀ t frame level, i.2.uses t frame level = [])
    (hu : UnboundInits inits) (t : FrameTable) (frame : FrameId) (level : Nat) :
    usesOfInits t frame level inits = [] := by
  induction inits with
  | nil => rfl
  | cons i inits ih =>
    rw [List.forall_mem_cons] at h
    rw [usesOfInits, h.1 hu.1, ih h.2 hu.2, List.append_nil]

theorem usesOfDecs_eq_nil {ds : List Dec}
    (h : ∀ d ∈ ds, d.Unbound → ∀ t frame level, d.uses t frame level = []) (hu : UnboundDecs ds)
    (t : FrameTable) (frame : FrameId) (level : Nat) : usesOfDecs t frame level ds = [] := by
  induction ds with
  | nil => rfl
  | cons d ds ih =>
    rw [List.forall_mem_cons] at h
    rw [usesOfDecs, h.1 hu.1, ih h.2 hu.2, List.append_nil]

theorem usesOfDecs_append (t : FrameTable) (frame : FrameId) (level : Nat) (ds es : List Dec) :
    usesOfDecs t frame level (ds ++ es) =
      usesOfDecs t frame level ds ++ usesOfDecs t frame level es := by
  induction ds with
  | nil => rfl
  | cons d ds ih => rw [List.cons_append, usesOfDecs, usesOfDecs, ih, List.append_assoc]

/-- **A tree without bound variables has no uses.** -/
theorem uses_eq_nil : Tree.Cases
    (fun e => e.Unbound → ∀ t frame level, e.uses t frame level = [])
    (fun v => v.Unbound → ∀ t frame level, v.uses t frame level = [])
    (fun d => d.Unbound → ∀ t frame level, d.uses t frame level = []) where
  var m v h hu t frame level := h hu t frame level
  nil m _ t frame level := rfl
  int m n _ t frame level := rfl
  string m s _ t frame level := rfl
  call m callee args function h hu t frame level := usesOfAll_eq_nil h hu t frame level
  binary m op left right hl hr hu t frame level := by rw [Exp.uses, hl hu.1, hr hu.2]; rfl
  record m typeName inits h hu t frame level := usesOfInits_eq_nil h hu t frame level
  seq m items h hu t frame level := usesOfAll_eq_nil h hu t frame level
  assign m target value ht hv hu t frame level := by rw [Exp.uses, ht hu.1, hv hu.2]; rfl
  condNone m test thenPart ht hp hu t frame level := by rw [Exp.uses, ht hu.1, hp hu.2]; rfl
  condSome m test thenPart elsePart ht hp he hu t frame level := by
    rw [Exp.uses, ht hu.1, hp hu.2.1, he hu.2.2]; rfl
  whileLoop m test body ht hb hu t frame level := by rw [Exp.uses, ht hu.1, hb hu.2]; rfl
  doWhile m body test hb ht hu t frame level := by rw [Exp.uses, hb hu.1, ht hu.2]; rfl
  forLoop m counter low high body slot hl hh hb hu t frame level := by
    rw [Exp.uses, hl hu.1, hh hu.2.1, hb hu.2.2]; rfl
  breakLoop m _ t frame level := rfl
  letIn m decs body hd hb hu t frame level := by
    rw [Exp.uses, usesOfDecs_eq_nil hd hu.1, hb hu.2]; rfl
  array m typeName size init hs hi hu t frame level := by rw [Exp.uses, hs hu.1, hi hu.2]; rfl
  simple m name binding hu t frame level := by
    rw [Var.Unbound] at hu
    rw [hu, Var.uses]
  field m base name position h hu t frame level := h hu t frame level
  element m base index hb hi hu t frame level := by rw [Var.uses, hb hu.1, hi hu.2]; rfl
  type dec _ t frame level := rfl
  function head body loc id h hu t frame level := h hu _ _ _
  varDec name typeName init loc slot h hu t frame level := h hu t frame level

theorem Dec.uses_eq_nil {d : Dec} (hu : d.Unbound) (t : FrameTable) (frame : FrameId)
    (level : Nat) : d.uses t frame level = [] :=
  TigerCheck.uses_eq_nil.all.2.2 d hu t frame level

end TigerCheck
