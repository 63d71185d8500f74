import TigerCheck.Proofs.Tree.Hole
import TigerCheck.Proofs.Tree.Induction

/-!
# Putting an expression at a place

An expression of a tree can be replaced by another one, given its place. What is above the place stays as it is,
and so does the mark at the place itself.

* `ExpHole.put`, `VarHole.put`, `DecHole.put`: the tree with another expression at the place.
* `ExpHole.mark_put`, `ExpHole.isLiteral_put`: what can be seen from above the place.
* **`ExpHole.nesting_plug_le`**: functions are nested no deeper with an expression in which they are not.
-/

namespace TigerCheck

mutual

/-- The tree with `y` at the place. -/
def ExpHole.put (y : Exp) : ExpHole → Exp → Exp
  | .here => fun e => y.withMark e.mark
  | .var _ v => fun
    | .var m source => .var m (v.put y source)
    | e => e
  | .arg _ _ before h _ _ => fun
    | .call m callee args function => .call m callee (args.modify before.length (h.put y)) function
    | e => e
  | .binaryLeft _ _ h _ => fun
    | .binary m op left right => .binary m op (h.put y left) right
    | e => e
  | .binaryRight _ _ _ h => fun
    | .binary m op left right => .binary m op left (h.put y right)
    | e => e
  | .init _ _ before _ h _ => fun
    | .record m typeName inits => .record m typeName (inits.modify before.length (Prod.map id (h.put y)))
    | e => e
  | .item _ before h _ => fun
    | .seq m items => .seq m (items.modify before.length (h.put y))
    | e => e
  | .assignTarget _ v _ => fun
    | .assign m target value => .assign m (v.put y target) value
    | e => e
  | .assignValue _ _ h => fun
    | .assign m target value => .assign m target (h.put y value)
    | e => e
  | .condTest _ h _ _ => fun
    | .cond m test thenPart elsePart => .cond m (h.put y test) thenPart elsePart
    | e => e
  | .condThen _ _ h _ => fun
    | .cond m test thenPart elsePart => .cond m test (h.put y thenPart) elsePart
    | e => e
  | .condElse _ _ _ h => fun
    | .cond m test thenPart elsePart => .cond m test thenPart (elsePart.map (h.put y))
    | e => e
  | .whileTest _ h _ => fun
    | .whileLoop m test body => .whileLoop m (h.put y test) body
    | e => e
  | .whileBody _ _ h => fun
    | .whileLoop m test body => .whileLoop m test (h.put y body)
    | e => e
  | .doBody _ h _ => fun
    | .doWhile m body test => .doWhile m (h.put y body) test
    | e => e
  | .doTest _ _ h => fun
    | .doWhile m body test => .doWhile m body (h.put y test)
    | e => e
  | .forLow _ _ h _ _ _ => fun
    | .forLoop m counter low high body slot => .forLoop m counter (h.put y low) high body slot
    | e => e
  | .forHigh _ _ _ h _ _ => fun
    | .forLoop m counter low high body slot => .forLoop m counter low (h.put y high) body slot
    | e => e
  | .forBody _ _ _ _ h _ => fun
    | .forLoop m counter low high body slot => .forLoop m counter low high (h.put y body) slot
    | e => e
  | .letDec _ before d _ _ => fun
    | .letIn m decs body => .letIn m (decs.modify before.length (d.put y)) body
    | e => e
  | .letBody _ _ h => fun
    | .letIn m decs body => .letIn m decs (h.put y body)
    | e => e
  | .arraySize _ _ h _ => fun
    | .array m typeName size init => .array m typeName (h.put y size) init
    | e => e
  | .arrayInit _ _ _ h => fun
    | .array m typeName size init => .array m typeName size (h.put y init)
    | e => e

@[inherit_doc ExpHole.put]
def VarHole.put (y : Exp) : VarHole → Var → Var
  | .field _ v _ _ => fun
    | .field m base name position => .field m (v.put y base) name position
    | v => v
  | .elementBase _ v _ => fun
    | .element m base index => .element m (v.put y base) index
    | v => v
  | .elementIndex _ _ h => fun
    | .element m base index => .element m base (h.put y index)
    | v => v

@[inherit_doc ExpHole.put]
def DecHole.put (y : Exp) : DecHole → Dec → Dec
  | .function _ h _ _ => fun
    | .function head body loc id => .function head (h.put y body) loc id
    | d => d
  | .var _ _ h _ _ => fun
    | .var name typeName init loc slot => .var name typeName (h.put y init) loc slot
    | d => d

end

/-! ## What can be seen from above -/

namespace ExpHole

@[simp] theorem mark_put (y : Exp) (h : ExpHole) (e : Exp) : (h.put y e).mark = e.mark := by
  cases h <;> simp only [put]
  case here => exact y.mark_withMark e.mark
  all_goals split <;> rfl

@[simp] theorem ty_put (y : Exp) (h : ExpHole) (e : Exp) : (h.put y e).ty = e.ty :=
  congrArg Mark.ty (h.mark_put y e)

theorem isLiteral_put (y : Exp) {h : ExpHole} (hne : h ≠ .here) (e : Exp) :
    (h.put y e).isLiteral = e.isLiteral := by
  cases h <;> simp only [put]
  case here => exact absurd rfl hne
  all_goals split <;> rfl

end ExpHole

namespace VarHole

@[simp] theorem mark_put (y : Exp) (h : VarHole) (v : Var) : (h.put y v).mark = v.mark := by
  cases h <;> simp only [put] <;> split <;> rfl

@[simp] theorem ty_put (y : Exp) (h : VarHole) (v : Var) : (h.put y v).ty = v.ty :=
  congrArg Mark.ty (h.mark_put y v)

end VarHole

/-! ## Nesting -/

theorem nestings_append (es fs : List Exp) : nestings (es ++ fs) = max (nestings es) (nestings fs) := by
  induction es with
  | nil => simp [nestings]
  | cons e es ih => rw [List.cons_append, nestings, nestings, ih, Nat.max_assoc]

theorem initNestings_append (is js : List (Ident × Exp)) :
    initNestings (is ++ js) = max (initNestings is) (initNestings js) := by
  induction is with
  | nil => simp [initNestings]
  | cons i is ih => rw [List.cons_append, initNestings, initNestings, ih, Nat.max_assoc]

mutual

/-- **Functions are nested no deeper with an expression in which they are not.** -/
theorem ExpHole.nesting_plug_le {x x' : Exp} (hle : x.nesting ≤ x'.nesting) :
    ∀ h : ExpHole, (h.plug x).nesting ≤ (h.plug x').nesting
  | .here => hle
  | .var _ v => v.nesting_plug_le hle
  | .arg _ _ before h after _ => by
    have := h.nesting_plug_le hle
    simp only [ExpHole.plug, Exp.nesting, nestings_append, nestings]
    omega
  | .init _ _ before _ h after => by
    have := h.nesting_plug_le hle
    simp only [ExpHole.plug, Exp.nesting, initNestings_append, initNestings]
    omega
  | .item _ before h after => by
    have := h.nesting_plug_le hle
    simp only [ExpHole.plug, Exp.nesting, nestings_append, nestings]
    omega
  | .assignTarget _ v _ => by
    have := v.nesting_plug_le hle
    simp only [ExpHole.plug, Exp.nesting]
    omega
  | .letDec _ before d after _ => by
    have := d.nesting_plug_le hle
    simp only [ExpHole.plug, Exp.nesting, decNestings_append, decNestings]
    omega
  | .condTest _ h _ elsePart | .condThen _ _ h elsePart => by
    have := h.nesting_plug_le hle
    cases elsePart <;>
    · simp only [ExpHole.plug, Exp.nesting]
      omega
  | .binaryLeft _ _ h _ | .binaryRight _ _ _ h | .assignValue _ _ h | .condElse _ _ _ h | .whileTest _ h _
  | .whileBody _ _ h | .doBody _ h _ | .doTest _ _ h | .forLow _ _ h _ _ _ | .forHigh _ _ _ h _ _
  | .forBody _ _ _ _ h _ | .letBody _ _ h | .arraySize _ _ h _ | .arrayInit _ _ _ h => by
    have := h.nesting_plug_le hle
    simp only [ExpHole.plug, Exp.nesting]
    omega

theorem VarHole.nesting_plug_le {x x' : Exp} (hle : x.nesting ≤ x'.nesting) :
    ∀ h : VarHole, (h.plug x).nesting ≤ (h.plug x').nesting
  | .field _ v _ _ => v.nesting_plug_le hle
  | .elementBase _ v _ => by
    have := v.nesting_plug_le hle
    simp only [VarHole.plug, Var.nesting]
    omega
  | .elementIndex _ _ h => by
    have := h.nesting_plug_le hle
    simp only [VarHole.plug, Var.nesting]
    omega

theorem DecHole.nesting_plug_le {x x' : Exp} (hle : x.nesting ≤ x'.nesting) :
    ∀ h : DecHole, (h.plug x).nesting ≤ (h.plug x').nesting
  | .function _ h _ _ => Nat.succ_le_succ (h.nesting_plug_le hle)
  | .var _ _ h _ _ => h.nesting_plug_le hle

end

end TigerCheck
