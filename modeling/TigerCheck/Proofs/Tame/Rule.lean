import TigerCheck.Checker.Rule
import TigerCheck.Proofs.Tame.TypeName

/-!
# Typing rules are tame

A rule gives an answer only if every part has one, and then it reports nothing. Otherwise it may report
a fault, and it does nothing else. Apart from the rules that look a name up, this is never the fault of
a name.

* `Fault.IsPlain`: the faults of typing rules.
* `Check.passive_simple`, `Check.passive_call`: variables and calls, where names are looked up.
* `Check.passive_binary`, `Check.passive_assign`, …: the rules of expressions.
* `Check.passive_inferred`, `Check.tame_declared`, `Check.passive_body`: the ends of declarations.
-/

namespace TigerCheck

/-- A fault that a typing rule finds, which comes neither from a name nor from the place of a node. -/
def Fault.IsPlain : Fault → Prop
  | undefinedVariable _ | undefinedFunction _ | undefinedType _ | duplicateDefinition _
  | endlessTypeLoop _ | breakOutsideLoop => False
  | _ => True

namespace Rule

open Check

/-- The end of the declaration of a variable whose declared type was looked for. -/
def against (typeName : Ident) (init : Mark) (literal : Bool) (declared : Option Ty) :
    Check (Option Ty × Bool) := do
  match declared, init.ty with
  | some d, some i =>
    if (← isMatch d i) && !(literal && d ≠ i) then return (declared, true)
    else return (declared, ← refuse .varTypeMismatch typeName.loc)
  | _, _ => return (declared, false)

theorem annotated_eq (typeName : Ident) (init : Mark) (literal : Bool) :
    annotated typeName init literal = typeOf typeName >>= against typeName init literal := rfl

end Rule

namespace Check

variable {ok : Prop} {F : Fault → Prop}

/-! ## Names -/

theorem passive_target (name : String) : Passive F ok (Rule.target? name) fun _ => ok := by
  refine .get (fun _ _ => rfl) fun c => ?_
  cases c.functions.lookup name with
  | none => exact .pure id
  | some f =>
    refine .get (fun _ _ => rfl) fun c => ?_
    exact Guarded.lift.bind fun p => Guarded.lift.bind fun s => .pure id

theorem passive_simple {loc : Location} {name : String} (hF : F (.undefinedVariable name)) :
    Passive F True (Rule.simple loc name) (·.2 ≠ none) := by
  refine .get (fun _ _ => rfl) fun c => ?_
  cases c.values.lookup name with
  | none => exact (passive_fail hF).bind fun ty => .pure id
  | some v =>
    refine .get (fun c n => ?_) fun c => Guarded.lift.bind fun slot => .pure fun _ => trivial
    simp only [Checker.levelled_frames, FrameTable.levelled, FrameTable.var, entry, Array.getElem?_map]
    cases c.frames.vars[v.index]? with
    | none => rfl
    | some slot => rfl

theorem passive_call (hF : ∀ f : Fault, f.IsPlain → F f) {loc : Location} {callee : Ident}
    (target : Option Rule.Target) {args : Nat} {fit : Bool}
    (hcallee : target = none → F (.undefinedFunction callee.name)) :
    Passive F (fit = true) (Rule.call loc callee target args fit) (· ≠ none) := by
  unfold Rule.call
  split
  · exact passive_fail (hcallee rfl)
  · exact .pure fun h => (h rfl).elim
  · refine .ite (.pure fun h => ?_) (passive_fail (hF _ trivial))
    cases fit with
    | true => rfl
    | false => exact (h rfl).elim

/-! ## Expressions -/

theorem passive_binary {op : BinOp} {loc : Location} (left right : Option Ty) :
    Passive Fault.IsPlain (left ≠ none ∧ right ≠ none) (Rule.binary op loc left right) (· ≠ none) := by
  unfold Rule.binary
  split
  · refine .of_true (.ite (.ite (passive_fail trivial) ?_) (.ite (.pure fun _ => trivial)
      (passive_fail trivial))) ⟨nofun, nofun⟩
    exact passive_isMatch.bind fun _ => .ite (.pure fun _ => trivial) (passive_fail trivial)
  · exact .pure fun h => (h rfl).elim

theorem passive_assign (target value : Mark) :
    Passive Fault.IsPlain (target.ty ≠ none ∧ value.ty ≠ none) (Rule.assign target value) (· ≠ none) := by
  unfold Rule.assign
  split
  · rename_i ht hv
    refine .of_true ?_ (by simp [ht, hv])
    exact passive_isMatch.bind fun _ => .ite (.pure fun _ => trivial) (passive_fail trivial)
  · exact .pure fun h => (h rfl).elim

theorem passive_branches {thenTy : Ty} (elsePart : Mark) :
    Passive Fault.IsPlain (elsePart.ty ≠ none) (Rule.branches thenTy elsePart) (· ≠ none) := by
  unfold Rule.branches
  split
  · exact .pure fun h => (h rfl).elim
  · rename_i he
    refine .of_true ?_ (by simp [he])
    exact passive_isMatch.bind fun _ => .ite (.pure fun _ => trivial) (passive_fail trivial)

theorem passive_cond {loc : Location} (test thenPart : Mark) (elsePart : Option Mark) :
    Passive Fault.IsPlain (test.ty ≠ none ∧ thenPart.ty ≠ none ∧ ∀ m, elsePart = some m → m.ty ≠ none)
      (Rule.cond loc test thenPart elsePart) (· ≠ none) := by
  unfold Rule.cond
  split
  · exact .pure fun h => (h rfl).elim
  · rename_i ht
    refine .ite ?_ (passive_fail trivial)
    split
    · exact .pure fun h => (h rfl).elim
    · rename_i elsePart hp
      refine (passive_branches elsePart).imp (fun he => ?_) fun _ h => h
      simpa [ht, hp] using he
    · rename_i hp
      exact .ite (.pure fun _ => by simp [ht, hp]) (passive_fail trivial)

theorem passive_require (part : Mark) (fits : Ty → Bool) {fault : Fault} (hfault : fault.IsPlain) :
    Passive Fault.IsPlain (part.ty ≠ none) (Rule.require part fits fault) (· = true) := by
  unfold Rule.require
  split
  · exact .pure nofun
  · rename_i ht
    exact .ite (.pure fun _ => by simp [ht]) (passive_refuse hfault)

theorem passive_loop (test body : Mark) :
    Passive Fault.IsPlain (test.ty ≠ none ∧ body.ty ≠ none) (Rule.loop test body) (· ≠ none) := by
  have htest : Passive Fault.IsPlain (body.ty ≠ none ∧ test.ty ≠ none)
      (Rule.require test (·.isInt) .loopTestRequiresInteger) fun ok => body.ty ≠ none ∧ ok = true :=
    .frame (passive_require test _ trivial)
  have hbody (testOk : Bool) : Passive Fault.IsPlain (testOk = true ∧ body.ty ≠ none)
      (Rule.require body (·.isVoid) .loopBodyReturnsValue) fun ok => testOk = true ∧ ok = true :=
    .frame (passive_require body _ trivial)
  refine (htest.imp And.symm fun _ h => h).bind fun testOk => ?_
  refine ((hbody testOk).imp And.symm fun _ h => h).bind fun bodyOk => .pure ?_
  cases testOk <;> cases bodyOk <;> simp

theorem passive_bounds {loc : Location} (low high : Option Ty) :
    Passive Fault.IsPlain (low ≠ none ∧ high ≠ none) (Rule.bounds loc low high) (· = true) := by
  unfold Rule.bounds
  split
  · exact .of_true (.ite (.pure fun _ => trivial) (passive_refuse trivial)) ⟨nofun, nofun⟩
  · exact .pure nofun

theorem passive_array {typeName : Ident} (ty : Option Ty) (size init : Mark) :
    Passive Fault.IsPlain (ty ≠ none ∧ size.ty ≠ none ∧ init.ty ≠ none) (Rule.array typeName ty size init)
      (· ≠ none) := by
  unfold Rule.array
  split
  · exact .pure fun h => (h rfl).elim
  · refine .ite (.get (fun _ _ => rfl) fun c => Guarded.lift.bind fun element => ?_)
      (passive_fail trivial)
    split
    · rename_i hs hi
      refine .of_true ?_ (by simp [hs, hi])
      refine .ite ?_ (passive_fail trivial)
      exact passive_sameType.bind fun _ => .ite (.pure fun _ => trivial) (passive_fail trivial)
    · exact .pure fun h => (h rfl).elim

/-! ## Arguments and initializers -/

theorem passive_arg (param : Option Ty) (value : Mark) :
    Passive Fault.IsPlain (value.ty ≠ none) (Rule.arg param value) (· = true) := by
  unfold Rule.arg
  split
  · exact .pure nofun
  · rename_i hv
    exact .pure fun _ => by simp [hv]
  · rename_i hv
    refine .of_true ?_ (by simp [hv])
    exact passive_sameType.bind fun _ => .ite (.pure fun _ => trivial) (passive_refuse trivial)

theorem passive_recordFields {loc : Location} {typeName : Ident} {inits : Nat} (ty : Option Ty) :
    Passive Fault.IsPlain (ty ≠ none) (Rule.recordFields loc typeName inits ty) (· ≠ none) := by
  unfold Rule.recordFields
  split
  · exact .pure fun h => (h rfl).elim
  · refine .of_true (.get (fun _ _ => rfl) fun c => Guarded.lift.bind fun r => ?_) (by simp)
    split
    · exact passive_fail trivial
    · exact .ite (.pure fun _ => trivial) (passive_fail trivial)

theorem passive_place {loc : Location} {typeName : String} {name : Ident} (fields : Option (List Field)) :
    Passive Fault.IsPlain (fields ≠ none) (Rule.place loc typeName name fields) (· ≠ none) := by
  unfold Rule.place
  split
  · exact .of_true (.ite (.pure fun _ => trivial) (passive_fail trivial)) (by simp)
  · exact .pure id

theorem passive_init (field : Option Field) (value : Mark) :
    Passive Fault.IsPlain (value.ty ≠ none) (Rule.init field value) (· = true) := by
  unfold Rule.init
  split
  · exact .pure nofun
  · rename_i hv
    exact .pure fun _ => by simp [hv]
  · rename_i hv
    refine .of_true ?_ (by simp [hv])
    exact passive_isMatch.bind fun _ => .ite (.pure fun _ => trivial) (passive_refuse trivial)

/-! ## Variables -/

theorem passive_field {loc : Location} {name : Ident} (base : Mark) :
    Passive Fault.IsPlain (base.ty ≠ none) (Rule.field loc base name) (·.2 ≠ none) := by
  unfold Rule.field
  split
  · exact .pure fun h => (h rfl).elim
  · rename_i hb
    refine .of_true (.get (fun _ _ => rfl) fun c => Guarded.lift.bind fun r => ?_) (by simp [hb])
    split
    · exact .bind (passive_fail trivial) fun ty => .pure id
    · split
      · split
        · exact .pure fun _ => trivial
        · exact .throw
      · exact .bind (passive_fail trivial) fun ty => .pure id

theorem passive_element (base index : Mark) :
    Passive Fault.IsPlain (base.ty ≠ none ∧ index.ty ≠ none) (Rule.element base index) (· ≠ none) := by
  unfold Rule.element
  split
  · exact .pure fun h => (h rfl).elim
  · rename_i hb
    refine .ite ?_ (passive_fail trivial)
    split
    · exact .pure fun h => (h rfl).elim
    · rename_i hi
      refine .of_true (.ite ?_ (passive_fail trivial)) (by simp [hb, hi])
      exact .get (fun _ _ => rfl) fun c => Guarded.lift.imp id fun _ _ => trivial

/-! ## Declarations -/

theorem passive_inferred (init : Mark) :
    Passive Fault.IsPlain (init.ty ≠ none) (Rule.inferred init) (·.2 = true) := by
  unfold Rule.inferred
  split
  · exact .bind (passive_fail trivial) fun ty => .pure (by simp)
  · exact .pure fun h => by simpa [Option.isSome_iff_ne_none] using h

theorem passive_against {typeName : Ident} (declared : Option Ty) (init : Mark) {literal : Bool} :
    Passive Fault.IsPlain (init.ty ≠ none ∧ declared ≠ none)
      (Rule.against typeName init literal declared) (·.2 = true) := by
  unfold Rule.against
  split
  · rename_i hi
    refine .of_true ?_ (by simp [hi])
    refine passive_isMatch.bind fun _ => .ite (.pure fun _ => trivial) ?_
    exact (passive_refuse trivial).bind fun ok => .pure id
  · exact .pure nofun

theorem passive_body (result : Option Ty) (body : Mark) :
    Passive Fault.IsPlain (result ≠ none ∧ body.ty ≠ none) (Rule.body result body) (· = true) := by
  unfold Rule.body
  split
  · rename_i hb
    refine .of_true (.ite (.ite (.pure fun _ => trivial) (passive_refuse trivial)) ?_) (by simp [hb])
    exact passive_sameType.bind fun _ => .ite (.pure fun _ => trivial) (passive_refuse trivial)
  · exact .pure nofun

theorem tame_annotated {typeName : Ident} (init : Mark) {literal : Bool} :
    Tame (init.ty ≠ none) (Rule.annotated typeName init literal) (·.2 = true) := by
  rw [Rule.annotated_eq]
  exact (tame_typeOf typeName).keep.bind fun declared => (passive_against declared init).tame

theorem tame_declared (typeName : Option Ident) (init : Mark) {literal : Bool} :
    Tame (init.ty ≠ none) (Rule.declared typeName init literal) (·.2 = true) := by
  cases typeName with
  | none => exact (passive_inferred init).tame
  | some typeName => exact tame_annotated init

end Check

end TigerCheck
