import TigerCheck.Checker.TypeName

/-!
# Typing rules

The type of a node from the types of its parts. A part without a type has failed and was reported
where it failed; the node then has no type either, and nothing more is reported about it. Otherwise
a rule reports the first condition that does not hold.

* `Rule.binary`, `Rule.assign`, `Rule.cond`, `Rule.loop`, `Rule.bounds`, `Rule.array`: expressions.
* `Rule.target?`, `Rule.arg`, `Rule.call`: the function of a call, one argument, and the whole.
* `Rule.recordFields`, `Rule.place`, `Rule.init`: the record of a literal, the place of one
  initializer, and its value.
* `Rule.simple`, `Rule.field`, `Rule.element`: variables.
* `Rule.declared`, `Rule.body`: the end of a variable's declaration, and of a function's.
-/

namespace TigerCheck

namespace Rule

open Check

/-- The operators `=` and `<>` compare matching types; the others take two integers. All give an
integer. -/
def binary (op : BinOp) (loc : Location) : Option Ty → Option Ty → Check (Option Ty)
  | some left, some right => do
    if op.isEquality then
      if left.isNil && right.isNil then fail .nilComparedToNil loc
      else if ← isMatch left right then return some .int
      else fail .comparisonMismatch loc
    else if left.isInt && right.isInt then return some .int
    else fail .binaryRequiresIntegers loc
  | _, _ => return none

/-- A value of a matching type can be assigned, which gives no value. -/
def assign (target value : Mark) : Check (Option Ty) := do
  match target.ty, value.ty with
  | some t, some v => if ← isMatch t v then return some .void else fail .assignMismatch value.loc
  | _, _ => return none

/-- The type of two matching branches: that of the first, unless it is just `nil`. -/
def branches (thenTy : Ty) (elsePart : Mark) : Check (Option Ty) := do
  match elsePart.ty with
  | none => return none
  | some elseTy =>
    if ← isMatch thenTy elseTy then return some (if thenTy.isNil then elseTy else thenTy)
    else fail .branchMismatch elsePart.loc

/-- The test is an integer. Two branches match; a single branch gives no value. -/
def cond (loc : Location) (test thenPart : Mark) (elsePart : Option Mark) : Check (Option Ty) := do
  match test.ty with
  | none => return none
  | some testTy =>
    if testTy.isInt then
      match thenPart.ty, elsePart with
      | none, _ => return none
      | some thenTy, some elsePart => branches thenTy elsePart
      | some thenTy, none => if thenTy.isVoid then return some .void else fail .thenWithoutElse loc
    else fail .testRequiresInteger test.loc

/-- Whether a part has a type, and one that satisfies a condition; if it has another, that is
reported. -/
def require (part : Mark) (ok : Ty → Bool) (fault : Fault) : Check Bool := do
  match part.ty with
  | none => return false
  | some t => if ok t then return true else refuse fault part.loc

/-- The test is an integer and the body gives no value; nor does the loop. -/
def loop (test body : Mark) : Check (Option Ty) := do
  let testOk ← require test (·.isInt) .loopTestRequiresInteger
  let bodyOk ← require body (·.isVoid) .loopBodyReturnsValue
  return if testOk && bodyOk then some .void else none

/-- Both bounds of a counting loop are integers. -/
def bounds (loc : Location) : Option Ty → Option Ty → Check Bool
  | some low, some high => do
    if low.isInt && high.isInt then return true else refuse .forBoundsRequireInteger loc
  | _, _ => return false

/-- The named type is an array, the size an integer, and the initial value of the element's type. -/
def array (typeName : Ident) (ty : Option Ty) (size init : Mark) : Check (Option Ty) := do
  match ty with
  | none => return none
  | some ty =>
    if ty.isArray then
      match ← (← get).types.elementOf ty, size.ty, init.ty with
      | some element, some sizeTy, some initTy =>
        if sizeTy.isInt then
          if ← sameType initTy element then return some ty else fail .arrayInitMismatch init.loc
        else fail .arraySizeNotInteger size.loc
      | _, _, _ => return none
    else fail .arrayTypeRequired typeName.loc

/-! ## Calls -/

/-- The function that a call goes to, with the parameters that are written at the call. -/
structure Target where
  id : FunctionId
  signature : Option Signature
deriving DecidableEq

/-- The signature of a function as its callers write it, without the static link. -/
def visible (p : Prototype) : Except Breach (Option Signature) :=
  match p.signature with
  | none => .ok none
  | some s =>
    if p.hiddenParams ≤ s.params.length then .ok (some ⟨s.params.drop p.hiddenParams, s.result⟩)
    else .error .missingLink

/-- The function that a name denotes, if any. -/
def target? (name : String) : Check (Option Target) := do
  match (← get).functions.lookup name with
  | none => return none
  | some id =>
    let prototype ← (← get).frames.function id
    let signature ← visible prototype
    return some ⟨id, signature⟩

/-- The parameter types against which the arguments of a call are checked. Arguments that cannot be
matched with parameters are checked on their own. -/
def Target.expects (t : Option Target) (args : Nat) : List Ty :=
  match t with
  | some ⟨_, some s⟩ => if s.params.length = args then s.params else []
  | _ => []

/-- An argument has the type of its parameter, if it has a parameter. -/
def arg (param : Option Ty) (value : Mark) : Check Bool := do
  match value.ty, param with
  | none, _ => return false
  | some _, none => return true
  | some t, some p => if ← sameType t p then return true else refuse .paramTypeMismatch value.loc

/-- The function exists, and it has as many parameters as the call has arguments. The call gives the
function's result if every argument fits. -/
def call (loc : Location) (callee : Ident) (target : Option Target) (args : Nat) (fit : Bool) :
    Check (Option Ty) := do
  match target with
  | none => fail (.undefinedFunction callee.name) callee.loc
  | some ⟨_, none⟩ => return none
  | some ⟨_, some s⟩ =>
    if s.params.length = args then return if fit then some s.result else none
    else fail (.argCountMismatch s.params.length args) loc

/-! ## Record literals -/

/-- The fields of the record type that a literal names. The literal has as many initializers. -/
def recordFields (loc : Location) (typeName : Ident) (inits : Nat) (ty : Option Ty) :
    Check (Option (List Field)) := do
  match ty with
  | none => return none
  | some ty =>
    match ← (← get).types.asRecord ty with
    | none => fail .recordTypeRequired typeName.loc
    | some r =>
      if r.fields.length = inits then return some r.fields
      else fail (.fieldCountMismatch r.fields.length inits) loc

/-- The initializer names the field that stands at its place. If it does not, the initializers from it
on are checked without fields. -/
def place (loc : Location) (typeName : String) (name : Ident) :
    Option (List Field) → Check (Option (List Field))
  | some (f :: fs) => do
    if name.name = f.name then return some (f :: fs) else fail (.fieldPosition name.name typeName) loc
  | fields => return fields

/-- The value of an initializer matches the type of its field, if it has a field. -/
def init (field : Option Field) (value : Mark) : Check Bool := do
  match value.ty, field with
  | none, _ => return false
  | some _, none => return true
  | some t, some f => if ← isMatch t f.ty then return true else refuse .fieldTypeMismatch value.loc

/-! ## Variables -/

/-- The slot that a name is bound to, and its type. -/
def simple (loc : Location) (name : String) : Check (Option VarId × Option Ty) := do
  match (← get).values.lookup name with
  | some id =>
    let slot ← (← get).frames.var id
    return (some id, slot.ty)
  | none => return (none, ← fail (.undefinedVariable name) loc)

/-- The position and the type of a field of a record. -/
def field (loc : Location) (base : Mark) (name : Ident) : Check (Option Nat × Option Ty) := do
  match base.ty with
  | none => return (none, none)
  | some baseTy =>
    match ← (← get).types.asRecord baseTy with
    | none => return (none, ← fail .notARecord base.loc)
    | some r =>
      match r.fieldIndex name.name with
      | some i =>
        match r.fields[i]? with
        | some f => return (some i, some f.ty)
        | none => throw .dangling
      | none => return (none, ← fail (.unknownField name.name) loc)

/-- The base is an array and the index an integer, which gives the array's element. -/
def element (base index : Mark) : Check (Option Ty) := do
  match base.ty with
  | none => return none
  | some baseTy =>
    if baseTy.isArray then
      match index.ty with
      | none => return none
      | some indexTy =>
        if indexTy.isInt then return ← (← get).types.elementOf baseTy
        else fail .subscriptNotInteger index.loc
    else fail .notAnArray base.loc

/-! ## Declarations -/

/-- The type of a variable declared without one: that of its initializer, which is not `nil`. -/
def inferred (init : Mark) : Check (Option Ty × Bool) := do
  match init.ty with
  | some .nil => return (← fail .nilWithoutRecordType init.loc, false)
  | ty => return (ty, ty.isSome)

/-- The type of a variable declared with one. The initializer matches it; a literal, which names its
own type, has exactly that type. -/
def annotated (typeName : Ident) (init : Mark) (literal : Bool) : Check (Option Ty × Bool) := do
  let declared ← typeOf typeName
  match declared, init.ty with
  | some d, some i =>
    if (← isMatch d i) && !(literal && d ≠ i) then return (declared, true)
    else return (declared, ← refuse .varTypeMismatch typeName.loc)
  | _, _ => return (declared, false)

/-- The type of a declared variable, and whether its declaration is right. -/
def declared (typeName : Option Ident) (init : Mark) (literal : Bool) : Check (Option Ty × Bool) :=
  match typeName with
  | none => inferred init
  | some typeName => annotated typeName init literal

/-- The body of a procedure gives no value, and that of another function its result. -/
def body (result : Option Ty) (body : Mark) : Check Bool := do
  match result, body.ty with
  | some r, some b =>
    if r.isVoid then
      if b.isVoid then return true else refuse .procedureReturnsValue body.loc
    else if ← sameType r b then return true
    else refuse .returnTypeMismatch body.loc
  | _, _ => return false

end Rule

end TigerCheck
