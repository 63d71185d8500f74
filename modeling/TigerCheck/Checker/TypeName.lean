import TigerCheck.Checker.State

/-!
# Resolving type names

A type name is resolved when it is first needed. Its right-hand side may mention names that are not
resolved yet, and so on; the declarations that are being resolved form a chain, outermost first. A
record or an array that is met again within its own declaration gets an entry in the arena at once,
which is completed when its declaration is finished. A synonym that is met again must have passed
through a record or an array, and stands for the first of them; otherwise the synonyms lead nowhere.

* `Check.handOut`: the entry of a record or an array whose declaration is being resolved.
* `Check.firstConstructed`: the first record or array along a chain.
* `Check.meetAgain`: the type of a name that is met within its own declaration.
* `Check.complete`: the type of a right-hand side, given how names are resolved.
* `Check.resolve`, `Check.typeAt`, `Check.typeOf`: the type of a declared name, and of an occurrence.
-/

namespace TigerCheck

namespace Check

/-- The type of a record or an array that is still being resolved: the entry it has in the arena, or
a new entry without contents. -/
def handOut (id : NamedTypeId) (dec : TypeDec) : Check Ty := do
  match ← namedType id with
  | .pending _ (some ty) => return ty
  | _ =>
    let ty ← match dec.body with
      | .array _ => newArray dec.name.name none
      | _ => newRecord dec.name.name []
    setNamedType id (.pending dec (some ty))
    return ty

/-- The first declaration along a chain that is being resolved and is not a synonym. -/
def firstConstructed : List NamedTypeId → Check (Option (NamedTypeId × TypeDec))
  | [] => return none
  | id :: ids => do
    match ← namedType id with
    | .pending dec _ => if dec.body.isSynonym then firstConstructed ids else return some (id, dec)
    | _ => firstConstructed ids

/-- The part of a chain that comes after a declaration. -/
def after (id : NamedTypeId) (chain : List NamedTypeId) : List NamedTypeId :=
  (chain.dropWhile (· ≠ id)).tail

/-- The type of a declaration that is met again further down its own chain. -/
def meetAgain (id : NamedTypeId) (dec : TypeDec) (chain : List NamedTypeId) : Check (Option Ty) := do
  if dec.body.isSynonym then
    match ← firstConstructed (after id chain) with
    | some (target, targetDec) => some <$> handOut target targetDec
    | none => fail (.endlessTypeLoop dec.name.name) dec.name.loc
  else
    some <$> handOut id dec

/-- Fields with their types, if every type is found. Every type is looked for, even when one before it
is not found. -/
def resolveFields (find : Ident → Check (Option Ty)) : List TypedName → Check (Option (List Field))
  | [] => return some []
  | f :: fs => do
    let ty ← find f.typeName
    let rest ← resolveFields find fs
    return match ty, rest with
      | some ty, some rest => some (⟨f.name.name, ty⟩ :: rest)
      | _, _ => none

/-- The record of a declaration whose fields are found: the entry that was handed out, completed, or a
new one. -/
def completeRecord (id : NamedTypeId) (name : String) (fields : List Field) : Check Ty := do
  match ← namedType id with
  | .pending _ (some (.record r)) =>
    setFields r fields
    return .record r
  | _ => newRecord name fields

/-- The array of a declaration whose element is found: the entry that was handed out, completed, or a
new one. -/
def completeArray (id : NamedTypeId) (name : String) (element : Ty) : Check Ty := do
  match ← namedType id with
  | .pending _ (some (.array a)) =>
    setElement a element
    return .array a
  | _ => newArray name (some element)

/-- The type of a declaration's right-hand side, given how the names in it are found. -/
def complete (find : Ident → Check (Option Ty)) (id : NamedTypeId) (dec : TypeDec) :
    Check (Option Ty) := do
  match dec.body with
  | .synonym target => find target
  | .record fields =>
    match ← resolveFields find fields with
    | some fields => some <$> completeRecord id dec.name.name fields
    | none => return none
  | .array element =>
    match ← find element with
    | some element => some <$> completeArray id dec.name.name element
    | none => return none

/-- Note how resolving a declaration ended. -/
def settle (id : NamedTypeId) (name : String) : Option Ty → Check Unit
  | some ty => do
    let display ← (← get).types.display ty
    log (.typeResolved name display)
    setNamedType id (.resolved ty)
  | none => setNamedType id .poisoned

/-- The type that an occurrence of a name stands for, given how declarations are resolved. -/
def findWith (resolve : NamedTypeId → Check (Option Ty)) (name : Ident) : Check (Option Ty) := do
  match (← get).typeNames.lookup name.name with
  | some id => resolve id
  | none => fail (.undefinedType name.name) name.loc

/-- The type of a declared name, given the chain of declarations that are being resolved. The chain
grows with each step down, and the first argument bounds the steps. -/
def resolve : Nat → List NamedTypeId → NamedTypeId → Check (Option Ty)
  | 0, _, _ => throw .exhausted
  | steps + 1, chain, id => do
    match ← namedType id with
    | .resolved ty => return some ty
    | .poisoned => return none
    | .pending dec _ =>
      if id ∈ chain then meetAgain id dec chain
      else
        let ty ← complete (findWith (resolve steps (chain ++ [id]))) id dec
        settle id dec.name.name ty
        return ty

/-- The type of a declared name. A chain holds no declaration twice, so it is at most as long as the
table of type names, and no chain needs more steps than that and one. -/
def typeAt (id : NamedTypeId) : Check (Option Ty) := do
  resolve ((← get).namedTypes.size + 1) [] id

/-- The type that an occurrence of a name stands for. -/
def typeOf (name : Ident) : Check (Option Ty) := findWith typeAt name

end Check

end TigerCheck
