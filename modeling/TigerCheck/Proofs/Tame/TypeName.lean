import TigerCheck.Checker.TypeName
import TigerCheck.Proofs.Tame.Action

/-!
# Resolving type names is tame

A type is found without a report, or it is not found.

* `Check.tame_resolve`, `Check.tame_typeAt`: the type of a declared name.
* **`Check.tame_typeOf`**: the type that an occurrence of a name stands for.
-/

namespace TigerCheck

namespace Check

variable {ok : Prop}

theorem tame_handOut {i : NamedTypeId} {dec : TypeDec} : Tame ok (handOut i dec) fun _ => ok := by
  refine tame_namedType.bind fun t => ?_
  split
  · exact .pure id
  · dsimp only
    split
    · exact tame_newArray.bind fun _ => tame_setNamedType.bind fun _ => .pure id
    · exact tame_newRecord.bind fun _ => tame_setNamedType.bind fun _ => .pure id

theorem tame_completeRecord {i : NamedTypeId} {name : String} {fields : List Field} :
    Tame ok (completeRecord i name fields) fun _ => ok := by
  refine tame_namedType.bind fun t => ?_
  split
  · exact tame_setFields.bind fun _ => .pure id
  · exact tame_newRecord

theorem tame_completeArray {i : NamedTypeId} {name : String} {element : Ty} :
    Tame ok (completeArray i name element) fun _ => ok := by
  refine tame_namedType.bind fun t => ?_
  split
  · exact tame_setElement.bind fun _ => .pure id
  · exact tame_newArray

theorem tame_firstConstructed : ∀ chain : List NamedTypeId,
    Tame ok (firstConstructed chain) fun _ => ok
  | [] => .pure id
  | _ :: ids => by
    refine tame_namedType.bind fun t => ?_
    split
    · split
      · exact tame_firstConstructed ids
      · exact .pure id
    · exact tame_firstConstructed ids

theorem tame_meetAgain {i : NamedTypeId} {dec : TypeDec} {chain : List NamedTypeId}
    : Tame True (meetAgain i dec chain) (· ≠ none) := by
  unfold meetAgain
  split
  · refine (tame_firstConstructed _).bind fun target => ?_
    split
    · exact tame_handOut.map fun _ _ => trivial
    · exact tame_fail
  · exact tame_handOut.map fun _ _ => trivial

section

variable {find : Ident → Check (Option Ty)} (hfind : ∀ m, Tame True (find m) (· ≠ none))
include hfind

theorem tame_resolveFields : ∀ fields : List TypedName,
    Tame True (resolveFields find fields) (· ≠ none)
  | [] => .pure fun _ => trivial
  | f :: fs => by
    refine (hfind f.typeName).bind fun ty => (tame_resolveFields fs).keep.bind fun rest => .pure ?_
    cases ty <;> cases rest <;> simp

theorem tame_complete {i : NamedTypeId} {dec : TypeDec} :
    Tame True (complete find i dec) (· ≠ none) := by
  unfold complete
  split
  · exact hfind _
  · refine (tame_resolveFields hfind _).bind fun fields => ?_
    cases fields with
    | none => exact .pure fun h => (h rfl).elim
    | some fields => exact tame_completeRecord.map fun _ _ => Option.some_ne_none _
  · refine (hfind _).bind fun element => ?_
    cases element with
    | none => exact .pure fun h => (h rfl).elim
    | some element => exact tame_completeArray.map fun _ _ => Option.some_ne_none _

end

theorem tame_settle {i : NamedTypeId} {name : String} (ty : Option Ty) :
    Tame ok (settle i name ty) fun _ => ok := by
  cases ty with
  | none => exact tame_setNamedType
  | some ty =>
    refine .get (fun _ _ => rfl) fun c => Guarded.lift.bind fun display => ?_
    exact tame_log.bind fun _ => tame_setNamedType

theorem tame_findWith {resolve : NamedTypeId → Check (Option Ty)} {name : Ident}
    (h : ∀ i, Tame True (resolve i) (· ≠ none)) :
    Tame True (findWith resolve name) (· ≠ none) := by
  refine .get (fun _ _ => rfl) fun c => ?_
  cases c.typeNames.lookup name.name with
  | none => exact tame_fail
  | some i => exact h i

theorem tame_resolve : ∀ steps chain i,
    Tame True (resolve steps chain i) (· ≠ none)
  | 0, _, _ => .throw
  | steps + 1, _, _ => by
    refine tame_namedType.bind fun t => ?_
    cases t with
    | resolved ty => exact .pure fun _ => trivial
    | poisoned => exact .pure fun _ => trivial
    | pending dec o =>
      dsimp only
      split
      · exact tame_meetAgain
      · refine (tame_complete fun m => tame_findWith (tame_resolve steps _)).bind
          fun ty => ?_
        exact (tame_settle ty).bind fun _ => .pure id

theorem tame_typeAt (i : NamedTypeId) : Tame True (typeAt i) (· ≠ none) :=
  .get (fun _ _ => rfl) fun _ => tame_resolve _ _ _

/-- **An occurrence of a type name is resolved without a report**, or its type is not found. -/
theorem tame_typeOf (name : Ident) : Tame True (typeOf name) (· ≠ none) :=
  tame_findWith tame_typeAt

end Check

end TigerCheck
