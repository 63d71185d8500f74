import TigerCheck.Json

/-!
# Structures and choices in JSON

A structure with fields of given names is written as an object, where other keys are ignored and the
order does not matter, or as the list of its fields in their order. A choice between forms is written
as the word for the form, or as an object whose only key is that word and whose value is the content.

* `Json.fields?`: the fields of a structure, in the order of their names.
* `Json.choice?`: the word and the content of a choice.
* `Json.text?`, `Json.word32?`, `Json.word64?`: strings and numbers in range.
* `Json.optional?`: a field that may be missing or `null`.
-/

namespace TigerCheck

namespace Json

/-- The value of a key in an object: missing, there once, or (which is refused) repeated. -/
def member? (members : List (String × Json)) (name : String) : Option (Option Json) :=
  match members.filter (·.1 == name) with
  | [] => some none
  | [(_, v)] => some (some v)
  | _ => none

/-- The fields of a structure written as a list. Fields at the end may be missing, and surplus items
are refused. -/
def positions? : List String → List Json → Option (List (Option Json))
  | [], [] => some []
  | [], _ :: _ => none
  | _ :: names, vs => (vs.head? :: ·) <$> positions? names vs.tail

/-- The fields of a structure, in the order of their names. -/
def fields? (names : List String) : Json → Option (List (Option Json))
  | obj members => names.mapM (member? members)
  | arr items => positions? names items
  | _ => none

/-- A field that may be missing, or `null` in its stead. -/
def optional? {α : Type} (f : Json → Option α) : Option Json → Option (Option α)
  | none | some null => some none
  | some j => some <$> f j

/-- The content of a string. -/
def text? : Json → Option String
  | str s => some s
  | _ => none

/-- An unsigned word of 32 bits. -/
def word32? : Json → Option UInt32
  | int n => if 0 ≤ n ∧ n < UInt32.size then some (UInt32.ofNat n.toNat) else none
  | _ => none

/-- A signed word of 64 bits. -/
def word64? : Json → Option Int64
  | int n => if Int64.minValue.toInt ≤ n ∧ n ≤ Int64.maxValue.toInt then some (Int64.ofInt n) else none
  | _ => none

end Json

end TigerCheck
