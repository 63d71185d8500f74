import TigerCheck.Ty.Arena

/-!
# Equal types and matching types

Arrays are compared by what they hold: two array types are the same when their elements are, so
`array of int` declared twice is one type. Elements may lead back to the arrays they belong to; a
pair of arrays that is already being compared is assumed to be the same, which is how the
comparison of cyclic chains ends. Every other type is the same as itself only.

Two types *match* where a value of one may stand for a value of the other: the same types do, `nil`
and a record do, and so do two records whose fields have the same types in the same order. A type
that could not be found matches nothing, and `nil` does not match `nil`.

* `Arena.sameType`, with `Arena.sameTypeUnder` for a comparison under assumptions.
* `Arena.isMatch`, with `Arena.sameFieldTypes` for the fields of two records.
-/

namespace TigerCheck

namespace Arena

/-- Compare two types, given the pairs of arrays whose comparison has begun. Each step adds a pair
of arrays to them, and the first argument bounds the number of steps. -/
def sameTypeUnder (a : Arena) : Nat → List (ArrayId × ArrayId) → Ty → Ty → Except Breach Bool
  | 0, _, _, _ => .error .exhausted
  | steps + 1, assumed, .array x, .array y =>
    if x = y ∨ (x, y) ∈ assumed then .ok true
    else do
      let left ← a.array x
      let right ← a.array y
      match left.element, right.element with
      | some s, some t => a.sameTypeUnder steps ((x, y) :: assumed) s t
      | _, _ => .ok false
  | _ + 1, _, s, t => .ok (s == t)

/-- Whether two types are the same. The arrays of the arena form at most `size * size` pairs, so a
comparison never needs more steps than that and one. -/
def sameType (a : Arena) (s t : Ty) : Except Breach Bool :=
  a.sameTypeUnder (a.arrays.size * a.arrays.size + 1) [] s t

/-- Whether two lists of fields of one length have the same types, position by position. -/
def sameFieldTypes (a : Arena) : List Field → List Field → Except Breach Bool
  | f :: fs, g :: gs => do
    if ← a.sameType f.ty g.ty then a.sameFieldTypes fs gs else return false
  | _, _ => .ok true

/-- Whether two records agree in the number and the types of their fields. -/
def sameLayout (a : Arena) (x y : RecordId) : Except Breach Bool := do
  let left ← a.record x
  let right ← a.record y
  if left.fields.length = right.fields.length then a.sameFieldTypes left.fields right.fields
  else return false

/-- Whether two different types match. -/
def matchDistinct (a : Arena) : Ty → Ty → Except Breach Bool
  | .nil, t => .ok t.isRecord
  | s, .nil => .ok s.isRecord
  | .record x, .record y => a.sameLayout x y
  | _, _ => .ok false

/-- Whether a value of one type may stand for a value of the other. -/
def isMatch (a : Arena) : Option Ty → Option Ty → Except Breach Bool
  | some s, some t =>
    if s.isNil && t.isNil then .ok false
    else do
      if ← a.sameType s t then return true
      a.matchDistinct s t
  | _, _ => .ok false

end Arena

end TigerCheck
