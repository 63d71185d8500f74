/-!
# Faults

What can be wrong with a program: one constructor for each cause, with the names and numbers that
belong to it. The wording of a diagnostic and its code follow from the cause alone.

* `Fault`: the causes.
* `Fault.Kind`, `Fault.kind`: six kinds of causes; `Fault.Kind.code` gives the code of a kind.
* `Fault.message`: the wording.
-/

namespace TigerCheck

/-- What can be wrong with a program. -/
inductive Fault where
  | undefinedVariable (name : String)
  | undefinedFunction (name : String)
  | undefinedType (name : String)
  | duplicateDefinition (name : String)
  | binaryRequiresIntegers
  | nilComparedToNil
  | comparisonMismatch
  | assignMismatch
  | testRequiresInteger
  | branchMismatch
  | loopTestRequiresInteger
  | forBoundsRequireInteger
  | paramTypeMismatch
  | fieldTypeMismatch
  | arraySizeNotInteger
  | arrayInitMismatch
  | returnTypeMismatch
  | nilWithoutRecordType
  | varTypeMismatch
  | subscriptNotInteger
  | argCountMismatch (expected got : Nat)
  | recordTypeRequired
  | fieldCountMismatch (expected got : Nat)
  /-- A field initializer that does not stand where the record type has a field of its name. -/
  | fieldPosition (field record : String)
  | arrayTypeRequired
  | notARecord
  | unknownField (field : String)
  | notAnArray
  | thenWithoutElse
  | loopBodyReturnsValue
  | breakOutsideLoop
  | procedureReturnsValue
  /-- Synonyms that lead back to themselves. -/
  | endlessTypeLoop (name : String)
deriving DecidableEq

namespace Fault

/-- The kinds of causes. -/
inductive Kind where
  | undefinedReference
  | duplicateDefinition
  | typeMismatch
  | structural
  | controlFlow
  | cyclicDefinition
deriving DecidableEq

/-- The name of a kind in a report. -/
def Kind.name : Kind → String
  | undefinedReference => "UndefinedReference"
  | duplicateDefinition => "DuplicateDefinition"
  | typeMismatch => "TypeMismatch"
  | structural => "Structural"
  | controlFlow => "ControlFlow"
  | cyclicDefinition => "CyclicDefinition"

/-- The code of a kind in a report. -/
def Kind.code : Kind → String
  | undefinedReference => "E0001"
  | duplicateDefinition => "E0002"
  | typeMismatch => "E0003"
  | structural => "E0004"
  | controlFlow => "E0005"
  | cyclicDefinition => "E0006"

/-- The kind of a fault. -/
def kind : Fault → Kind
  | undefinedVariable _ | undefinedFunction _ | undefinedType _ => .undefinedReference
  | duplicateDefinition _ => .duplicateDefinition
  | binaryRequiresIntegers | nilComparedToNil | comparisonMismatch | assignMismatch
  | testRequiresInteger | branchMismatch | loopTestRequiresInteger | forBoundsRequireInteger
  | paramTypeMismatch | fieldTypeMismatch | arraySizeNotInteger | arrayInitMismatch
  | returnTypeMismatch | nilWithoutRecordType | varTypeMismatch | subscriptNotInteger =>
    .typeMismatch
  | argCountMismatch _ _ | recordTypeRequired | fieldCountMismatch _ _ | fieldPosition _ _
  | arrayTypeRequired | notARecord | unknownField _ | notAnArray => .structural
  | thenWithoutElse | loopBodyReturnsValue | breakOutsideLoop | procedureReturnsValue =>
    .controlFlow
  | endlessTypeLoop _ => .cyclicDefinition

/-- The wording of a fault. -/
def message : Fault → String
  | undefinedVariable name => name ++ " is not defined"
  | undefinedFunction name => "Function " ++ name ++ " undeclared"
  | undefinedType name => name ++ " is not a type"
  | duplicateDefinition name => name ++ " is already defined in this scope."
  | binaryRequiresIntegers => "Binary expression require integers"
  | nilComparedToNil => "Nil cannot compare to nil"
  | comparisonMismatch => "Binary comparison type not match"
  | assignMismatch => "Assign types do not match"
  | testRequiresInteger => "Require integer in test"
  | branchMismatch => "Require same type in both branch"
  | loopTestRequiresInteger => "Require integer"
  | forBoundsRequireInteger => "For bounds require integer"
  | paramTypeMismatch => "Params type not match"
  | fieldTypeMismatch => "Field type not match"
  | arraySizeNotInteger => "Size should be integer"
  | arrayInitMismatch => "Initial type not matches"
  | returnTypeMismatch => "Function return type not match"
  | nilWithoutRecordType => "Nil can only assign to record type"
  | varTypeMismatch => "Type not match"
  | subscriptNotInteger => "Subscript should be integer"
  | argCountMismatch _ _ => "Incorrect number of passed arguments"
  | recordTypeRequired => "Require a record type"
  | fieldCountMismatch _ _ => "Wrong number of fields"
  | fieldPosition field record =>
    field ++ " is not a field or not on the right position of " ++ record
  | arrayTypeRequired => "Array type required"
  | notARecord => "field reference is only for record type"
  | unknownField _ => "field not exists in this struct"
  | notAnArray => "Subscript is only for array type"
  | thenWithoutElse => "\"Then\" returns a value but \"Else\" doesn't"
  | loopBodyReturnsValue => "Loop body does not return value"
  | breakOutsideLoop => "Break is only allowed on Loop statements"
  | procedureReturnsValue => "Procedure can not returns a value"
  | endlessTypeLoop name => name ++ " has an endless loop of type define"

/-- The code of a fault is that of its kind. -/
def code (f : Fault) : String := f.kind.code

end Fault

end TigerCheck
