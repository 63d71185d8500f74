import TigerCheck.Breach

/-!
# Nested scopes

A table of names with one scope for each enclosing block. The checker keeps three of them, one for
each namespace, so that a variable, a type and a function may share a name.

* `Scopes`: the innermost scope and the scopes around it; there is always at least one.
* `Scopes.enter`, `Scopes.exit`, `Scopes.bind`, `Scopes.reset`: the operations.
* `Scopes.lookup`: the nearest binding; `Scopes.lookupLocal`: the innermost scope alone.
* `Scopes.depth`: the number of scopes.
-/

namespace TigerCheck

/-- One scope: its bindings, the latest first. A later binding of a name hides an earlier one. -/
abbrev Scope (α : Type) := List (String × α)

/-- A stack of scopes that is never empty. -/
structure Scopes (α : Type) where
  innermost : Scope α := []
  outer : List (Scope α) := []
deriving DecidableEq

namespace Scopes

variable {α : Type}

instance : Inhabited (Scopes α) := ⟨{}⟩

/-- The table of one empty scope. -/
def empty : Scopes α := {}

/-- Open a scope. -/
def enter (s : Scopes α) : Scopes α := ⟨[], s.innermost :: s.outer⟩

/-- Close the innermost scope and drop its bindings. The outermost scope stays. -/
def exit (s : Scopes α) : Except Breach (Scopes α) :=
  match s.outer with
  | [] => .error .unmatchedExit
  | scope :: rest => .ok ⟨scope, rest⟩

/-- Bind a name in the innermost scope. -/
def bind (s : Scopes α) (name : String) (value : α) : Scopes α :=
  { s with innermost := (name, value) :: s.innermost }

/-- The value of a name in the innermost scope. -/
def lookupLocal (s : Scopes α) (name : String) : Option α := s.innermost.lookup name

/-- The value of a name in the nearest scope that binds it. -/
def lookup (s : Scopes α) (name : String) : Option α :=
  (s.innermost :: s.outer).findSome? (·.lookup name)

/-- Drop every scope and every binding. -/
def reset (_ : Scopes α) : Scopes α := empty

/-- The number of scopes, the outermost one included. -/
def depth (s : Scopes α) : Nat := s.outer.length + 1

@[simp] theorem exit_enter (s : Scopes α) : s.enter.exit = .ok s := rfl

@[simp] theorem depth_enter (s : Scopes α) : s.enter.depth = s.depth + 1 := rfl

@[simp] theorem depth_bind (s : Scopes α) (name : String) (v : α) : (s.bind name v).depth = s.depth :=
  rfl

@[simp] theorem lookup_enter (s : Scopes α) (name : String) : s.enter.lookup name = s.lookup name :=
  rfl

theorem lookup_bind (s : Scopes α) (name other : String) (v : α) :
    (s.bind name v).lookup other = if other = name then some v else s.lookup other := by
  by_cases h : other = name
  · simp [lookup, bind, h]
  · have hb : (other == name) = false := by simpa using h
    rw [if_neg h, lookup, lookup, bind, List.findSome?_cons, List.findSome?_cons,
      List.lookup_cons, hb]

theorem lookupLocal_bind (s : Scopes α) (name other : String) (v : α) :
    (s.bind name v).lookupLocal other = if other = name then some v else s.lookupLocal other := by
  by_cases h : other = name
  · simp [lookupLocal, bind, h]
  · have hb : (other == name) = false := by simpa using h
    rw [if_neg h, lookupLocal, lookupLocal, bind, List.lookup_cons, hb]

/-- What the innermost scope binds is found first. -/
theorem lookup_of_lookupLocal {s : Scopes α} {name : String} {v : α} (h : s.lookupLocal name = some v) :
    s.lookup name = some v := by
  rw [lookupLocal] at h
  rw [lookup, List.findSome?_cons, h]

end Scopes

end TigerCheck
