import Mathlib.Data.List.Infix
import Mathlib.Data.List.Nodup
import TigerCheck.Proofs.Tree.Induction
import TigerCheck.Proofs.Tree.Live

/-!
# Positions of nodes

A node of a tree is told from all others by its position: which part of which part of the tree it is.
Positions make it possible to say of each node that it is met once.

* `Position`: the way from the root to a node.
* `Exp.nodes`, `Var.nodes`, `Dec.nodes`: the positions of the live expressions and variables of a tree, in
  the order of evaluation.
* **`Exp.nodup_nodes`**: no position is listed twice.
-/

namespace TigerCheck

/-- The way from the root to a node: the numbers of the parts, the last one first. -/
abbrev Position := List ℕ

mutual

/-- The positions of the expressions and variables in an expression that are not in dropped
declarations. -/
def Exp.nodes (p : Position) : Exp → List Position
  | .nil _ | .int _ _ | .string _ _ | .breakLoop _ => [p]
  | .var _ v => p :: v.nodes (0 :: p)
  | .call _ _ args _ => p :: nodesAll p 0 args
  | .binary _ _ left right => p :: (left.nodes (0 :: p) ++ right.nodes (1 :: p))
  | .record _ _ inits => p :: nodesInits p 0 inits
  | .seq _ items => p :: nodesAll p 0 items
  | .assign _ target value => p :: (target.nodes (0 :: p) ++ value.nodes (1 :: p))
  | .cond _ test thenPart none => p :: (test.nodes (0 :: p) ++ thenPart.nodes (1 :: p))
  | .cond _ test thenPart (some elsePart) =>
    p :: (test.nodes (0 :: p) ++ (thenPart.nodes (1 :: p) ++ elsePart.nodes (2 :: p)))
  | .whileLoop _ test body => p :: (test.nodes (0 :: p) ++ body.nodes (1 :: p))
  | .doWhile _ body test => p :: (body.nodes (0 :: p) ++ test.nodes (1 :: p))
  | .forLoop _ _ low high body _ =>
    p :: (low.nodes (0 :: p) ++ (high.nodes (1 :: p) ++ body.nodes (2 :: p)))
  | .letIn _ decs body => p :: (nodesDecs p 1 {} decs ++ body.nodes (0 :: p))
  | .array _ _ size init => p :: (size.nodes (0 :: p) ++ init.nodes (1 :: p))

/-- The positions of the live expressions and variables in a variable. -/
def Var.nodes (p : Position) : Var → List Position
  | .simple .. => [p]
  | .field _ base _ _ => p :: base.nodes (0 :: p)
  | .element _ base index => p :: (base.nodes (0 :: p) ++ index.nodes (1 :: p))

/-- The positions of the live expressions and variables in a declaration. The body of a function and the
initializer of a variable have the position of the declaration. -/
def Dec.nodes (p : Position) : Dec → List Position
  | .type _ => []
  | .function _ body _ _ => body.nodes p
  | .var _ _ init _ _ => init.nodes p

def nodesAll (p : Position) (i : ℕ) : List Exp → List Position
  | [] => []
  | e :: es => e.nodes (i :: p) ++ nodesAll p (i + 1) es

def nodesInits (p : Position) (i : ℕ) : List (Ident × Exp) → List Position
  | [] => []
  | (_, e) :: inits => e.nodes (i :: p) ++ nodesInits p (i + 1) inits

/-- The positions in the declarations that are not dropped, given the run before them. -/
def nodesDecs (p : Position) (i : ℕ) (o : OpenRun) : List Dec → List Position
  | [] => []
  | d :: ds => (if o.Repeats d then [] else d.nodes (i :: p)) ++ nodesDecs p (i + 1) (o.next d) ds

end

attribute [grind =] Exp.nodes Var.nodes Dec.nodes nodesAll nodesInits nodesDecs

/-! ## Lists of declarations -/

section

variable {o : OpenRun} {k : Dec.Kind} {seen : List String} {d : Dec} {ds : List Dec} {p : Position} {i : ℕ}

theorem nodesDecs_opens (h : o.kind ≠ some d.kind) :
    nodesDecs p i o (d :: ds) = nodesDecs p i ⟨some d.kind, []⟩ (d :: ds) := by
  have hbefore : o.before d = OpenRun.before ⟨some d.kind, []⟩ d := by
    rw [OpenRun.before, if_neg h, OpenRun.before_of_kind rfl]
  simp only [nodesDecs, OpenRun.Repeats, OpenRun.next, hbefore]

theorem nodesDecs_of_mem (h : d.kind = k) (hd : d.name.name ∈ seen) :
    nodesDecs p i ⟨some k, seen⟩ (d :: ds) = nodesDecs p (i + 1) ⟨some k, seen⟩ ds := by
  rw [nodesDecs, if_pos ((OpenRun.repeats_iff h).mpr hd), OpenRun.next_of_mem h hd]
  rfl

theorem nodesDecs_of_not_mem (h : d.kind = k) (hd : d.name.name ∉ seen) :
    nodesDecs p i ⟨some k, seen⟩ (d :: ds) =
      d.nodes (i :: p) ++ nodesDecs p (i + 1) ⟨some k, d.name.name :: seen⟩ ds := by
  rw [nodesDecs, if_neg (mt (OpenRun.repeats_iff h).mp hd), OpenRun.next_of_not_mem h hd]

theorem nodesDecs_append (p : Position) (i : ℕ) (o : OpenRun) (ds es : List Dec) :
    nodesDecs p i o (ds ++ es) =
      nodesDecs p i o ds ++ nodesDecs p (i + ds.length) (o.after ds) es := by
  induction ds generalizing i o with
  | nil => rfl
  | cons d ds ih =>
    have hlength : i + (d :: ds).length = i + 1 + ds.length := by
      rw [List.length_cons, Nat.add_assoc, Nat.add_comm 1]
    rw [List.cons_append, nodesDecs, nodesDecs, ih, List.append_assoc, hlength]
    rfl

end

/-! ## No position twice -/

/-- Different positions at or below one. -/
def Below (p : Position) (l : List Position) : Prop := l.Nodup ∧ ∀ q ∈ l, p <:+ q

/-- Different positions at or below the parts from some number on of the node at a position. -/
def BelowFrom (i : ℕ) (p : Position) (l : List Position) : Prop :=
  l.Nodup ∧ ∀ q ∈ l, ∃ j, i ≤ j ∧ (j :: p) <:+ q

section

variable {p q : Position} {i j : ℕ} {l l' : List Position}

/-- A node is below one part only. -/
theorem eq_of_suffix (h : (i :: p) <:+ q) (h' : (j :: p) <:+ q) : i = j := by
  have heq : i :: p = j :: p :=
    (List.suffix_of_suffix_length_le h h' (Nat.le_of_eq rfl)).eq_of_length rfl
  exact (List.cons.inj heq).1

theorem BelowFrom.nil : BelowFrom i p [] := ⟨.nil, List.forall_mem_nil _⟩

theorem BelowFrom.succ (h : BelowFrom (i + 1) p l) : BelowFrom i p l :=
  ⟨h.1, fun q hq => (h.2 q hq).imp fun _ hj => ⟨Nat.le_of_succ_le hj.1, hj.2⟩⟩

theorem Below.belowFrom (h : Below (i :: p) l) : BelowFrom i p l :=
  ⟨h.1, fun q hq => ⟨i, Nat.le_refl _, h.2 q hq⟩⟩

/-- **The positions below one part and those below later parts.** -/
theorem Below.append (h : Below (i :: p) l) (h' : BelowFrom (i + 1) p l') : BelowFrom i p (l ++ l') := by
  refine ⟨List.nodup_append'.mpr ⟨h.1, h'.1, fun q hq hq' => ?_⟩, List.forall_mem_append.mpr ⟨h.belowFrom.2, h'.succ.2⟩⟩
  obtain ⟨j, hlt, hj⟩ := h'.2 q hq'
  rw [eq_of_suffix (h.2 q hq) hj] at hlt
  exact Nat.lt_irrefl _ hlt

theorem BelowFrom.append (h : BelowFrom (i + 1) p l) (h' : Below (i :: p) l') :
    BelowFrom i p (l ++ l') := by
  obtain ⟨hnodup, hmem⟩ := h'.append h
  refine ⟨List.nodup_append_comm.mp hnodup, fun q hq => hmem q ?_⟩
  exact List.mem_append.mpr (List.mem_append.mp hq).symm

/-- A node is above its parts. -/
theorem BelowFrom.node (h : BelowFrom 0 p l) : Below p (p :: l) := by
  refine ⟨List.nodup_cons.mpr ⟨fun hp => ?_, h.1⟩, List.forall_mem_cons.mpr ⟨List.suffix_refl p, ?_⟩⟩
  · obtain ⟨j, -, hj⟩ := h.2 p hp
    exact Nat.not_succ_le_self _ hj.length_le
  · intro q hq
    obtain ⟨j, -, hj⟩ := h.2 q hq
    exact (List.suffix_cons j p).trans hj

end

section

variable {p : Position}

theorem belowFrom_nodesAll {es : List Exp} (h : ∀ e ∈ es, ∀ p, Below p (e.nodes p)) (i : ℕ) :
    BelowFrom i p (nodesAll p i es) := by
  induction es generalizing i with
  | nil => exact .nil
  | cons e es ih =>
    obtain ⟨he, hes⟩ := List.forall_mem_cons.mp h
    exact (he _).append (ih hes (i + 1))

theorem belowFrom_nodesInits {inits : List (Ident × Exp)} (h : ∀ e ∈ inits, ∀ p, Below p (e.2.nodes p))
    (i : ℕ) : BelowFrom i p (nodesInits p i inits) := by
  induction inits generalizing i with
  | nil => exact .nil
  | cons e inits ih =>
    obtain ⟨he, hes⟩ := List.forall_mem_cons.mp h
    exact (he _).append (ih hes (i + 1))

theorem belowFrom_nodesDecs {ds : List Dec} (h : ∀ d ∈ ds, ∀ p, Below p (d.nodes p)) (i : ℕ)
    (o : OpenRun) : BelowFrom i p (nodesDecs p i o ds) := by
  induction ds generalizing i o with
  | nil => exact .nil
  | cons d ds ih =>
    obtain ⟨hd, hds⟩ := List.forall_mem_cons.mp h
    rw [nodesDecs]
    split
    · exact (ih hds (i + 1) _).succ
    · exact (hd _).append (ih hds (i + 1) _)

end

theorem belowCases : Tree.Cases (fun e => ∀ p, Below p (e.nodes p)) (fun v => ∀ p, Below p (v.nodes p))
    (fun d => ∀ p, Below p (d.nodes p)) where
  var _ _ h _ := (h _).belowFrom.node
  nil _ _ := BelowFrom.nil.node
  int _ _ _ := BelowFrom.nil.node
  string _ _ _ := BelowFrom.nil.node
  call _ _ _ _ h _ := (belowFrom_nodesAll h 0).node
  binary _ _ _ _ hl hr _ := ((hl _).append (hr _).belowFrom).node
  record _ _ _ h _ := (belowFrom_nodesInits h 0).node
  seq _ _ h _ := (belowFrom_nodesAll h 0).node
  assign _ _ _ ht hv _ := ((ht _).append (hv _).belowFrom).node
  condNone _ _ _ ht hp _ := ((ht _).append (hp _).belowFrom).node
  condSome _ _ _ _ ht hp he _ := ((ht _).append ((hp _).append (he _).belowFrom)).node
  whileLoop _ _ _ ht hb _ := ((ht _).append (hb _).belowFrom).node
  doWhile _ _ _ hb ht _ := ((hb _).append (ht _).belowFrom).node
  forLoop _ _ _ _ _ _ hl hh hb _ := ((hl _).append ((hh _).append (hb _).belowFrom)).node
  breakLoop _ _ := BelowFrom.nil.node
  letIn _ _ _ hd hb _ := ((belowFrom_nodesDecs hd 1 {}).append (hb _)).node
  array _ _ _ _ hz hi _ := ((hz _).append (hi _).belowFrom).node
  simple _ _ _ _ := BelowFrom.nil.node
  field _ _ _ _ hb _ := (hb _).belowFrom.node
  element _ _ _ hb hi _ := ((hb _).append (hi _).belowFrom).node
  type _ _ := ⟨.nil, List.forall_mem_nil _⟩
  function _ _ _ _ hb := hb
  varDec _ _ _ _ _ hi := hi

/-- **Every node has a position of its own.** -/
theorem Exp.nodup_nodes (e : Exp) (p : Position) : (e.nodes p).Nodup := (belowCases.all.1 e p).1

end TigerCheck
