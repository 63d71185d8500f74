import Mathlib.Data.List.Infix
import Mathlib.Data.Nat.Find
import Mathlib.Tactic.Cases
import TigerCheck.Scopes

/-!
# A table of names against its history

A table of scopes is what its history makes of it. The history is the list of the operations since the table
was new; what each of them still means at the end is read off the list alone: which scopes are still open,
and in which of them a name was bound last.

* `Scopes.Op`, `Scopes.act`, `Scopes.run`: operations, one at a time and one after another.
* `unmatched`: the scopes that a history has opened and not closed.
* `BoundIn`, `LatestIn`: the bindings of a scope that is still open, and the latest one of a name.
* **`depth_run_empty`**, **`heldAt_run_empty`**: the scopes, and what each of them binds.
* **`foldlM_balanced`**: a block in which every scope is closed again leaves the table as it was.
* **`run_eq_history`**: both together.
-/

namespace TigerCheck

namespace Scopes

variable {α : Type}

/-! ## Histories -/

/-- An operation on a table. -/
inductive Op (α : Type) where
  | enter
  | exit
  | bind (name : String) (value : α)
  | reset
deriving DecidableEq

/-- Do one operation, which is refused if there is no scope to close. -/
def act (s : Scopes α) : Op α → Except Breach (Scopes α)
  | .enter => .ok s.enter
  | .exit => s.exit
  | .bind name value => .ok (s.bind name value)
  | .reset => .ok s.reset

/-- Do one operation. A refused one changes nothing. -/
def attempt (s : Scopes α) (o : Op α) : Scopes α :=
  match s.act o with
  | .ok s' => s'
  | .error _ => s

/-- The table after operations, those that are refused left out. -/
def run (s : Scopes α) (ops : List (Op α)) : Scopes α := ops.foldl attempt s

/-- How many of the operations open a scope. -/
def entered (ops : List (Op α)) : ℕ := ops.countP fun | .enter => true | _ => false

/-- How many of the operations close a scope. -/
def exited (ops : List (Op α)) : ℕ := ops.countP fun | .exit => true | _ => false

/-- The operations do not start the table anew. -/
def NoReset (ops : List (Op α)) : Prop := ∀ o ∈ ops, o ≠ .reset

/-- At no point do the operations have closed more scopes than they have opened. -/
def NeverBelow (ops : List (Op α)) : Prop := ∀ p, p <+: ops → exited p ≤ entered p

/-- The scope in which the operations start is open throughout, and still is behind them. -/
def StaysOpen (ops : List (Op α)) : Prop := NoReset ops ∧ NeverBelow ops

instance (ops : List (Op α)) : Decidable (NoReset ops) :=
  decidable_of_iff (∀ o ∈ ops, (o matches .reset) = false) <| by
    refine forall₂_congr fun o _ => ?_
    cases o <;> simp

instance (ops : List (Op α)) : Decidable (NeverBelow ops) :=
  decidable_of_iff (∀ p ∈ ops.inits, exited p ≤ entered p) <| by simp [NeverBelow]

instance (ops : List (Op α)) : Decidable (StaysOpen ops) := inferInstanceAs (Decidable (_ ∧ _))

/-- **The scopes that a history has opened and that are still open behind it.** -/
def unmatched : List (Op α) → ℕ
  | [] => 0
  | .enter :: after => unmatched after + if StaysOpen after then 1 else 0
  | _ :: after => unmatched after

/-- What is done between `before` and `after` is done in a scope that is open to the end, with `k` scopes
open inside it. Nothing but a reset closes the outermost scope. -/
def StillOpen (before after : List (Op α)) (k : ℕ) : Prop :=
  NoReset after ∧ (unmatched before = 0 ∨ NeverBelow after) ∧ unmatched after = k

/-- The `i`-th operation of a history binds a name, in the scope that is the `k`-th one at the end, counted
from the innermost. -/
def BoundIn (ops : List (Op α)) (k i : ℕ) (name : String) (v : α) : Prop :=
  ops[i]? = some (.bind name v) ∧ StillOpen (ops.take i) (ops.drop (i + 1)) k

/-- **The latest binding of a name in a scope** that is still open. -/
def LatestIn (ops : List (Op α)) (k : ℕ) (name : String) (v : α) : Prop :=
  ∃ i, BoundIn ops k i name v ∧ ∀ j u, BoundIn ops k j name u → j ≤ i

variable {s : Scopes α} {ops w : List (Op α)} {name : String} {v : α} {k i : ℕ}

@[simp] theorem run_nil (s : Scopes α) : s.run [] = s := rfl

@[simp] theorem run_cons (s : Scopes α) (o : Op α) (ops : List (Op α)) :
    s.run (o :: ops) = (s.attempt o).run ops := rfl

theorem run_append (s : Scopes α) (ops w : List (Op α)) : s.run (ops ++ w) = (s.run ops).run w :=
  List.foldl_append

theorem run_concat (s : Scopes α) (ops : List (Op α)) (o : Op α) :
    s.run (ops ++ [o]) = (s.run ops).attempt o := run_append s ops [o]

theorem run_eq_of_foldlM {s' : Scopes α} (h : ops.foldlM act s = .ok s') : s.run ops = s' := by
  induction ops generalizing s with
  | nil => cases h; rfl
  | cons o ops ih =>
    rw [List.foldlM_cons] at h
    cases ho : s.act o with
    | error e => rw [ho] at h; cases h
    | ok s₁ =>
      rw [ho] at h
      rw [run_cons, attempt, ho]
      exact ih h

/-! ## Counting scopes -/

theorem entered_cons (o : Op α) (ops : List (Op α)) :
    entered (o :: ops) = entered ops + match o with | .enter => 1 | _ => 0 := by
  cases o <;> simp [entered]

theorem exited_cons (o : Op α) (ops : List (Op α)) :
    exited (o :: ops) = exited ops + match o with | .exit => 1 | _ => 0 := by
  cases o <;> simp [exited]

/-- The operations that close a scope opened before all of them. -/
def stray : List (Op α) → ℕ
  | [] => 0
  | .enter :: ops => stray ops - 1
  | .exit :: ops => stray ops + 1
  | _ :: ops => stray ops

theorem exited_le_iff (d : ℕ) :
    (∀ p, p <+: ops → exited p ≤ entered p + d) ↔ stray ops ≤ d := by
  induction ops generalizing d with
  | nil => simp [stray, exited]
  | cons o ops ih =>
    have hcons : (∀ p, p <+: o :: ops → exited p ≤ entered p + d) ↔
        ∀ p, p <+: ops → exited (o :: p) ≤ entered (o :: p) + d := by
      constructor
      · exact fun h p hp => h _ (List.cons_prefix_cons.mpr ⟨rfl, hp⟩)
      · intro h p hp
        obtain rfl | ⟨t, rfl, ht⟩ := List.prefix_cons_iff.mp hp
        · exact Nat.zero_le _
        · exact h t ht
    rw [hcons]
    cases o with
    | enter =>
      rw [stray, Nat.sub_le_iff_le_add, ← ih]
      exact forall₂_congr fun p _ => by simp only [entered_cons, exited_cons]; omega
    | exit =>
      cases d with
      | zero =>
        refine iff_of_false (fun h => ?_) (Nat.not_succ_le_zero _)
        simpa [exited, entered] using h [] List.nil_prefix
      | succ d =>
        rw [stray, Nat.add_le_add_iff_right, ← ih]
        exact forall₂_congr fun p _ => by simp only [entered_cons, exited_cons]; omega
    | bind n u => exact ih d
    | reset => exact ih d

theorem neverBelow_iff : NeverBelow ops ↔ stray ops = 0 :=
  (exited_le_iff 0).trans Nat.le_zero

@[simp] theorem noReset_cons {o : Op α} : NoReset (o :: ops) ↔ o ≠ .reset ∧ NoReset ops :=
  List.forall_mem_cons

@[simp] theorem noReset_concat {o : Op α} : NoReset (ops ++ [o]) ↔ NoReset ops ∧ o ≠ .reset := by
  rw [NoReset, List.forall_mem_append, List.forall_mem_singleton, NoReset]

/-- What is not a closing is not stray. -/
theorem stray_concat {o : Op α} (ho : o ≠ .exit) : stray (ops ++ [o]) = stray ops := by
  induction ops with
  | nil => cases o with
    | exit => exact absurd rfl ho
    | _ => rfl
  | cons p ops ih => cases p with
    | enter | exit | bind | reset => simp only [List.cons_append, stray, ih]

/-- A history without a reset starts in a scope that stays open if no operation is stray. -/
theorem staysOpen_iff (h : NoReset ops) : StaysOpen ops ↔ stray ops = 0 :=
  ⟨fun h => neverBelow_iff.mp h.2, fun h₀ => ⟨h, neverBelow_iff.mpr h₀⟩⟩

/-- Without a reset, what is opened is closed or still open, and what is closed was opened or stray. -/
theorem entered_add_stray (h : NoReset ops) : entered ops + stray ops = exited ops + unmatched ops := by
  induction ops with
  | nil => rfl
  | cons o ops ih =>
    obtain ⟨ho, hops⟩ := List.forall_mem_cons.mp h
    have hcount := ih hops
    cases o with
    | enter =>
      simp only [entered_cons, exited_cons, stray, unmatched, staysOpen_iff hops]
      split <;> omega
    | exit =>
      simp only [entered_cons, exited_cons, stray, unmatched]
      omega
    | bind n u => simpa [entered_cons, exited_cons, stray, unmatched] using hcount
    | reset => exact absurd rfl ho

@[simp] theorem depth_reset (s : Scopes α) : s.reset.depth = 1 := rfl

theorem one_le_depth (s : Scopes α) : 1 ≤ s.depth := Nat.le_add_left 1 _

/-- Closing a scope leaves one fewer, and the outermost one always. -/
theorem depth_attempt_exit (s : Scopes α) : (s.attempt .exit).depth = max 1 (s.depth - 1) := by
  obtain ⟨top, _ | ⟨scope, rest⟩⟩ := s
  · rfl
  · simp [attempt, act, exit, depth]

/-- **The number of scopes behind operations**, whatever table they start from. -/
theorem depth_run (s : Scopes α) (ops : List (Op α)) : (s.run ops).depth =
    unmatched ops + if NoReset ops then max 1 (s.depth - stray ops) else 1 := by
  induction ops generalizing s with
  | nil => simpa [unmatched, NoReset, stray] using (max_eq_right (one_le_depth s)).symm
  | cons o ops ih =>
    have hdepth := one_le_depth s
    rw [run_cons, ih]
    cases o with
    | enter =>
      have henter : (s.attempt .enter).depth = s.depth + 1 := rfl
      by_cases hops : NoReset ops
      · simp only [unmatched, stray, noReset_cons, hops, staysOpen_iff hops, henter, ne_eq, reduceCtorEq,
          not_false_eq_true, and_self, if_true]
        split <;> omega
      · have hstays : ¬ StaysOpen ops := fun h => hops h.1
        simp [unmatched, hops, hstays]
    | exit =>
      by_cases hops : NoReset ops
      · simp only [unmatched, stray, noReset_cons, hops, depth_attempt_exit, ne_eq, reduceCtorEq,
          not_false_eq_true, and_self, if_true]
        omega
      · simp [unmatched, hops]
    | bind n u =>
      have hbind : (s.attempt (.bind n u)).depth = s.depth := rfl
      simp [unmatched, stray, hbind]
    | reset =>
      have hreset : (s.attempt .reset).depth = 1 := rfl
      simp only [unmatched, noReset_cons, hreset, ne_eq, not_true_eq_false, false_and, if_false]
      split <;> omega

/-- **The scopes of a table are those its history has opened and not closed**, and the outermost one. -/
theorem depth_run_empty (ops : List (Op α)) : (run empty ops).depth = 1 + unmatched ops := by
  have hempty : (empty : Scopes α).depth = 1 := rfl
  rw [depth_run, hempty, Nat.add_comm]
  split <;> omega

theorem unmatched_enter (ops : List (Op α)) : unmatched (ops ++ [.enter]) = unmatched ops + 1 := by
  have h := depth_run_empty (ops ++ [.enter])
  rw [run_concat, attempt, act, depth_enter, depth_run_empty] at h
  omega

theorem unmatched_exit (ops : List (Op α)) : unmatched (ops ++ [.exit]) = unmatched ops - 1 := by
  have h := depth_run_empty (ops ++ [.exit])
  rw [run_concat, depth_attempt_exit, depth_run_empty] at h
  omega

theorem unmatched_bind (ops : List (Op α)) (name : String) (v : α) :
    unmatched (ops ++ [.bind name v]) = unmatched ops := by
  have h := depth_run_empty (ops ++ [.bind name v])
  rw [run_concat, attempt, act, depth_bind, depth_run_empty] at h
  omega

/-- If the scope in which `w` starts stays open, so do all those that were open before. -/
theorem unmatched_append (hw : StaysOpen w) (ops : List (Op α)) :
    unmatched (ops ++ w) = unmatched ops + unmatched w := by
  have h := depth_run_empty (ops ++ w)
  rw [run_append, depth_run, if_pos hw.1, neverBelow_iff.mp hw.2, depth_run_empty] at h
  omega

/-- Where the outermost scope alone is open, what was done before has no part in what is open later. -/
theorem unmatched_append_of_none (h : unmatched ops = 0) (w : List (Op α)) :
    unmatched (ops ++ w) = unmatched w := by
  have hw := depth_run_empty (ops ++ w)
  rw [run_append, depth_run, depth_run_empty, h] at hw
  split at hw <;> omega

/-! ## Bindings that are still in scope -/

theorem stillOpen_nil {before : List (Op α)} : StillOpen before [] k ↔ k = 0 := by
  have hnil : NeverBelow ([] : List (Op α)) := neverBelow_iff.mpr rfl
  have hreset : NoReset ([] : List (Op α)) := List.forall_mem_nil _
  simp [StillOpen, hnil, hreset, unmatched, eq_comm]

theorem neverBelow_concat_exit (h : NoReset ops) :
    NeverBelow (ops ++ [.exit]) ↔ NeverBelow ops ∧ 0 < unmatched ops := by
  have hops := entered_add_stray h
  have hexit : NoReset (ops ++ [.exit]) := noReset_concat.mpr ⟨h, fun he => by cases he⟩
  have hcons := entered_add_stray hexit
  rw [unmatched_exit, entered, exited, List.countP_append, List.countP_append, ← entered, ← exited] at hcons
  simp only [List.countP_singleton, Bool.false_eq_true, if_false, if_true] at hcons
  rw [neverBelow_iff, neverBelow_iff]
  omega

/-- A binding is as deep in the table as it was, seen from the scope around the one that is closed. -/
theorem stillOpen_exit {before after : List (Op α)} :
    StillOpen before (after ++ [.exit]) k ↔
      StillOpen before after (if unmatched (before ++ .bind name v :: after) = 0 then k else k + 1) := by
  have hreset : NoReset (after ++ [.exit]) ↔ NoReset after := by simp
  rw [StillOpen, StillOpen, hreset, unmatched_exit]
  refine and_congr_right fun hafter => ?_
  rw [neverBelow_concat_exit hafter]
  by_cases hbefore : unmatched before = 0
  · have hall : unmatched (before ++ .bind name v :: after) = unmatched after :=
      unmatched_append_of_none hbefore _
    rw [hall]
    split <;> omega
  · simp only [hbefore, false_or, and_assoc]
    refine and_congr_right fun hbelow => ?_
    have hstray : stray after = 0 := neverBelow_iff.mp hbelow
    have hstays : StaysOpen (.bind name v :: after) := (staysOpen_iff (by simpa using hafter)).mpr hstray
    have hall : unmatched (before ++ .bind name v :: after) = unmatched before + unmatched after :=
      unmatched_append hstays _
    rw [if_neg (by omega)]
    omega

theorem stillOpen_enter {before after : List (Op α)} :
    StillOpen before (after ++ [.enter]) k ↔ ∃ j, k = j + 1 ∧ StillOpen before after j := by
  have hbelow : NeverBelow (after ++ [.enter]) ↔ NeverBelow after := by
    rw [neverBelow_iff, neverBelow_iff, stray_concat (by simp)]
  simp only [StillOpen, noReset_concat, hbelow, unmatched_enter]
  constructor
  · rintro ⟨⟨hreset, -⟩, hopen, rfl⟩
    exact ⟨_, rfl, hreset, hopen, rfl⟩
  · rintro ⟨_, rfl, hreset, hopen, rfl⟩
    exact ⟨⟨hreset, by simp⟩, hopen, rfl⟩

theorem stillOpen_bind {before after : List (Op α)} :
    StillOpen before (after ++ [.bind name v]) k ↔ StillOpen before after k := by
  have hbelow : NeverBelow (after ++ [.bind name v]) ↔ NeverBelow after := by
    rw [neverBelow_iff, neverBelow_iff, stray_concat (by simp)]
  simp [StillOpen, hbelow, unmatched_bind]

theorem not_stillOpen_reset {before after : List (Op α)} :
    ¬ StillOpen before (after ++ [.reset]) k := fun h => (noReset_concat.mp h.1).2 rfl

/-- The bindings of a longer history: those of the shorter one, and perhaps the last operation. -/
theorem boundIn_concat {o : Op α} : BoundIn (ops ++ [o]) k i name v ↔
    (ops[i]? = some (.bind name v) ∧ StillOpen (ops.take i) (ops.drop (i + 1) ++ [o]) k) ∨
      (i = ops.length ∧ o = .bind name v ∧ k = 0) := by
  rw [BoundIn]
  rcases Nat.lt_trichotomy i ops.length with hi | rfl | hi
  · rw [List.getElem?_append_left hi, List.take_append_of_le_length hi.le,
      List.drop_append_of_le_length hi, or_iff_left (fun h => hi.ne h.1)]
  · have hdrop : (ops ++ [o]).drop (ops.length + 1) = [] := by simp
    rw [List.getElem?_concat_length, hdrop, stillOpen_nil, List.getElem?_eq_none (Nat.le_refl _)]
    simp
  · rw [List.getElem?_eq_none (by rw [List.length_append]; exact hi),
      List.getElem?_eq_none hi.le]
    simp [hi.ne']

theorem boundIn_enter :
    BoundIn (ops ++ [.enter]) k i name v ↔ ∃ j, k = j + 1 ∧ BoundIn ops j i name v := by
  rw [boundIn_concat, stillOpen_enter]
  simp only [BoundIn, reduceCtorEq, false_and, and_false, or_false]
  exact ⟨fun ⟨hi, j, hk, hopen⟩ => ⟨j, hk, hi, hopen⟩, fun ⟨j, hk, hi, hopen⟩ => ⟨hi, j, hk, hopen⟩⟩

theorem boundIn_exit : BoundIn (ops ++ [.exit]) k i name v ↔
    BoundIn ops (if unmatched ops = 0 then k else k + 1) i name v := by
  rw [boundIn_concat, BoundIn, or_iff_left (by simp)]
  refine and_congr_right fun hi => ?_
  obtain ⟨hlt, hget⟩ := List.getElem?_eq_some_iff.mp hi
  have hsplit : ops = ops.take i ++ .bind name v :: ops.drop (i + 1) := by
    rw [← hget, List.getElem_cons_drop, List.take_append_drop]
  rw [stillOpen_exit, ← hsplit]

theorem boundIn_bind {n : String} {u : α} : BoundIn (ops ++ [.bind n u]) k i name v ↔
    BoundIn ops k i name v ∨ (i = ops.length ∧ (n = name ∧ u = v) ∧ k = 0) := by
  rw [boundIn_concat, stillOpen_bind, BoundIn, Op.bind.injEq]

theorem not_boundIn_reset : ¬ BoundIn (ops ++ [.reset]) k i name v := by
  rw [boundIn_concat]
  rintro (⟨-, h⟩ | ⟨-, h, -⟩)
  · exact not_stillOpen_reset h
  · cases h

theorem BoundIn.lt (h : BoundIn ops k i name v) : i < ops.length :=
  (List.getElem?_eq_some_iff.mp h.1).1

/-- A name that is bound in a scope has a latest binding in it. -/
theorem BoundIn.exists_latestIn (h : BoundIn ops k i name v) : ∃ u, LatestIn ops k name u := by
  classical
  have hlt {j : ℕ} (hj : ∃ u, BoundIn ops k j name u) : j ≤ ops.length := hj.choose_spec.lt.le
  obtain ⟨u, hu⟩ := Nat.findGreatest_spec (P := fun j => ∃ u, BoundIn ops k j name u) h.lt.le ⟨v, h⟩
  exact ⟨u, _, hu, fun j u' hj => Nat.le_findGreatest (hlt ⟨u', hj⟩) ⟨u', hj⟩⟩

theorem latestIn_bind {n : String} {u : α} : LatestIn (ops ++ [.bind n u]) k name v ↔
    if k = 0 ∧ name = n then v = u else LatestIn ops k name v := by
  simp only [LatestIn, boundIn_bind]
  split
  case isTrue h =>
    obtain ⟨rfl, rfl⟩ := h
    constructor
    · rintro ⟨i, hi | ⟨-, ⟨-, rfl⟩, -⟩, hlast⟩
      · exact absurd (hlast ops.length u (.inr ⟨rfl, ⟨rfl, rfl⟩, rfl⟩)) (Nat.not_le.mpr hi.lt)
      · rfl
    · rintro rfl
      refine ⟨ops.length, .inr ⟨rfl, ⟨rfl, rfl⟩, rfl⟩, ?_⟩
      rintro j u' (hj | ⟨rfl, -⟩)
      · exact hj.lt.le
      · exact Nat.le_refl _
  case isFalse h =>
    have hnone {j : ℕ} {u' : α} : ¬ (j = ops.length ∧ (n = name ∧ u = u') ∧ k = 0) :=
      fun ⟨_, ⟨hn, _⟩, hk⟩ => h ⟨hk, hn.symm⟩
    simp only [hnone, or_false]

/-! ## What the scopes bind -/

/-- What the `k`-th scope of a table binds a name to, counted from the innermost one. -/
def heldAt (s : Scopes α) (k : ℕ) (name : String) : Option α :=
  (s.innermost :: s.outer)[k]?.bind (·.lookup name)

@[simp] theorem heldAt_zero (s : Scopes α) (name : String) : s.heldAt 0 name = s.lookupLocal name := rfl

@[simp] theorem heldAt_empty (k : ℕ) (name : String) : (empty : Scopes α).heldAt k name = none := by
  cases k <;> rfl

@[simp] theorem heldAt_enter_zero (s : Scopes α) (name : String) : s.enter.heldAt 0 name = none := rfl

@[simp] theorem heldAt_enter_succ (s : Scopes α) (k : ℕ) (name : String) :
    s.enter.heldAt (k + 1) name = s.heldAt k name := rfl

theorem heldAt_bind (s : Scopes α) (name other : String) (v : α) (k : ℕ) :
    (s.bind name v).heldAt k other = if k = 0 ∧ other = name then some v else s.heldAt k other := by
  cases k with
  | zero => simpa using lookupLocal_bind s name other v
  | succ k => rw [if_neg (by simp)]; rfl

theorem heldAt_attempt_exit (s : Scopes α) (k : ℕ) (name : String) :
    (s.attempt .exit).heldAt k name = s.heldAt (if s.depth = 1 then k else k + 1) name := by
  obtain ⟨top, _ | ⟨scope, rest⟩⟩ := s
  · rfl
  · simp [attempt, act, exit, depth, heldAt]

/-- **The nearest scope that binds a name decides.** -/
theorem lookup_eq_some_iff : s.lookup name = some v ↔
    ∃ k, s.heldAt k name = some v ∧ ∀ j < k, s.heldAt j name = none := by
  simp only [lookup, heldAt]
  induction s.innermost :: s.outer with
  | nil => simp
  | cons scope scopes ih =>
    rw [List.findSome?_cons]
    cases htop : scope.lookup name with
    | some u =>
      constructor
      · exact fun h => ⟨0, htop.trans h, fun j hj => absurd hj (Nat.not_lt_zero j)⟩
      · rintro ⟨_ | k, hk, hbefore⟩
        · exact htop.symm.trans hk
        · exact absurd (htop.symm.trans (hbefore 0 k.succ_pos)) (by simp)
    | none =>
      refine ih.trans ⟨?_, ?_⟩
      · rintro ⟨k, hk, hbefore⟩
        refine ⟨k + 1, hk, fun j hj => ?_⟩
        cases j with
        | zero => exact htop
        | succ j => exact hbefore j (Nat.lt_of_succ_lt_succ hj)
      · rintro ⟨_ | k, hk, hbefore⟩
        · exact absurd (htop.symm.trans hk) (by simp)
        · exact ⟨k, hk, fun j hj => hbefore (j + 1) (Nat.succ_lt_succ hj)⟩

/-- **Each scope binds a name to the latest value that its history gave it there.** -/
theorem heldAt_run_empty (ops : List (Op α)) :
    (run empty ops).heldAt k name = some v ↔ LatestIn ops k name v := by
  induction ops using List.reverseRecOn generalizing k with
  | nil => simp [LatestIn, BoundIn]
  | append_singleton ops o ih =>
    rw [run_concat]
    cases o with
    | enter =>
      rw [attempt, act]
      cases k with
      | zero => simp [LatestIn, boundIn_enter, -heldAt_zero]
      | succ k => simpa [LatestIn, boundIn_enter] using ih
    | exit =>
      have hone : (run empty ops).depth = 1 ↔ unmatched ops = 0 := by rw [depth_run_empty]; omega
      simp only [heldAt_attempt_exit, hone, ih, LatestIn, boundIn_exit]
    | bind n u =>
      rw [attempt, act, heldAt_bind, latestIn_bind]
      split
      · rw [Option.some_inj, eq_comm]
      · exact ih
    | reset =>
      have hreset : (run empty ops).attempt .reset = empty := rfl
      simp [hreset, LatestIn, not_boundIn_reset]

/-! ## Balanced operations -/

/-- Operations that never close more than they have opened work on the scopes on top of a table. -/
theorem exists_foldlM_act (base : List (Scope α)) (hw : NoReset w) (top : Scope α) (rest : List (Scope α))
    (hstray : stray w ≤ rest.length) :
    ∃ top' rest', w.foldlM act ⟨top, rest ++ base⟩ = .ok (⟨top', rest' ++ base⟩ : Scopes α) ∧
      rest'.length + exited w = rest.length + entered w := by
  induction w generalizing top rest with
  | nil => exact ⟨top, rest, rfl, rfl⟩
  | cons o w ih =>
    obtain ⟨ho, hops⟩ := noReset_cons.mp hw
    rw [List.foldlM_cons, entered_cons, exited_cons]
    cases o with
    | enter =>
      obtain ⟨top', rest', hrun, hlen⟩ := ih hops [] (top :: rest) (Nat.sub_le_iff_le_add.mp hstray)
      refine ⟨top', rest', hrun, ?_⟩
      rw [List.length_cons] at hlen
      simp only
      omega
    | exit =>
      cases rest with
      | nil => exact absurd hstray (Nat.not_succ_le_zero _)
      | cons scope rest =>
        obtain ⟨top', rest', hrun, hlen⟩ := ih hops scope rest (Nat.le_of_succ_le_succ hstray)
        refine ⟨top', rest', hrun, ?_⟩
        rw [List.length_cons]
        simp only
        omega
    | bind n u => exact ih hops _ rest hstray
    | reset => exact absurd rfl ho

/-- **A block in which every scope is closed again leaves the table as it was**, and none of its closings
is refused. -/
theorem foldlM_balanced (s : Scopes α) (hw : StaysOpen w) (heq : entered w = exited w) :
    (Op.enter :: (w ++ [.exit])).foldlM act s = .ok s := by
  obtain ⟨top, rest, hrun, hlen⟩ :=
    exists_foldlM_act (s.innermost :: s.outer) hw.1 [] [] (neverBelow_iff.mp hw.2).le
  obtain rfl : rest = [] := List.eq_nil_of_length_eq_zero (by rw [List.length_nil] at hlen; omega)
  have hblock : w.foldlM act s.enter = .ok ⟨top, s.innermost :: s.outer⟩ := hrun
  have hall : List.foldlM act s.enter (w ++ [.exit]) = .ok s := by
    rw [List.foldlM_append, hblock]
    rfl
  exact hall

theorem exit_eq_error_iff (s : Scopes α) : s.exit = .error .unmatchedExit ↔ s.depth = 1 := by
  obtain ⟨top, _ | ⟨scope, rest⟩⟩ := s <;> simp [exit, depth]

/-- **A table is what its history makes of it.** The outermost scope and those that were opened and not
closed are its scopes. A name is found in the innermost of them that binds it, with the value it was last
bound to there. A closing is refused exactly at the outermost scope, and changes nothing then. And
whatever a table holds, it holds again behind a block in which every scope is closed again. -/
theorem run_eq_history (ops : List (Op α)) :
    (run empty ops).depth = 1 + unmatched ops ∧
      (∀ name v, (run empty ops).lookup name = some v ↔
        ∃ k, LatestIn ops k name v ∧ ∀ j < k, ∀ i u, ¬ BoundIn ops j i name u) ∧
      (∀ name v, (run empty ops).lookupLocal name = some v ↔ LatestIn ops 0 name v) ∧
      ((run empty ops).exit = .error .unmatchedExit ↔ unmatched ops = 0) ∧
      (unmatched ops = 0 → run empty (ops ++ [.exit]) = run empty ops) ∧
      ∀ (s : Scopes α) (w : List (Op α)), NoReset w → NeverBelow w → entered w = exited w →
        s.run (.enter :: (w ++ [.exit])) = s := by
  have hrefused : (run empty ops).exit = .error .unmatchedExit ↔ unmatched ops = 0 := by
    rw [exit_eq_error_iff, depth_run_empty]
    omega
  refine ⟨depth_run_empty ops, fun name v => ?_, fun name v => ?_, hrefused, fun h => ?_,
    fun s w hreset hbelow heq => run_eq_of_foldlM (foldlM_balanced s ⟨hreset, hbelow⟩ heq)⟩
  · have hnone (j : ℕ) : (run empty ops).heldAt j name = none ↔ ∀ i u, ¬ BoundIn ops j i name u := by
      rw [Option.eq_none_iff_forall_ne_some]
      constructor
      · intro hj i u hi
        obtain ⟨u', hu'⟩ := hi.exists_latestIn
        exact hj u' ((heldAt_run_empty ops).mpr hu')
      · intro hj u hu
        obtain ⟨i, hi, -⟩ := (heldAt_run_empty ops).mp hu
        exact hj i u hi
    simp only [lookup_eq_some_iff, heldAt_run_empty, hnone]
  · rw [← heldAt_zero, heldAt_run_empty]
  · rw [run_concat, attempt, act, hrefused.mpr h]

/-- A name that is bound outside and inside: the table of the block is found again behind it. -/
theorem run_eq_history_shadowed :
    (run empty [Op.bind "x" 1, .enter, .bind "x" 2]).lookup "x" = some 2 ∧
      run (empty.bind "x" 1) (.enter :: ([.bind "x" 2, .enter, .exit] ++ [.exit])) = empty.bind "x" 1 :=
  ⟨by decide, (run_eq_history []).2.2.2.2.2 _ _ (by decide) (by decide) rfl⟩

end Scopes

end TigerCheck
