import Mathlib.Data.List.Forall2
import Mathlib.Data.Option.Basic
import Mathlib.Order.Basic
import TigerCheck.Proofs.Relabel.Labels
import TigerCheck.Proofs.Yields

/-!
# Two runs under a relabelling

One action is run in a state, and another action in a state that is the first one relabelled. Where both end,
the second answer is the first one relabelled, and so is the state: this is what *carries over* means. Nothing
is said of runs that break off, and nothing of tables beyond a limit up to which the numbers are fixed.

* `Aligned`: two tables, the entries of the one under the new numbers in the other.
* `Stage`: a relabelling with its limit, and the diagnostics that there were before. `Stage.Match`: a state and
  the same state relabelled.
* `Stage.Relates`, `Stage.Carries`: what holds of the ends of two runs. **`Stage.Relates.bind`**: one action after
  another.
* `Agree`: what holds of the answers of two operations on tables.
* `Stage.carries_report`, `Stage.carries_bindValue`, …: reports and scopes.
-/

namespace TigerCheck

open Check

/-! ## Tables -/

section Tables

variable {α β : Type} {σ : ℕ → ℕ} {R : α → β → Prop} {xs : Array α} {ys : Array β} {a : α} {b : β}

/-- The entries of one table are those of the other, each under its new number. -/
def Aligned (σ : ℕ → ℕ) (R : α → β → Prop) (xs : Array α) (ys : Array β) : Prop :=
  ∀ i, Option.Rel R xs[i]? ys[σ i]?

theorem Aligned.push (h : Aligned σ R xs ys) (hσ : StrictMono σ) (hsize : σ xs.size = ys.size) (hab : R a b) :
    Aligned σ R (xs.push a) (ys.push b) := by
  intro i
  rw [Array.getElem?_push, Array.getElem?_push, ← hsize]
  simp only [hσ.injective.eq_iff]
  split_ifs
  · exact .some hab
  · exact h i

theorem Aligned.set (h : Aligned σ R xs ys) (hσ : StrictMono σ) {i : ℕ} (hi : i < xs.size) (hj : σ i < ys.size)
    (hab : R a b) : Aligned σ R (xs.set i a hi) (ys.set (σ i) b hj) := by
  intro j
  rw [Array.getElem?_set, Array.getElem?_set]
  simp only [hσ.injective.eq_iff]
  split_ifs
  · exact .some hab
  · exact h j

/-- An index that is beyond the one table is beyond the other. -/
theorem Aligned.size_le_iff (h : Aligned σ R xs ys) (i : ℕ) : xs.size ≤ i ↔ ys.size ≤ σ i := by
  rw [← Array.getElem?_eq_none_iff, ← Array.getElem?_eq_none_iff]
  have hrel := h i
  generalize xs[i]? = x at hrel
  generalize ys[σ i]? = y at hrel
  cases hrel <;> simp

theorem Aligned.getElem (h : Aligned σ R xs ys) {i : ℕ} (hi : i < xs.size) (hj : σ i < ys.size) :
    R xs[i] ys[σ i] := by
  have hrel := h i
  rw [Array.getElem?_eq_getElem hi, Array.getElem?_eq_getElem hj] at hrel
  cases hrel with
  | some h => exact h

theorem Aligned.entry (h : Aligned σ R xs ys) {i : ℕ} (ha : entry xs i = .ok a) (hb : entry ys (σ i) = .ok b) :
    R a b := by
  have hrel := h i
  rw [entry_eq_ok_iff.mp ha, entry_eq_ok_iff.mp hb] at hrel
  cases hrel with
  | some h => exact h

end Tables

/-- Where two operations have answers, the second answer is the first one relabelled. -/
def Agree {α β : Type} (φ : α → β) (x : Except Breach α) (y : Except Breach β) : Prop :=
  ∀ a b, x = .ok a → y = .ok b → b = φ a

namespace Agree

variable {α β γ δ : Type} {φ : α → β} {ψ : γ → δ} {x : Except Breach α} {y : Except Breach β}

theorem ok (a : α) : Agree φ (.ok a) (.ok (φ a)) := by
  intro _ _ ha hb
  cases ha
  cases hb
  rfl

theorem bind {f : α → Except Breach γ} {g : β → Except Breach δ} (h : Agree φ x y)
    (hf : ∀ a, Agree ψ (f a) (g (φ a))) : Agree ψ (x >>= f) (y >>= g) := by
  intro u v hu hv
  cases x with
  | error => cases hu
  | ok a =>
    cases y with
    | error => cases hv
    | ok b =>
      obtain rfl := h a b rfl rfl
      exact hf a u v hu hv

theorem map {f : α → γ} {g : β → δ} (h : Agree φ x y) (hf : ∀ a, g (φ a) = ψ (f a)) :
    Agree ψ (f <$> x) (g <$> y) := by
  change Agree ψ (x >>= fun a => .ok (f a)) (y >>= fun b => .ok (g b))
  refine h.bind fun a => ?_
  rw [hf]
  exact ok (f a)

end Agree

theorem Aligned.agree {α β : Type} {σ : ℕ → ℕ} {φ : α → β} {xs : Array α} {ys : Array β}
    (h : Aligned σ (fun a b => b = φ a) xs ys) (i : ℕ) : Agree φ (TigerCheck.entry xs i) (TigerCheck.entry ys (σ i)) :=
  fun _ _ => h.entry

/-! ## States -/

/-- How many entries a table has. -/
def Checker.count (c : Checker) : Handle → ℕ
  | .record => c.types.records.size
  | .array => c.types.arrays.size
  | .frame => c.frames.frames.size
  | .var => c.frames.vars.size
  | .function => c.frames.functions.size
  | .typeName => c.namedTypes.size

/-- A slot and the same slot relabelled. Where it is in its frame is left open, unless that is to be the same. -/
structure Slot.Like (ρ : Relabelling) (exact : Prop) (s s' : Slot) : Prop where
  ty_eq : s'.ty = s.ty.map (·.relabel ρ)
  place_eq : exact → s'.level = s.level ∧ s'.offset = s.offset ∧ s'.frame = s.frame.relabel ρ ∧ s'.kind = s.kind

/-- A frame and the same frame relabelled, as far as it is to be the same. -/
structure Frame.Like (ρ : Relabelling) (exact : Prop) (f f' : Frame) : Prop where
  level_eq : exact → f'.level = f.level
  parent_eq : exact → f'.parent = f.parent.map (·.relabel ρ)
  slots_eq : exact → f'.slots = f.slots.map (·.relabel ρ)
  layout_eq : exact → f'.layout = f.layout.map (List.map (Option.map (·.relabel ρ)))

/-- A function and the same function relabelled. -/
structure Prototype.Like (ρ : Relabelling) (p p' : Prototype) : Prop where
  signature_eq : p'.signature = p.signature.map (·.relabel ρ)
  origin_eq : p'.origin = p.origin.relabel ρ

/-- What two runs under a relabelling start from. -/
structure Stage (ρ : Relabelling) where
  faithful : ρ.Faithful
  /-- The sizes up to which tables may grow. -/
  limit : Handle → ℕ
  /-- Whether slots keep their places in their frames. -/
  exact : Prop
  /-- The diagnostics that were there before, on either side. -/
  base : List Diagnostic
  base' : List Diagnostic

namespace Stage

variable {ρ : Relabelling} (S : Stage ρ)

/-- A state and the same state relabelled. -/
structure Match (c d : Checker) : Prop where
  records : Aligned (ρ.handle .record) (fun e e' => e' = e.relabel ρ) c.types.records d.types.records
  arrays : Aligned (ρ.handle .array) (fun e e' => e' = e.relabel ρ) c.types.arrays d.types.arrays
  namedTypes : Aligned (ρ.handle .typeName) (fun t t' => t' = t.relabel ρ) c.namedTypes d.namedTypes
  functions : Aligned (ρ.handle .function) (Prototype.Like ρ) c.frames.functions d.frames.functions
  vars : Aligned (ρ.handle .var) (Slot.Like ρ S.exact) c.frames.vars d.frames.vars
  frames : Aligned (ρ.handle .frame) (Frame.Like ρ S.exact) c.frames.frames d.frames.frames
  values_eq : d.values = c.values.relabel ρ.value (·.relabel ρ)
  typeNames_eq : d.typeNames = c.typeNames.relabel ρ.typeName (·.relabel ρ)
  functionNames_eq : d.functions = c.functions.relabel ρ.function (·.relabel ρ)
  /-- The next entries get the numbers that belong to each other. -/
  next : ∀ k t, c.count k + t < S.limit k → ρ.handle k (c.count k + t) = d.count k + t
  diagnostics : ∃ posts posts', c.diagnostics.entries.toList = S.base ++ posts ∧
    d.diagnostics.entries.toList = S.base' ++ posts' ∧ List.Forall₂ (Diagnostic.Renamed ρ.toNames) posts posts'

variable {S} {c c' d d' : Checker}

/-- The numbers still belong to each other after as many new entries on both sides. -/
theorem next_add {n : Handle → ℕ} (h : S.Match c d) (hc : ∀ k, c'.count k = c.count k + n k)
    (hd : ∀ k, d'.count k = d.count k + n k) :
    ∀ k t, c'.count k + t < S.limit k → ρ.handle k (c'.count k + t) = d'.count k + t := by
  intro k t ht
  rw [hc, Nat.add_assoc] at ht ⊢
  rw [h.next k _ ht, hd, Nat.add_assoc]

/-- Where a table may have one more entry, the next number is known. -/
theorem Match.handle_count (h : S.Match c d) {k : Handle} (hlt : c.count k < S.limit k) :
    ρ.handle k (c.count k) = d.count k := h.next k 0 hlt

/-! ## Two runs -/

variable {α β γ δ : Type} {R : α → β → Prop} {Q : γ → δ → Prop} {m : Check α} {m' : Check β}

variable (S) in
/-- Tables only grow on the left. Where both actions end, from a state and the same state relabelled, and no
table grows beyond its limit, the answers are related and the states are still the same. -/
def Relates (R : α → β → Prop) (m : Check α) (m' : Check β) : Prop :=
  ∀ c a c', m.run c = .ok (a, c') → c.count ≤ c'.count ∧
    ∀ d b d', m'.run d = .ok (b, d') → S.Match c d → c'.count ≤ S.limit → R a b ∧ S.Match c' d'

variable (S) in
/-- The second action answers what the first one does, relabelled. -/
abbrev Carries (φ : α → β) (m : Check α) (m' : Check β) : Prop := S.Relates (fun a b => b = φ a) m m'

theorem relates_pure {a : α} {b : β} (h : R a b) : S.Relates R (pure a) (pure b) := by
  intro c _ _ hrun
  cases hrun
  refine ⟨le_rfl, fun d _ _ hrun' hM _ => ?_⟩
  cases hrun'
  exact ⟨h, hM⟩

theorem carries_pure {φ : α → β} (a : α) : S.Carries φ (pure a) (pure (φ a)) := relates_pure rfl

theorem relates_throw {e : Breach} : S.Relates R (throw e) m' := by
  intro c a c' hrun
  cases hrun

/-- Both runs go through the ends of their first parts, the answers of which are related. -/
theorem Relates.andThen {f : α → Check γ} {f' : β → Check δ} (h : S.Relates R m m') (htotal : ∀ a, ∃ b, R a b)
    (hf : ∀ a b, R a b → S.Relates Q (f a) (f' b)) : S.Relates Q (m >>= f) (m' >>= f') := by
  intro c x c' hrun
  obtain ⟨a, c₁, h₁, h₂⟩ := exists_of_run_bind hrun
  obtain ⟨hle, hend⟩ := h c a c₁ h₁
  obtain ⟨b₀, hb₀⟩ := htotal a
  have hle' := (hf a b₀ hb₀ c₁ x c' h₂).1
  refine ⟨hle.trans hle', fun d y d' hrun' hM hlim => ?_⟩
  obtain ⟨b, d₁, k₁, k₂⟩ := exists_of_run_bind hrun'
  obtain ⟨hab, hM₁⟩ := hend d b d₁ k₁ hM (hle'.trans hlim)
  exact (hf a b hab c₁ x c' h₂).2 d₁ y d' k₂ hM₁ hlim

/-- **One action after another.** -/
theorem Relates.bind {φ : α → β} {f : α → Check γ} {f' : β → Check δ} (h : S.Carries φ m m')
    (hf : ∀ a, S.Relates Q (f a) (f' (φ a))) : S.Relates Q (m >>= f) (m' >>= f') :=
  h.andThen (fun a => ⟨φ a, rfl⟩) (by rintro a _ rfl; exact hf a)

theorem Relates.map {φ : α → β} {f : α → γ} {f' : β → δ} (h : S.Carries φ m m') (hf : ∀ a, Q (f a) (f' (φ a))) :
    S.Relates Q (f <$> m) (f' <$> m') :=
  show S.Relates Q (m >>= fun a => pure (f a)) (m' >>= fun b => pure (f' b)) from
    h.bind fun a => relates_pure (hf a)

/-- What is read off the state on both sides. -/
theorem relates_get (φ : α → β) (x : Checker → α) (x' : Checker → β) (f : α → Check γ) (f' : β → Check δ)
    (hx : ∀ c d, S.Match c d → x' d = φ (x c)) (hf : ∀ a, S.Relates Q (f a) (f' (φ a))) :
    S.Relates Q (get >>= fun c => f (x c)) (get >>= fun d => f' (x' d)) := by
  intro c y c' hrun
  obtain ⟨_, _, hget, hrun⟩ := exists_of_run_bind hrun
  cases hget
  refine ⟨(hf (x c) c y c' hrun).1, fun d z d' hrun' hM hlim => ?_⟩
  obtain ⟨_, _, hget, hrun'⟩ := exists_of_run_bind hrun'
  cases hget
  rw [hx c d hM] at hrun'
  exact (hf (x c) c y c' hrun).2 d z d' hrun' hM hlim

/-- What is looked up on both sides: it is there on both, or on neither. -/
theorem relates_lookup {m : Checker → Check γ} {m' : Checker → Check δ} {n : Check γ} {n' : Check δ}
    {f : α → Check γ} {f' : β → Check δ} (φ : α → β) (x : Checker → Option α) (x' : Checker → Option β)
    (hm : ∀ c, m c = (x c).elim n f) (hm' : ∀ d, m' d = (x' d).elim n' f')
    (hx : ∀ c d, S.Match c d → x' d = (x c).map φ) (hnone : S.Relates Q n n')
    (hsome : ∀ a, S.Relates Q (f a) (f' (φ a))) : S.Relates Q (get >>= m) (get >>= m') := by
  obtain rfl : m = fun c => (x c).elim n f := funext hm
  obtain rfl : m' = fun d => (x' d).elim n' f' := funext hm'
  refine relates_get (Option.map φ) x x' (·.elim n f) (·.elim n' f') hx fun found => ?_
  cases found with
  | none => exact hnone
  | some a => exact hsome a

/-- An operation on the tables that has related answers. -/
theorem relates_read (x : Checker → Except Breach α) (x' : Checker → Except Breach β)
    (hx : ∀ c d, S.Match c d → ∀ a b, x c = .ok a → x' d = .ok b → R a b) :
    S.Relates R (get >>= fun c => liftM (x c)) (get >>= fun d => liftM (x' d)) := by
  intro c a c' hrun
  obtain ⟨a', ha, rfl, rfl⟩ := yields_lift.mp (yields_get.mp (yields_bind.mp (yields_of_run hrun)))
  refine ⟨le_rfl, fun d b d' hrun' hM _ => ?_⟩
  obtain ⟨b', hb, rfl, rfl⟩ := yields_lift.mp (yields_get.mp (yields_bind.mp (yields_of_run hrun')))
  exact ⟨hx _ _ hM _ _ ha hb, hM⟩

/-- The same, with the answers at hand in what follows. -/
theorem relates_read_bind (R : α → β → Prop) {f : α → Check γ} {f' : β → Check δ} (x : Checker → Except Breach α)
    (x' : Checker → Except Breach β) (hx : ∀ c d, S.Match c d → ∀ a b, x c = .ok a → x' d = .ok b → R a b)
    (htotal : ∀ a, ∃ b, R a b) (hf : ∀ a b, R a b → S.Relates Q (f a) (f' b)) :
    S.Relates Q (get >>= fun c => liftM (x c) >>= f) (get >>= fun d => liftM (x' d) >>= f') := by
  have h := (relates_read x x' hx).andThen htotal hf
  simpa only [bind_assoc] using h

/-- An operation on the tables that has the relabelled answer. -/
theorem carries_read {φ : α → β} {f : α → Check γ} {f' : β → Check δ} (x : Checker → Except Breach α)
    (x' : Checker → Except Breach β) (hx : ∀ c d, S.Match c d → Agree φ (x c) (x' d))
    (hf : ∀ a, S.Relates Q (f a) (f' (φ a))) :
    S.Relates Q (get >>= fun c => liftM (x c) >>= f) (get >>= fun d => liftM (x' d) >>= f') :=
  relates_read_bind (fun a b => b = φ a) x x' hx (fun a => ⟨φ a, rfl⟩) (by rintro a _ rfl; exact hf a)

/-- An operation that has the relabelled answer, used as an action. -/
theorem carries_lift {φ : α → β} {x : Except Breach α} {y : Except Breach β} (h : Agree φ x y) :
    S.Carries φ (liftM x) (liftM y) := by
  intro c a c' hrun
  obtain ⟨a', ha, rfl, rfl⟩ := yields_lift.mp (yields_of_run hrun)
  refine ⟨le_rfl, fun d b d' hrun' hM _ => ?_⟩
  obtain ⟨b', hb, rfl, rfl⟩ := yields_lift.mp (yields_of_run hrun')
  exact ⟨h _ _ ha hb, hM⟩

/-- A number that is read off the state on both sides, whichever. -/
theorem relates_measure {f : ℕ → Check γ} {f' : ℕ → Check δ} (x x' : Checker → ℕ)
    (hf : ∀ n n', S.Relates Q (f n) (f' n')) :
    S.Relates Q (get >>= fun c => f (x c)) (get >>= fun d => f' (x' d)) := by
  intro c y c' hrun
  obtain ⟨_, _, hget, hrun⟩ := exists_of_run_bind hrun
  cases hget
  refine ⟨(hf _ 0 _ y c' hrun).1, fun d z d' hrun' hM hlim => ?_⟩
  obtain ⟨_, _, hget, hrun'⟩ := exists_of_run_bind hrun'
  cases hget
  exact (hf _ _ _ y c' hrun).2 _ z d' hrun' hM hlim

/-- Conditions that hold on both sides or on neither. -/
theorem relates_cases {p p' : Prop} [Decidable p] [Decidable p'] {n : Check α} {n' : Check β} (hp : p' ↔ p)
    (h : p → S.Relates R m m') (hn : ¬ p → S.Relates R n n') :
    S.Relates R (if p then m else n) (if p' then m' else n') := by
  by_cases hcond : p
  · rw [if_pos hcond, if_pos (hp.mpr hcond)]
    exact h hcond
  · rw [if_neg hcond, if_neg (mt hp.mp hcond)]
    exact hn hcond

theorem relates_ite {p p' : Prop} [Decidable p] [Decidable p'] {n : Check α} {n' : Check β} (hp : p' ↔ p)
    (h : S.Relates R m m') (hn : S.Relates R n n') :
    S.Relates R (if p then m else n) (if p' then m' else n') :=
  relates_cases hp (fun _ => h) fun _ => hn

/-! ## Journal and diagnostics -/

theorem carries_log (e e' : Event) : S.Carries id (log e) (log e') := by
  intro c _ _ hrun
  obtain ⟨rfl, rfl⟩ := yields_log.mp (yields_of_run hrun)
  refine ⟨le_rfl, fun d _ _ hrun' hM _ => ?_⟩
  obtain ⟨rfl, rfl⟩ := yields_log.mp (yields_of_run hrun')
  exact ⟨rfl, { hM with }⟩

variable {f f' : Fault} {loc : Location}

theorem carries_report (h : f.Renamed ρ.toNames f') : S.Carries id (report f loc) (report f' loc) := by
  intro c _ _ hrun
  obtain ⟨rfl, rfl⟩ := yields_report.mp (yields_of_run hrun)
  refine ⟨le_rfl, fun d _ _ hrun' hM _ => ?_⟩
  obtain ⟨rfl, rfl⟩ := yields_report.mp (yields_of_run hrun')
  obtain ⟨posts, posts', hc, hd, hposts⟩ := hM.diagnostics
  refine ⟨rfl, { hM with diagnostics := ⟨posts ++ [⟨loc, f⟩], posts' ++ [⟨loc, f'⟩], ?_, ?_, ?_⟩ }⟩
  · simp [Checker.reported, Diagnostics.report, hc]
  · simp [Checker.reported, Diagnostics.report, hd]
  · exact List.rel_append hposts (.cons ⟨rfl, h⟩ .nil)

theorem carries_fail {φ : α → β} (h : f.Renamed ρ.toNames f') :
    S.Carries (Option.map φ) (fail f loc) (fail f' loc) :=
  (carries_report h).bind fun _ => carries_pure none

theorem carries_refuse (h : f.Renamed ρ.toNames f') : S.Carries id (refuse f loc) (refuse f' loc) :=
  (carries_report h).bind fun _ => carries_pure false

/-! ## Scopes -/

theorem carries_enterScopes : S.Carries id enterScopes enterScopes := by
  intro c _ _ hrun
  obtain ⟨rfl, rfl⟩ := yields_enterScopes.mp (yields_of_run hrun)
  refine ⟨le_rfl, fun d _ _ hrun' hM _ => ?_⟩
  obtain ⟨rfl, rfl⟩ := yields_enterScopes.mp (yields_of_run hrun')
  exact ⟨rfl, { hM with
    values_eq := congrArg Scopes.enter hM.values_eq
    typeNames_eq := congrArg Scopes.enter hM.typeNames_eq
    functionNames_eq := congrArg Scopes.enter hM.functionNames_eq }⟩

/-- A scope is closed on both sides. -/
theorem exit_eq {ι κ : Type} {s s₁ : Scopes ι} {t t₁ : Scopes κ} {n : String → String} {g : ι → κ}
    (h : t = s.relabel n g) (hs : s.exit = .ok s₁) (ht : t.exit = .ok t₁) : t₁ = s₁.relabel n g := by
  rw [h, Scopes.exit_relabel hs] at ht
  exact (Except.ok.inj ht).symm

theorem carries_exitScopes : S.Carries id exitScopes exitScopes := by
  intro c _ _ hrun
  obtain ⟨_, _, _, hf, hv, ht, rfl, rfl⟩ := yields_exitScopes.mp (yields_of_run hrun)
  refine ⟨le_rfl, fun d _ _ hrun' hM _ => ?_⟩
  obtain ⟨_, _, _, hf', hv', ht', rfl, rfl⟩ := yields_exitScopes.mp (yields_of_run hrun')
  exact ⟨rfl, { hM with
    values_eq := exit_eq hM.values_eq hv hv'
    typeNames_eq := exit_eq hM.typeNames_eq ht ht'
    functionNames_eq := exit_eq hM.functionNames_eq hf hf' }⟩

theorem carries_enterValues : S.Carries id enterValues enterValues := by
  intro c _ _ hrun
  obtain ⟨rfl, rfl⟩ := yields_enterValues.mp (yields_of_run hrun)
  refine ⟨le_rfl, fun d _ _ hrun' hM _ => ?_⟩
  obtain ⟨rfl, rfl⟩ := yields_enterValues.mp (yields_of_run hrun')
  exact ⟨rfl, { hM with values_eq := congrArg Scopes.enter hM.values_eq }⟩

theorem carries_exitValues : S.Carries id exitValues exitValues := by
  intro c _ _ hrun
  obtain ⟨_, hv, rfl, rfl⟩ := yields_exitValues.mp (yields_of_run hrun)
  refine ⟨le_rfl, fun d _ _ hrun' hM _ => ?_⟩
  obtain ⟨_, hv', rfl, rfl⟩ := yields_exitValues.mp (yields_of_run hrun')
  exact ⟨rfl, { hM with values_eq := exit_eq hM.values_eq hv hv' }⟩

theorem carries_bindValue (name : String) (v : VarId) :
    S.Carries id (bindValue name v) (bindValue (ρ.value name) (v.relabel ρ)) := by
  intro c _ _ hrun
  obtain ⟨rfl, rfl⟩ := yields_bindValue.mp (yields_of_run hrun)
  refine ⟨le_rfl, fun d _ _ hrun' hM _ => ?_⟩
  obtain ⟨rfl, rfl⟩ := yields_bindValue.mp (yields_of_run hrun')
  exact ⟨rfl, { hM with values_eq := by rw [hM.values_eq]; rfl }⟩

theorem carries_bindParams : ∀ (params : List TypedName) (vs : List VarId), S.Carries id (bindParams params vs)
    (bindParams (params.map (·.rename ρ.value ρ.typeName)) (vs.map (·.relabel ρ)))
  | p :: ps, v :: vs => (carries_bindValue p.name.name v).bind fun _ => carries_bindParams ps vs
  | [], _ => by
    rw [bindParams.eq_def, bindParams.eq_def]
    exact carries_pure ()
  | _ :: _, [] => by
    rw [bindParams.eq_def, bindParams.eq_def]
    exact carries_pure ()

end Stage

end TigerCheck
