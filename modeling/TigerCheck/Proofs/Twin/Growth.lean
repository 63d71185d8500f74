import TigerCheck.Proofs.Twin.Types
import TigerCheck.Proofs.Walk.Sound

/-!
# Two runs side by side

Two actions are run in two states. What is said of them together is said of their ends, where both have
one. Most often the two runs add the same to their states: the same reports, and equal numbers of records,
arrays, slots, functions and frames. Where functions were declared in another order the reports come in
another order too.

* `Check.Both`: what holds of the ends of two runs. **`Check.Both.bind`**: one action after another.
* `Gain`, `Checker.Gains`: what a run adds to a state. `Gain.Alike`: the same, up to the order of reports.
* `Grows`: two runs that add alike, with a pairing that stays faithful. **`Grows.trans`**.
* `Echo`: two runs that only report, and the same.
-/

namespace TigerCheck

open Check

/-! ## Two runs -/

namespace Check

variable {α α' β β' : Type} {c d : Checker} {m : Check α} {m' : Check α'}

/-- Where two actions end, something holds of their ends. -/
def Both (m : Check α) (m' : Check α') (c d : Checker) (Q : α → α' → Checker → Checker → Prop) : Prop :=
  ∀ a c' a' d', m.run c = .ok (a, c') → m'.run d = .ok (a', d') → Q a a' c' d'

theorem Both.mono {Q R : α → α' → Checker → Checker → Prop} (h : Both m m' c d Q)
    (hQR : ∀ a a' c' d', Q a a' c' d' → R a a' c' d') : Both m m' c d R :=
  fun a c' a' d' hm hm' => hQR a a' c' d' (h a c' a' d' hm hm')

theorem both_pure {a : α} {a' : α'} {Q : α → α' → Checker → Checker → Prop} (h : Q a a' c d) :
    Both (pure a) (pure a') c d Q := by
  rintro _ _ _ _ hm hm'
  cases hm
  cases hm'
  exact h

/-- **Both runs go through the ends of their first parts.** -/
theorem Both.bind {f : α → Check β} {f' : α' → Check β'} {R : α → α' → Checker → Checker → Prop}
    {Q : β → β' → Checker → Checker → Prop} (h : Both m m' c d R)
    (hf : ∀ a a' c₁ d₁, R a a' c₁ d₁ → Both (f a) (f' a') c₁ d₁ Q) :
    Both (m >>= f) (m' >>= f') c d Q := by
  intro b c' b' d' hm hm'
  obtain ⟨a, c₁, h₁, h₂⟩ := exists_of_run_bind hm
  obtain ⟨a', d₁, h₁', h₂'⟩ := exists_of_run_bind hm'
  exact hf a a' c₁ d₁ (h a c₁ a' d₁ h₁ h₁') b c' b' d' h₂ h₂'

/-- What is known of each of two ends holds of both. -/
theorem Yields.both {P : α → Checker → Prop} {P' : α' → Checker → Prop}
    {Q : α → α' → Checker → Checker → Prop} (h : Yields m c P) (h' : Yields m' d P')
    (hQ : ∀ a a' c' d', P a c' → P' a' d' → Q a a' c' d') : Both m m' c d Q :=
  fun a c' a' d' hm hm' => hQ a a' c' d' (h.of_run hm) (h'.of_run hm')

theorem both_get {Q : Checker → Checker → Checker → Checker → Prop} (h : Q c d c d) :
    Both get get c d Q := both_pure h

theorem both_throw {e : Breach} {Q : α → α' → Checker → Checker → Prop} : Both (throw e) m' c d Q := by
  intro a c' a' d' hm
  cases hm

theorem both_log {e e' : Event} {Q : Unit → Unit → Checker → Checker → Prop}
    (h : Q () () (c.note e) (d.note e')) : Both (log e) (log e') c d Q :=
  Yields.both (yields_log.mpr rfl : Yields _ c fun _ c' => c' = c.note e)
    (yields_log.mpr rfl : Yields _ d fun _ d' => d' = d.note e')
    (by rintro _ _ _ _ rfl rfl; exact h)

theorem both_report {fault : Fault} {loc : Location} {Q : Unit → Unit → Checker → Checker → Prop}
    (h : Q () () (c.reported fault loc) (d.reported fault loc)) :
    Both (report fault loc) (report fault loc) c d Q :=
  Yields.both (yields_report.mpr rfl : Yields _ c fun _ c' => c' = c.reported fault loc)
    (yields_report.mpr rfl : Yields _ d fun _ d' => d' = d.reported fault loc)
    (by rintro _ _ _ _ rfl rfl; exact h)

theorem both_fail {fault : Fault} {loc : Location} {Q : Option α → Option α' → Checker → Checker → Prop}
    (h : Q none none (c.reported fault loc) (d.reported fault loc)) :
    Both (fail fault loc) (fail fault loc) c d Q := by
  unfold fail
  exact (both_report (Q := fun _ _ c' d' => Q none none c' d') h).bind fun _ _ _ _ h => both_pure h

theorem both_refuse {fault : Fault} {loc : Location} {Q : Bool → Bool → Checker → Checker → Prop}
    (h : Q false false (c.reported fault loc) (d.reported fault loc)) :
    Both (refuse fault loc) (refuse fault loc) c d Q := by
  unfold refuse
  exact (both_report (Q := fun _ _ c' d' => Q false false c' d') h).bind fun _ _ _ _ h => both_pure h

/-- Conditions that hold on both sides or on neither. -/
theorem both_ite {p p' : Prop} [Decidable p] [Decidable p'] {n : Check α} {n' : Check α'}
    {Q : α → α' → Checker → Checker → Prop} (hp : p ↔ p') (h : p → p' → Both m m' c d Q)
    (hn : ¬ p → ¬ p' → Both n n' c d Q) :
    Both (if p then m else n) (if p' then m' else n') c d Q := by
  by_cases hcond : p
  · rw [if_pos hcond, if_pos (hp.mp hcond)]
    exact h hcond (hp.mp hcond)
  · rw [if_neg hcond, if_neg (mt hp.mpr hcond)]
    exact hn hcond (mt hp.mpr hcond)

end Check

/-! ## What a run adds -/

/-- What a run adds to a state: reports, and entries of the tables. -/
structure Gain where
  reports : List Diagnostic := []
  records : ℕ := 0
  arrays : ℕ := 0
  vars : ℕ := 0
  functions : ℕ := 0
  frames : ℕ := 0

namespace Gain

/-- The gain of one run after another. -/
def seq (g h : Gain) : Gain :=
  ⟨g.reports ++ h.reports, g.records + h.records, g.arrays + h.arrays, g.vars + h.vars,
    g.functions + h.functions, g.frames + h.frames⟩

/-- The gain of runs one after another. -/
def seqAll : List Gain → Gain
  | [] => {}
  | g :: gs => g.seq (seqAll gs)

/-- The same gain, but the reports may come in another order if that is left free. -/
structure Alike (free : Prop) (g h : Gain) : Prop where
  perm : g.reports.Perm h.reports
  reports_eq : ¬ free → g.reports = h.reports
  records_eq : g.records = h.records
  arrays_eq : g.arrays = h.arrays
  vars_eq : g.vars = h.vars
  functions_eq : g.functions = h.functions
  frames_eq : g.frames = h.frames

variable {free : Prop} {g g' h h' : Gain}

theorem Alike.refl (free : Prop) (g : Gain) : g.Alike free g :=
  ⟨.refl _, fun _ => rfl, rfl, rfl, rfl, rfl, rfl⟩

theorem Alike.trans {k : Gain} (h₁ : g.Alike free h) (h₂ : h.Alike free k) : g.Alike free k where
  perm := h₁.perm.trans h₂.perm
  reports_eq hf := (h₁.reports_eq hf).trans (h₂.reports_eq hf)
  records_eq := h₁.records_eq.trans h₂.records_eq
  arrays_eq := h₁.arrays_eq.trans h₂.arrays_eq
  vars_eq := h₁.vars_eq.trans h₂.vars_eq
  functions_eq := h₁.functions_eq.trans h₂.functions_eq
  frames_eq := h₁.frames_eq.trans h₂.frames_eq

theorem Alike.seq (h₁ : g.Alike free h) (h₂ : g'.Alike free h') :
    (g.seq g').Alike free (h.seq h') where
  perm := h₁.perm.append h₂.perm
  reports_eq hf := congrArg₂ (· ++ ·) (h₁.reports_eq hf) (h₂.reports_eq hf)
  records_eq := congrArg₂ (· + ·) h₁.records_eq h₂.records_eq
  arrays_eq := congrArg₂ (· + ·) h₁.arrays_eq h₂.arrays_eq
  vars_eq := congrArg₂ (· + ·) h₁.vars_eq h₂.vars_eq
  functions_eq := congrArg₂ (· + ·) h₁.functions_eq h₂.functions_eq
  frames_eq := congrArg₂ (· + ·) h₁.frames_eq h₂.frames_eq

/-- Where the order of reports is free, runs may come in another order. -/
theorem alike_swap (hf : free) (g h k : Gain) : (g.seq (h.seq k)).Alike free (h.seq (g.seq k)) where
  perm := by
    change (g.reports ++ (h.reports ++ k.reports)).Perm (h.reports ++ (g.reports ++ k.reports))
    rw [← List.append_assoc, ← List.append_assoc]
    exact List.perm_append_comm.append_right _
  reports_eq hn := absurd hf hn
  records_eq := Nat.add_left_comm ..
  arrays_eq := Nat.add_left_comm ..
  vars_eq := Nat.add_left_comm ..
  functions_eq := Nat.add_left_comm ..
  frames_eq := Nat.add_left_comm ..

theorem alike_seqAll_of_perm (hf : free) {gs hs : List Gain} (h : gs.Perm hs) :
    (seqAll gs).Alike free (seqAll hs) := by
  induction h with
  | nil => exact .refl free _
  | cons g _ ih => exact (Alike.refl free g).seq ih
  | swap g h gs => exact alike_swap hf h g (seqAll gs)
  | trans _ _ ih₁ ih₂ => exact ih₁.trans ih₂

theorem alike_seqAll {gs hs : List Gain} (h : List.Forall₂ (Alike free) gs hs) :
    (seqAll gs).Alike free (seqAll hs) := by
  induction h with
  | nil => exact .refl free _
  | cons hg _ ih => exact hg.seq ih

end Gain

/-- The second state has what the first one has, and a gain. -/
structure Checker.Gains (c : Checker) (g : Gain) (c' : Checker) : Prop where
  reports : c'.diagnostics.entries.toList = c.diagnostics.entries.toList ++ g.reports
  records : c'.types.records.size = c.types.records.size + g.records
  arrays : c'.types.arrays.size = c.types.arrays.size + g.arrays
  vars : c'.frames.vars.size = c.frames.vars.size + g.vars
  functions : c'.frames.functions.size = c.frames.functions.size + g.functions
  frames : c'.frames.frames.size = c.frames.frames.size + g.frames

namespace Checker

variable {c c₁ c' : Checker} {g h : Gain}

/-- Nothing is gained where no table changes and nothing is reported. -/
theorem Gains.none (htypes : c'.types = c.types) (hframes : c'.frames = c.frames)
    (hdiag : c'.diagnostics = c.diagnostics) : c.Gains {} c' := by
  refine ⟨?_, ?_, ?_, ?_, ?_, ?_⟩ <;> simp [htypes, hframes, hdiag]

theorem Gains.refl (c : Checker) : c.Gains {} c := .none rfl rfl rfl

theorem Gains.seq (h₁ : c.Gains g c₁) (h₂ : c₁.Gains h c') : c.Gains (g.seq h) c' where
  reports := by rw [h₂.reports, h₁.reports, List.append_assoc]; rfl
  records := by rw [h₂.records, h₁.records, Nat.add_assoc]; rfl
  arrays := by rw [h₂.arrays, h₁.arrays, Nat.add_assoc]; rfl
  vars := by rw [h₂.vars, h₁.vars, Nat.add_assoc]; rfl
  functions := by rw [h₂.functions, h₁.functions, Nat.add_assoc]; rfl
  frames := by rw [h₂.frames, h₁.frames, Nat.add_assoc]; rfl

theorem gains_reported (c : Checker) (fault : Fault) (loc : Location) :
    c.Gains ⟨[⟨loc, fault⟩], 0, 0, 0, 0, 0⟩ (c.reported fault loc) :=
  ⟨by simp [reported, note, Diagnostics.report], rfl, rfl, rfl, rfl, rfl⟩

end Checker

/-! ## Growing alike -/

/-- Two runs add alike to their states, and the types of the later states are paired faithfully: the old
ones as before, and of the new ones only such as were created at the same place on both sides. -/
structure Grows (free : Prop) (ρ : Pairing) (c d : Checker) (ρ' : Pairing) (c' d' : Checker) : Prop where
  gains : ∃ g h, c.Gains g c' ∧ d.Gains h d' ∧ g.Alike free h
  mirrors : c'.types.Mirrors ρ' d'.types
  le : ∀ s t, ρ s t → ρ' s t
  shifted : ∀ s t, ρ' s t → c.types.Shifted ρ d.types s t

namespace Grows

variable {free : Prop} {ρ ρ₁ ρ' : Pairing} {c d c₁ d₁ c' d' : Checker} {s t : Ty}

/-- The same gain on both sides, and no new types that stand for each other. -/
theorem same {g : Gain} (hm : c'.types.Mirrors ρ d'.types) (hc : c.Gains g c') (hd : d.Gains g d') :
    Grows free ρ c d ρ c' d' := ⟨⟨g, g, hc, hd, .refl free g⟩, hm, fun _ _ h => h, fun _ _ => .old⟩

/-- What is numbered alike from the middle of two runs on is so from their beginning on. -/
theorem shift (h : Grows free ρ c d ρ₁ c₁ d₁) (hst : c₁.types.Shifted ρ₁ d₁.types s t) :
    c.types.Shifted ρ d.types s t := by
  obtain ⟨g, k, hg, hk, halike⟩ := h.gains
  have hrecords := hk.records
  have harrays := hk.arrays
  rw [← halike.records_eq] at hrecords
  rw [← halike.arrays_eq] at harrays
  exact .trans hg.records hrecords hg.arrays harrays h.shifted hst

/-- **One pair of runs after another.** -/
theorem trans (h : Grows free ρ c d ρ₁ c₁ d₁) (h' : Grows free ρ₁ c₁ d₁ ρ' c' d') :
    Grows free ρ c d ρ' c' d' where
  gains := by
    obtain ⟨g₁, k₁, hg₁, hk₁, h₁⟩ := h.gains
    obtain ⟨g₂, k₂, hg₂, hk₂, h₂⟩ := h'.gains
    exact ⟨_, _, hg₁.seq hg₂, hk₁.seq hk₂, h₁.seq h₂⟩
  mirrors := h'.mirrors
  le s t hst := h'.le s t (h.le s t hst)
  shifted s t hst := h.shift (h'.shifted s t hst)

end Grows

/-! ## Reports on both sides -/

/-- Two runs that report the same and do nothing else. -/
inductive Echo (c d : Checker) : Checker → Checker → Prop where
  | quiet : Echo c d c d
  | report {c' d' : Checker} (fault : Fault) (loc : Location) : Echo c d c' d' →
      Echo c d (c'.reported fault loc) (d'.reported fault loc)

namespace Echo

variable {free : Prop} {ρ : Pairing} {c d c₁ d₁ c' d' : Checker}

theorem trans (h : Echo c d c₁ d₁) (h' : Echo c₁ d₁ c' d') : Echo c d c' d' := by
  induction h' with
  | quiet => exact h
  | report fault loc _ ih => exact .report fault loc ih

theorem left (h : Echo c d c' d') : c.Says c' := by
  induction h with
  | quiet => exact .quiet
  | report fault loc _ ih => exact .report fault loc ih

theorem right (h : Echo c d c' d') : d.Says d' := by
  induction h with
  | quiet => exact .quiet
  | report fault loc _ ih => exact .report fault loc ih

theorem grows (h : Echo c d c' d') (hm : c.types.Mirrors ρ d.types) : Grows free ρ c d ρ c' d' := by
  induction h with
  | quiet => exact .same hm (.refl c) (.refl d)
  | report fault loc _ ih =>
    exact ih.trans (.same ih.mirrors (Checker.gains_reported _ fault loc) (Checker.gains_reported _ fault loc))

end Echo

/-- Two rules report the same, and their answers stand for each other. -/
def Echoes {α β : Type} (c d : Checker) (R : α → β → Prop) (a : α) (b : β) (c' d' : Checker) : Prop :=
  Echo c d c' d' ∧ R a b

end TigerCheck
