import Mathlib.Data.List.TakeWhile
import TigerCheck.Proofs.Json.Spelling

/-!
# What the reader accepts

The reader finds exactly the value that a text spells.

* `Json.stringBody_eq_some`: strings.
* `Json.exists_of_number`, `Json.number_eq_some`: numbers. A number is read as far as it can go on.
* **`Json.spells_of_value`**: what is read is spelled. **`Json.Spells.read`**: what is spelled is read.
* **`Json.parse?_eq_some`**: whole texts.
-/

namespace TigerCheck

namespace Json

/-! ## Blanks -/

theorem blanks_skipBlanks (cs : List Char) : Blanks cs (skipBlanks cs) :=
  ⟨cs.takeWhile isBlank, List.takeWhile_append_dropWhile.symm, fun _ hc => List.mem_takeWhile_imp hc⟩

theorem blanks_of_skipBlanks {cs rest : List Char} (h : skipBlanks cs = rest) : Blanks cs rest :=
  h ▸ blanks_skipBlanks cs

theorem Blanks.skip {cs rest : List Char} {c : Char} (h : Blanks cs (c :: rest)) (hc : isBlank c = false) :
    skipBlanks cs = c :: rest := by
  obtain ⟨b, rfl, hb⟩ := h
  rw [skipBlanks, List.dropWhile_append_of_pos hb, List.dropWhile_cons_of_neg (by simp [hc])]

theorem isEmpty_skipBlanks (cs : List Char) : (skipBlanks cs).isEmpty ↔ ∀ c ∈ cs, isBlank c := by
  rw [List.isEmpty_iff, skipBlanks, List.dropWhile_eq_nil_iff]

/-! ## Strings -/

theorem quoted_of_stringBody (cs : List Char) : ∀ ps rest, stringBody cs = some (ps, rest) → Quoted ps cs rest := by
  fun_induction stringBody cs with
  | case1 => nofun
  | case2 rest =>
    rintro _ _ ⟨⟩
    exact .close rest
  | case3 a b c d rest ih =>
    intro ps rest' h
    simp only [Option.bind_eq_bind, Option.bind_eq_some_iff, Prod.exists, Option.pure_def, Option.some.injEq,
      Prod.mk.injEq] at h
    obtain ⟨n, hn, qs, _, hbody, rfl, rfl⟩ := h
    exact .unit hn (ih qs _ hbody)
  | case4 e rest _ ih =>
    intro ps rest' h
    simp only [Option.bind_eq_bind, Option.bind_eq_some_iff, Prod.exists, Option.pure_def, Option.some.injEq,
      Prod.mk.injEq] at h
    obtain ⟨c, hc, qs, _, hbody, rfl, rfl⟩ := h
    exact .escape hc (ih qs _ hbody)
  | case5 => nofun
  | case6 => nofun
  | case7 c rest hquote hslash hle ih =>
    intro ps rest' h
    simp only [Option.bind_eq_bind, Option.bind_eq_some_iff, Prod.exists, Option.pure_def, Option.some.injEq,
      Prod.mk.injEq] at h
    obtain ⟨qs, _, hbody, rfl, rfl⟩ := h
    exact .char hquote hslash (Nat.not_lt.mp hle) (ih qs _ hbody)

theorem Quoted.stringBody_eq {ps : List Piece} {cs rest : List Char} (h : Quoted ps cs rest) :
    stringBody cs = some (ps, rest) := by
  induction h with
  | close => rw [stringBody]
  | char hq hb hle _ ih =>
    rw [stringBody, if_neg (Nat.not_lt.mpr hle), ih]
    · rfl
    · exact hq
    · exact hb
  | escape he _ ih =>
    -- No escape is called `u`, which announces a number.
    rw [stringBody, he, ih]
    · rfl
    · rintro a b c d rest rfl -
      cases he
  | unit hn _ ih =>
    rw [stringBody, hn, ih]
    rfl

theorem stringBody_eq_some {ps : List Piece} {cs rest : List Char} :
    stringBody cs = some (ps, rest) ↔ Quoted ps cs rest :=
  ⟨quoted_of_stringBody cs ps rest, Quoted.stringBody_eq⟩

/-! ## Numbers -/

/-- A number cannot go on here. -/
def NumberEnds (rest : List Char) : Prop := ∀ c ∈ rest.head?, ¬isDigit c ∧ c ∉ ['.', 'e', 'E']

theorem isDigits_takeWhile {cs : List Char} (h : cs.takeWhile isDigit ≠ []) : IsDigits (cs.takeWhile isDigit) :=
  ⟨h, fun _ hc => List.mem_takeWhile_imp hc⟩

/-- Digits end where none follows. -/
theorem takeWhile_isDigit {ds rest : List Char} (hds : ∀ c ∈ ds, isDigit c) (hrest : ∀ c ∈ rest.head?, ¬isDigit c) :
    (ds ++ rest).takeWhile isDigit = ds ∧ (ds ++ rest).dropWhile isDigit = rest := by
  have hend : rest.takeWhile isDigit = [] ∧ rest.dropWhile isDigit = rest := by
    cases rest with
    | nil => exact ⟨rfl, rfl⟩
    | cons c rest =>
      have hc := hrest c rfl
      exact ⟨List.takeWhile_cons_of_neg hc, List.dropWhile_cons_of_neg hc⟩
  rw [List.takeWhile_append_of_pos hds, List.dropWhile_append_of_pos hds, hend.1, hend.2]
  exact ⟨List.append_nil _, rfl⟩

theorem isDigits_of_isWhole {ds : List Char} (h : isWhole ds) (hds : ∀ c ∈ ds, isDigit c) : IsDigits ds :=
  ⟨by rintro rfl; exact Bool.false_ne_true h, hds⟩

theorem fraction_eq {cs frac rest : List Char} (h : fraction cs = some (frac, rest)) :
    cs = frac ++ rest ∧ Fraction frac := by
  unfold fraction at h
  split at h
  · next tail =>
    dsimp only at h
    split_ifs at h with hempty
    cases h
    rw [List.isEmpty_iff] at hempty
    exact ⟨by rw [List.cons_append, List.takeWhile_append_dropWhile], .point (isDigits_takeWhile hempty)⟩
  · cases h
    exact ⟨rfl, .absent⟩

theorem Fraction.read {frac rest : List Char} (h : Fraction frac) (hrest : ∀ c ∈ rest.head?, ¬isDigit c ∧ c ≠ '.') :
    fraction (frac ++ rest) = some (frac, rest) := by
  cases h with
  | absent =>
    rw [List.nil_append, fraction]
    rintro tail rfl
    exact (hrest '.' rfl).2 rfl
  | point hds =>
    obtain ⟨htake, hdrop⟩ := takeWhile_isDigit hds.2 fun c hc => (hrest c hc).1
    rw [List.cons_append, fraction, htake, hdrop, if_neg (by simp [hds.1])]

theorem exponentSign_eq (cs : List Char) :
    cs = (exponentSign cs).1 ++ (exponentSign cs).2 ∧ (exponentSign cs).1 ∈ [[], ['+'], ['-']] := by
  unfold exponentSign
  split <;> simp

theorem exponent_eq {cs exp rest : List Char} (h : exponent cs = some (exp, rest)) :
    cs = exp ++ rest ∧ Exponent exp := by
  unfold exponent at h
  split at h
  · next e tail =>
    obtain ⟨htail, hsign⟩ := exponentSign_eq tail
    dsimp only at h
    split_ifs at h with he hempty
    · cases h
      rw [List.isEmpty_iff] at hempty
      refine ⟨?_, .letter he hsign (isDigits_takeWhile hempty)⟩
      rw [List.cons_append, List.cons_append, List.append_assoc, List.takeWhile_append_dropWhile, ← htail]
    · cases h
      exact ⟨rfl, .absent⟩
  · cases h
    exact ⟨rfl, .absent⟩

theorem exponentSign_append {sign ds rest : List Char} (hsign : sign ∈ [[], ['+'], ['-']]) (hds : IsDigits ds) :
    exponentSign (sign ++ (ds ++ rest)) = (sign, ds ++ rest) := by
  simp only [List.mem_cons, List.not_mem_nil, or_false] at hsign
  rcases hsign with rfl | rfl | rfl
  · obtain ⟨d, ds, rfl⟩ := List.exists_cons_of_ne_nil hds.1
    have hd := hds.2 d (by simp)
    rw [List.nil_append, List.cons_append, exponentSign]
    · rintro _ ⟨⟩
      cases hd
    · rintro _ ⟨⟩
      cases hd
  · rfl
  · rfl

theorem Exponent.read {exp rest : List Char} (h : Exponent exp) (hrest : NumberEnds rest) :
    exponent (exp ++ rest) = some (exp, rest) := by
  cases h with
  | absent =>
    rw [List.nil_append]
    cases rest with
    | nil => rfl
    | cons c rest =>
      have hc := (hrest c rfl).2
      simp only [List.mem_cons, List.not_mem_nil, or_false, not_or] at hc
      rw [exponent, if_neg (by simp [hc])]
  | @letter e sign ds he hsign hds =>
    obtain ⟨htake, hdrop⟩ := takeWhile_isDigit hds.2 fun c hc => (hrest c hc).1
    rw [List.cons_append, List.append_assoc, exponent, if_pos he, exponentSign_append hsign hds]
    dsimp only
    rw [htake, hdrop, if_neg (by simp [hds.1])]
    rfl

theorem exists_of_unsigned {negative : Bool} {cs rest : List Char} {j : Json}
    (h : unsigned negative cs = some (j, rest)) :
    ∃ whole frac exp, cs = whole ++ (frac ++ (exp ++ rest)) ∧ isWhole whole ∧ IsDigits whole ∧ Fraction frac ∧
      Exponent exp ∧ j = numberOf negative whole frac exp := by
  unfold unsigned at h
  dsimp only at h
  split_ifs at h with hwhole
  simp only [Option.bind_eq_bind, Option.bind_eq_some_iff, Prod.exists, Option.pure_def, Option.some.injEq,
    Prod.mk.injEq] at h
  obtain ⟨frac, rest₁, hfrac, exp, _, hexp, rfl, rfl⟩ := h
  obtain ⟨hcs, hfraction⟩ := fraction_eq hfrac
  obtain ⟨rfl, hexponent⟩ := exponent_eq hexp
  exact ⟨_, frac, exp, by rw [← hcs, List.takeWhile_append_dropWhile], hwhole,
    isDigits_of_isWhole hwhole fun _ hc => List.mem_takeWhile_imp hc, hfraction, hexponent, rfl⟩

/-- What follows the digits of a number, a fraction or an exponent, is no digit. -/
theorem not_isDigit_exponent {exp rest : List Char} (h : Exponent exp) (hrest : NumberEnds rest) :
    ∀ c ∈ (exp ++ rest).head?, ¬isDigit c ∧ c ≠ '.' := by
  cases h with
  | absent =>
    intro c hc
    obtain ⟨hdigit, hmem⟩ := hrest c hc
    exact ⟨hdigit, by rintro rfl; exact hmem (by simp)⟩
  | letter he =>
    rintro c ⟨⟩
    rcases he with rfl | rfl <;> decide

theorem not_isDigit_fraction {frac rest : List Char} (h : Fraction frac)
    (hrest : ∀ c ∈ rest.head?, ¬isDigit c ∧ c ≠ '.') : ∀ c ∈ (frac ++ rest).head?, ¬isDigit c := by
  cases h with
  | absent => exact fun c hc => (hrest c hc).1
  | point =>
    rintro c ⟨⟩
    decide

theorem unsigned_eq_some (negative : Bool) {whole frac exp rest : List Char} (hwhole : isWhole whole)
    (hds : IsDigits whole) (hfrac : Fraction frac) (hexp : Exponent exp) (hrest : NumberEnds rest) :
    unsigned negative (whole ++ (frac ++ (exp ++ rest))) = some (numberOf negative whole frac exp, rest) := by
  have hend := not_isDigit_exponent hexp hrest
  obtain ⟨htake, hdrop⟩ := takeWhile_isDigit hds.2 (not_isDigit_fraction hfrac hend)
  unfold unsigned
  dsimp only
  rw [htake, hdrop, if_pos hwhole, hfrac.read hend]
  simp only [Option.bind_eq_bind, Option.bind_some, hexp.read hrest]
  rfl

/-- What is read as a number is one. -/
theorem exists_of_number {cs rest : List Char} {j : Json} (h : number cs = some (j, rest)) :
    ∃ negative whole frac exp, cs = signOf negative ++ (whole ++ (frac ++ (exp ++ rest))) ∧ isWhole whole ∧
      IsDigits whole ∧ Fraction frac ∧ Exponent exp ∧ j = numberOf negative whole frac exp := by
  unfold number at h
  split at h
  · next tail =>
    obtain ⟨whole, frac, exp, rfl, hnumber⟩ := exists_of_unsigned h
    exact ⟨true, whole, frac, exp, rfl, hnumber⟩
  · exact ⟨false, exists_of_unsigned h⟩

theorem number_eq_some {negative : Bool} {whole frac exp rest : List Char} (hwhole : isWhole whole)
    (hds : IsDigits whole) (hfrac : Fraction frac) (hexp : Exponent exp) (hrest : NumberEnds rest) :
    number (signOf negative ++ (whole ++ (frac ++ (exp ++ rest)))) =
      some (numberOf negative whole frac exp, rest) := by
  have hunsigned := unsigned_eq_some negative hwhole hds hfrac hexp hrest
  cases negative with
  | true => exact hunsigned
  | false =>
    obtain ⟨d, ds, rfl⟩ := List.exists_cons_of_ne_nil hds.1
    have hd := hds.2 d (by simp)
    rw [signOf, if_neg (by simp), List.nil_append, number, hunsigned]
    rintro _ ⟨⟩
    cases hd

/-! ## Values -/

attribute [local simp] value elements members

/-- What one step of the reader finds is spelled. -/
structure Sound (steps : ℕ) : Prop where
  value : ∀ {cs rest v}, Json.value steps cs = some (v, rest) → Spells (.value v) cs rest
  elements : ∀ {cs rest vs}, Json.elements steps cs = some (vs, rest) → Spells (.items vs) cs rest
  members : ∀ {cs rest ms}, Json.members steps cs = some (ms, rest) → Spells (.members ms) cs rest

theorem Sound.value_succ {steps : ℕ} (ih : Sound steps) {cs rest : List Char} {v : Json}
    (h : Json.value (steps + 1) cs = some (v, rest)) : Spells (.value v) cs rest := by
  rw [Json.value] at h
  split at h
  · next tail hskip =>
    have hb := blanks_of_skipBlanks hskip
    split at h
    · next hskip' =>
      cases h
      exact .emptyObject hb (blanks_of_skipBlanks hskip')
    · simp only [Option.map_eq_map, Option.map_eq_some_iff, Prod.exists, Prod.mk.injEq] at h
      obtain ⟨ms, _, hms, rfl, rfl⟩ := h
      exact .object hb (ih.members hms)
  · next tail hskip =>
    have hb := blanks_of_skipBlanks hskip
    split at h
    · next hskip' =>
      cases h
      exact .emptyList hb (blanks_of_skipBlanks hskip')
    · simp only [Option.map_eq_map, Option.map_eq_some_iff, Prod.exists, Prod.mk.injEq] at h
      obtain ⟨vs, _, hvs, rfl, rfl⟩ := h
      exact .list hb (ih.elements hvs)
  · next tail hskip =>
    simp only [Option.map_eq_map, Option.map_eq_some_iff, Prod.exists, Prod.mk.injEq] at h
    obtain ⟨ps, _, hps, rfl, rfl⟩ := h
    exact .string (blanks_of_skipBlanks hskip) (stringBody_eq_some.mp hps)
  · next hskip =>
    cases h
    exact .true (blanks_of_skipBlanks hskip)
  · next hskip =>
    cases h
    exact .false (blanks_of_skipBlanks hskip)
  · next hskip =>
    cases h
    exact .null (blanks_of_skipBlanks hskip)
  · obtain ⟨negative, whole, frac, exp, hcs, hwhole, hds, hfrac, hexp, rfl⟩ := exists_of_number h
    exact .number (blanks_of_skipBlanks hcs) hwhole hds hfrac hexp

theorem Sound.elements_succ {steps : ℕ} (ih : Sound steps) {cs rest : List Char} {vs : List Json}
    (h : Json.elements (steps + 1) cs = some (vs, rest)) : Spells (.items vs) cs rest := by
  simp only [Json.elements, Option.bind_eq_bind, Option.bind_eq_some_iff, Prod.exists] at h
  obtain ⟨v, cs₁, hv, h⟩ := h
  split at h
  · next hskip =>
    simp only [Option.bind_eq_some_iff, Prod.exists, Option.pure_def, Option.some.injEq, Prod.mk.injEq] at h
    obtain ⟨vs, _, hvs, rfl, rfl⟩ := h
    exact .item (ih.value hv) (blanks_of_skipBlanks hskip) (ih.elements hvs)
  · next hskip =>
    cases h
    exact .lastItem (ih.value hv) (blanks_of_skipBlanks hskip)
  · cases h

theorem Sound.members_succ {steps : ℕ} (ih : Sound steps) {cs rest : List Char} {ms : List (List Piece × Json)}
    (h : Json.members (steps + 1) cs = some (ms, rest)) : Spells (.members ms) cs rest := by
  rw [Json.members] at h
  split at h
  · next hquote =>
    simp only [Option.bind_eq_bind, Option.bind_eq_some_iff, Prod.exists] at h
    obtain ⟨k, cs₂, hk, h⟩ := h
    rw [stringBody_eq_some] at hk
    split at h
    · next hcolon =>
      simp only [Option.bind_eq_some_iff, Prod.exists] at h
      obtain ⟨v, cs₄, hv, h⟩ := h
      split at h
      · next hcomma =>
        simp only [Option.bind_eq_some_iff, Prod.exists, Option.pure_def, Option.some.injEq, Prod.mk.injEq] at h
        obtain ⟨ms, _, hms, rfl, rfl⟩ := h
        exact .member (blanks_of_skipBlanks hquote) hk (blanks_of_skipBlanks hcolon) (ih.value hv)
          (blanks_of_skipBlanks hcomma) (ih.members hms)
      · next hbrace =>
        cases h
        exact .lastMember (blanks_of_skipBlanks hquote) hk (blanks_of_skipBlanks hcolon) (ih.value hv)
          (blanks_of_skipBlanks hbrace)
      · cases h
    · cases h
  · cases h

theorem sound (steps : ℕ) : Sound steps := by
  induction steps with
  | zero => exact ⟨nofun, nofun, nofun⟩
  | succ steps ih => exact ⟨ih.value_succ, ih.elements_succ, ih.members_succ⟩

/-- The reader finds what the text begins with, in a number of steps that depends on the length of the text. -/
def Phrase.Read (cs rest : List Char) : Phrase → Prop
  | .value j => NumberEnds rest → ∀ steps, 2 * cs.length ≤ steps → Json.value steps cs = some (j, rest)
  | .items vs => ∀ steps, 2 * cs.length + 1 ≤ steps → Json.elements steps cs = some (vs, rest)
  | .members ms => ∀ steps, 2 * cs.length ≤ steps → Json.members steps cs = some (ms, rest)

theorem value_of_close {cs rest : List Char} (h : skipBlanks cs = ']' :: rest) (steps : ℕ) :
    value steps cs = none := by
  cases steps with
  | zero => rfl
  | succ steps =>
    rw [value, h]
    rfl

theorem elements_of_close {cs rest : List Char} (h : skipBlanks cs = ']' :: rest) (steps : ℕ) :
    elements steps cs = none := by
  cases steps with
  | zero => rfl
  | succ steps =>
    rw [elements, value_of_close h]
    rfl

theorem members_of_close {cs rest : List Char} (h : skipBlanks cs = '}' :: rest) (steps : ℕ) :
    members steps cs = none := by
  cases steps with
  | zero => rfl
  | succ steps =>
    rw [members, h]
    rfl

/-- A number ends before blanks and before the signs that stand behind a value. -/
theorem Blanks.numberEnds {cs rest : List Char} {c : Char} (h : Blanks cs (c :: rest)) (hc : c ∈ [',', ']', '}']) :
    NumberEnds cs := by
  obtain ⟨b, rfl, hb⟩ := h
  cases b with
  | nil =>
    rintro _ ⟨⟩
    simp only [List.mem_cons, List.not_mem_nil, or_false] at hc
    rcases hc with rfl | rfl | rfl <;> decide
  | cons d b =>
    rintro _ ⟨⟩
    have hblank := hb d (by simp)
    simp only [isBlank, Bool.or_eq_true, beq_iff_eq] at hblank
    rcases hblank with ((rfl | rfl) | rfl) | rfl <;> decide

theorem numberEnds_of_blank {cs : List Char} (h : ∀ c ∈ cs, isBlank c) : NumberEnds cs := by
  intro c hc
  have hblank := h c (List.mem_of_mem_head? hc)
  simp only [isBlank, Bool.or_eq_true, beq_iff_eq] at hblank
  rcases hblank with ((rfl | rfl) | rfl) | rfl <;> decide

/-- A text that begins with a sign or a digit is read as a number. -/
theorem value_eq_number {cs rest : List Char} {c : Char} (h : skipBlanks cs = c :: rest) (hc : c = '-' ∨ isDigit c)
    (steps : ℕ) : value (steps + 1) cs = number (c :: rest) := by
  rw [value, h]
  split <;> first | rfl | simp_all [isDigit]

theorem exists_head_number (negative : Bool) {whole : List Char} (h : IsDigits whole) (rest : List Char) :
    ∃ c tail, signOf negative ++ (whole ++ rest) = c :: tail ∧ (c = '-' ∨ isDigit c) := by
  obtain ⟨d, ds, rfl⟩ := List.exists_cons_of_ne_nil h.1
  cases negative with
  | true => exact ⟨'-', d :: (ds ++ rest), rfl, .inl rfl⟩
  | false => exact ⟨d, ds ++ rest, rfl, .inr (h.2 d (by simp))⟩

theorem not_isBlank_of_digit {c : Char} (h : c = '-' ∨ isDigit c) : isBlank c = false := by
  rcases h with rfl | h
  · rfl
  · by_contra hblank
    rw [Bool.not_eq_false, isBlank] at hblank
    simp only [Bool.or_eq_true, beq_iff_eq] at hblank
    rcases hblank with ((rfl | rfl) | rfl) | rfl <;> cases h

theorem exists_step {n steps : ℕ} (h : n + 1 ≤ steps) : ∃ s, steps = s + 1 ∧ n ≤ s :=
  ⟨steps - 1, by omega, by omega⟩

theorem value_list {cs cs₁ rest : List Char} {vs : List Json} {steps : ℕ} (h : skipBlanks cs = '[' :: cs₁)
    (hvs : elements steps cs₁ = some (vs, rest)) : value (steps + 1) cs = some (arr vs, rest) := by
  have hopen : ∀ tail, skipBlanks cs₁ ≠ ']' :: tail := fun tail hclose => by
    rw [elements_of_close hclose] at hvs
    cases hvs
  simp [value, h, hvs]

theorem value_object {cs cs₁ rest : List Char} {ms : List (List Piece × Json)} {steps : ℕ}
    (h : skipBlanks cs = '{' :: cs₁) (hms : members steps cs₁ = some (ms, rest)) :
    value (steps + 1) cs = some (object ms, rest) := by
  have hopen : ∀ tail, skipBlanks cs₁ ≠ '}' :: tail := fun tail hclose => by
    rw [members_of_close hclose] at hms
    cases hms
  simp [value, h, hms]

/-- **What is spelled is read.** -/
theorem Spells.read {p : Phrase} {cs rest : List Char} (h : Spells p cs rest) : p.Read cs rest := by
  induction h with
  | null hb | true hb | false hb =>
    intro _ steps hsteps
    have hle := hb.length_le
    simp only [List.length_cons] at hle
    obtain ⟨s, rfl, -⟩ := exists_step (n := 0) (by omega : 1 ≤ steps)
    simp [value, hb.skip rfl]
  | @number cs whole frac exp rest negative hb hwhole hds hfrac hexp =>
    intro hrest steps hsteps
    obtain ⟨c, tail, hcs, hc⟩ := exists_head_number negative hds (frac ++ (exp ++ rest))
    rw [hcs] at hb
    have hle := hb.length_le
    simp only [List.length_cons] at hle
    obtain ⟨s, rfl, -⟩ := exists_step (n := 0) (by omega : 1 ≤ steps)
    rw [value_eq_number (hb.skip (not_isBlank_of_digit hc)) hc, ← hcs, number_eq_some hwhole hds hfrac hexp hrest]
  | string hb hq =>
    intro _ steps hsteps
    have hle := hb.length_le
    simp only [List.length_cons] at hle
    obtain ⟨s, rfl, -⟩ := exists_step (n := 0) (by omega : 1 ≤ steps)
    simp [value, hb.skip rfl, hq.stringBody_eq]
  | emptyList hb hb' | emptyObject hb hb' =>
    intro _ steps hsteps
    have hle := hb.length_le
    simp only [List.length_cons] at hle
    obtain ⟨s, rfl, -⟩ := exists_step (n := 0) (by omega : 1 ≤ steps)
    simp [value, hb.skip rfl, hb'.skip rfl]
  | @list cs cs₁ rest vs hb _ ih =>
    intro _ steps hsteps
    have hle := hb.length_le
    simp only [List.length_cons] at hle
    obtain ⟨s, rfl, hs⟩ := exists_step (n := 2 * cs₁.length + 1) (by omega : _ ≤ steps)
    exact value_list (hb.skip rfl) (ih s hs)
  | @object cs cs₁ rest ms hb _ ih =>
    intro _ steps hsteps
    have hle := hb.length_le
    simp only [List.length_cons] at hle
    obtain ⟨s, rfl, hs⟩ := exists_step (n := 2 * cs₁.length) (by omega : _ ≤ steps)
    exact value_object (hb.skip rfl) (ih s hs)
  | lastItem _ hb ih =>
    intro steps hsteps
    obtain ⟨s, rfl, hs⟩ := exists_step hsteps
    simp [elements, ih (hb.numberEnds (by simp)) s hs, hb.skip rfl]
  | item hv hb _ ih ih' =>
    intro steps hsteps
    have hle := hb.length_le
    have hlt := hv.length_lt
    simp only [List.length_cons] at hle
    obtain ⟨s, rfl, hs⟩ := exists_step hsteps
    simp [elements, ih (hb.numberEnds (by simp)) s hs, hb.skip rfl, ih' s (by omega)]
  | lastMember hb hq hc _ hb' ih =>
    intro steps hsteps
    have hle := hb.length_le
    have hlt := hq.length_lt
    have hle' := hc.length_le
    simp only [List.length_cons] at hle hle'
    obtain ⟨s, rfl, -⟩ := exists_step (n := 0) (by omega : 1 ≤ steps)
    have hvalue := ih (hb'.numberEnds (by simp)) s (by omega)
    simp [members, hb.skip rfl, hq.stringBody_eq, hc.skip rfl, hvalue, hb'.skip rfl]
  | member hb hq hc hv hb' _ ih ih' =>
    intro steps hsteps
    have hle := hb.length_le
    have hlt := hq.length_lt
    have hle' := hc.length_le
    have hlt' := hv.length_lt
    have hle'' := hb'.length_le
    simp only [List.length_cons] at hle hle' hle''
    obtain ⟨s, rfl, -⟩ := exists_step (n := 0) (by omega : 1 ≤ steps)
    have hvalue := ih (hb'.numberEnds (by simp)) s (by omega)
    simp [members, hb.skip rfl, hq.stringBody_eq, hc.skip rfl, hvalue, hb'.skip rfl, ih' s (by omega)]

/-- **The reader finds a value in a text exactly if the text spells the value.** -/
theorem parse?_eq_some {text : String} {j : Json} : parse? text = some j ↔ Spelled j text := by
  unfold parse?
  dsimp only
  constructor
  · intro h
    split at h
    · next v rest hv =>
      split_ifs at h with hrest
      cases h
      exact ⟨rest, (sound _).value hv, (isEmpty_skipBlanks rest).mp hrest⟩
    · cases h
  · rintro ⟨rest, hspells, hrest⟩
    rw [hspells.read (numberEnds_of_blank hrest) _ (Nat.le_add_right _ 2)]
    dsimp only
    rw [if_pos ((isEmpty_skipBlanks rest).mpr hrest)]

end Json

end TigerCheck
