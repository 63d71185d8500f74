import Mathlib.Data.Nat.Digits.Defs
import TigerCheck.Proofs.Json.Reading

/-!
# Compact texts

The text of a value without blanks spells the value, so reading it gives the value back.

* `Json.Exact`: values that are spelled in one way only, but for the spelling of strings.
* `Json.exists_quoted`: a quoted string is spelled by its characters and escapes.
* `Json.numberOf_toDigits`: the number that the digits of a number spell.
* **`Json.Exact.spells`**, **`Json.Exact.parse?_compact`**.
-/

namespace TigerCheck

namespace Json

/-- A value without numbers that keep their spelling, and without strings that denote no text. -/
inductive Exact : Json → Prop where
  | null : Exact .null
  | bool (b : Bool) : Exact (.bool b)
  | int (n : ℤ) : Exact (.int n)
  | str (s : String) : Exact (.str s)
  | arr {items : List Json} : (∀ v ∈ items, Exact v) → Exact (.arr items)
  | obj {members : List (String × Json)} : (∀ m ∈ members, Exact m.2) → Exact (.obj members)

attribute [simp] Exact.null Exact.bool Exact.int Exact.str

@[simp] theorem exact_arr {items : List Json} : Exact (.arr items) ↔ ∀ v ∈ items, Exact v := by
  constructor
  · rintro ⟨⟩
    assumption
  · exact .arr

@[simp] theorem exact_obj {members : List (String × Json)} : Exact (.obj members) ↔ ∀ m ∈ members, Exact m.2 := by
  constructor
  · rintro ⟨⟩
    assumption
  · exact .obj

/-! ## Strings -/

theorem hexValue?_hexDigit : ∀ n < 16, hexValue? (hexDigit n) = some n := by decide

theorem hexUnit?_hexDigit {n : ℕ} (h : n < 32) :
    hexUnit? '0' '0' (hexDigit (n / 16)) (hexDigit (n % 16)) = some n := by
  have hzero : hexValue? '0' = some 0 := rfl
  simp only [hexUnit?, hzero, hexValue?_hexDigit (n / 16) (by omega), hexValue?_hexDigit (n % 16) (by omega),
    Option.bind_eq_bind, Option.bind_some, Option.pure_def]
  exact congrArg some (by omega)

theorem charsOf?_unit {c : Char} (h : c.toNat < 32) (ps : List Piece) :
    charsOf? (.unit c.toNat :: ps) = (c :: ·) <$> charsOf? ps := by
  rw [charsOf?.eq_def]
  dsimp only
  rw [if_neg, if_neg, Char.ofNat_toNat]
  · simp only [isLowSurrogate, Bool.and_eq_true, decide_eq_true_eq]
    omega
  · simp only [isHighSurrogate, Bool.and_eq_true, decide_eq_true_eq]
    omega

/-- The spelling of a character is that of one piece, which denotes the character. -/
theorem exists_piece (c : Char) :
    ∃ p, (∀ ps cs rest, Quoted ps cs rest → Quoted (p :: ps) (escaped c ++ cs) rest) ∧
      ∀ ps, charsOf? (p :: ps) = (c :: ·) <$> charsOf? ps := by
  have hescape : ∀ e, escapeChar? e = some c →
      ∃ p, (∀ ps cs rest, Quoted ps cs rest → Quoted (p :: ps) (['\\', e] ++ cs) rest) ∧
        ∀ ps, charsOf? (p :: ps) = (c :: ·) <$> charsOf? ps :=
    fun e he => ⟨.char c, fun _ _ _ h => .escape he h, fun _ => rfl⟩
  have hcode : ∀ n, c.toNat = n → c = Char.ofNat n := fun n hn => by rw [← hn, Char.ofNat_toNat]
  unfold escaped
  split_ifs with hquote hslash hline hreturn htab hback hfeed hcontrol
  · exact hescape '"' (by subst hquote; rfl)
  · exact hescape '\\' (by subst hslash; rfl)
  · exact hescape 'n' (by subst hline; rfl)
  · exact hescape 'r' (by subst hreturn; rfl)
  · exact hescape 't' (by subst htab; rfl)
  · exact hescape 'b' (by rw [hcode 8 hback]; rfl)
  · exact hescape 'f' (by rw [hcode 12 hfeed]; rfl)
  · exact ⟨.unit c.toNat, fun _ _ _ h => .unit (hexUnit?_hexDigit hcontrol) h, charsOf?_unit hcontrol⟩
  · exact ⟨.char c, fun _ _ _ h => .char hquote hslash (Nat.not_lt.mp hcontrol) h, fun _ => rfl⟩

/-- A quoted string is spelled by its characters and escapes. -/
theorem exists_quoted (s : String) (rest : List Char) :
    ∃ ps, Quoted ps (escapeTo s.toList ('"' :: rest)) rest ∧ textOf? ps = some s := by
  have hchars : ∀ cs, ∃ ps, Quoted ps (escapeTo cs ('"' :: rest)) rest ∧ charsOf? ps = some cs := by
    intro cs
    induction cs with
    | nil => exact ⟨[], .close rest, rfl⟩
    | cons c cs ih =>
      obtain ⟨ps, hps, hcs⟩ := ih
      obtain ⟨p, hp, hc⟩ := exists_piece c
      exact ⟨p :: ps, hp _ _ _ hps, by rw [hc, hcs]; rfl⟩
  obtain ⟨ps, hps, hcs⟩ := hchars s.toList
  exact ⟨ps, hps, by rw [textOf?, hcs]; exact congrArg some String.ofList_toList⟩

/-! ## Numbers -/

theorem isDigits_toDigits (n : ℕ) : IsDigits (Nat.toDigits 10 n) :=
  ⟨Nat.toDigits_ne_nil, fun _ hc => Nat.isDigit_of_mem_toDigits (b := 10) (by decide) (by decide) hc⟩

theorem digitsValue_toDigits (n : ℕ) : digitsValue (Nat.toDigits 10 n) = n := by
  have hvalue : Nat.ofDigitChars 10 (Nat.toDigits 10 n) 0 = n := Nat.ofDigitChars_ten_toDigits
  rw [Nat.ofDigitChars_eq_foldl] at hvalue
  simp only [Nat.mul_comm 10] at hvalue
  exact hvalue

theorem head_toDigits_ne_zero (n : ℕ) (h : 0 < n) : ∀ c ∈ (Nat.toDigits 10 n).head?, c ≠ '0' := by
  induction n using Nat.strongRecOn with
  | ind n ih =>
    by_cases hlt : n < 10
    · rw [Nat.toDigits_of_lt_base hlt]
      rintro c ⟨⟩
      rw [ne_eq, Nat.digitChar_eq_zero]
      omega
    · rw [Nat.toDigits_of_base_le (by decide) (Nat.not_lt.mp hlt), List.head?_append_of_ne_nil _ Nat.toDigits_ne_nil]
      exact ih (n / 10) (by omega) (by omega)

/-- The digits of a number may stand in front of a point. -/
theorem isWhole_toDigits (n : ℕ) : isWhole (Nat.toDigits 10 n) := by
  rcases Nat.eq_zero_or_pos n with rfl | h
  · rfl
  · have hhead := head_toDigits_ne_zero n h
    obtain ⟨c, cs, hcs⟩ := List.exists_cons_of_ne_nil (Nat.toDigits_ne_nil (n := n) (b := 10))
    rw [hcs] at hhead ⊢
    have hc := hhead c rfl
    rw [isWhole]
    · exact bne_iff_ne.mpr hc
    · rintro rfl -
      exact hc rfl

/-- The number that a sign and the digits of a number spell. There is no zero with a sign. -/
theorem numberOf_toDigits (negative : Bool) (n : ℕ) (h : negative = true → n ≠ 0) :
    numberOf negative (Nat.toDigits 10 n) [] [] = .int (if negative then -(n : ℤ) else n) := by
  unfold numberOf
  dsimp only
  rw [digitsValue_toDigits, if_pos ⟨rfl, rfl, fun hn => h hn.1 hn.2⟩]

theorem spells_toDigits (negative : Bool) (n : ℕ) (h : negative = true → n ≠ 0) (rest : List Char) :
    Spells (.value (.int (if negative then -(n : ℤ) else n))) (signOf negative ++ (Nat.toDigits 10 n ++ rest)) rest := by
  rw [← numberOf_toDigits negative n h]
  exact .number (.refl _) (isWhole_toDigits n) (isDigits_toDigits n) .absent .absent

theorem spells_int (n : ℤ) (rest : List Char) : Spells (.value (.int n)) ((toString n).toList ++ rest) rest := by
  rw [Int.toString_eq_repr, Int.repr_eq_if]
  split_ifs with h
  · have hspells := spells_toDigits false n.toNat (fun h => absurd h Bool.false_ne_true) rest
    rw [if_neg Bool.false_ne_true, Int.toNat_of_nonneg h] at hspells
    rw [Nat.toList_repr]
    exact hspells
  · have hspells := spells_toDigits true (-n).toNat (fun _ => by omega) rest
    rw [if_pos rfl, Int.toNat_of_nonneg (by omega), Int.neg_neg] at hspells
    rw [String.toList_append, Nat.toList_repr]
    exact hspells

/-! ## Lists and objects -/

/-- The text of a value spells the value, whatever stands behind it. -/
def Compacts (j : Json) : Prop := ∀ rest, Spells (.value j) (compactTo j rest) rest

theorem spells_items {vs : List Json} (h : ∀ v ∈ vs, Compacts v) {v : Json} (hv : Compacts v) (rest : List Char) :
    Spells (.items (v :: vs)) (compactTo v (compactItemsTo vs rest)) rest := by
  induction vs generalizing v with
  | nil => exact .lastItem (hv _) (.refl _)
  | cons w vs ih =>
    obtain ⟨hw, hvs⟩ := List.forall_mem_cons.mp h
    exact .item (hv _) (.refl _) (ih hvs hw)

theorem spells_members {ms : List (String × Json)} (h : ∀ m ∈ ms, Compacts m.2) (k : String) {v : Json}
    (hv : Compacts v) (rest : List Char) :
    ∃ ps, Spells (.members ps) (quoteTo k (':' :: compactTo v (compactMembersTo ms rest))) rest ∧
      object ps = .obj ((k, v) :: ms) := by
  have hobject : ∀ (ps : List (List Piece × Json)) ms, (ps.mapM fun p => (textOf? p.1).map (·, p.2)) = some ms →
      object ps = .obj ms := fun ps ms hps => by rw [object, hps]
  suffices ∃ ps, Spells (.members ps) (quoteTo k (':' :: compactTo v (compactMembersTo ms rest))) rest ∧
      (ps.mapM fun p => (textOf? p.1).map (·, p.2)) = some ((k, v) :: ms) by
    obtain ⟨ps, hspells, hps⟩ := this
    exact ⟨ps, hspells, hobject ps _ hps⟩
  induction ms generalizing k v with
  | nil =>
    obtain ⟨p, hp, hk⟩ := exists_quoted k (':' :: compactTo v ('}' :: rest))
    exact ⟨[(p, v)], .lastMember (.refl _) hp (.refl _) (hv _) (.refl _), by simp [hk]⟩
  | cons m ms ih =>
    obtain ⟨hm, hms⟩ := List.forall_mem_cons.mp h
    obtain ⟨ps, hspells, hps⟩ := ih hms m.1 hm
    obtain ⟨p, hp, hk⟩ := exists_quoted k (':' :: compactTo v (compactMembersTo (m :: ms) rest))
    exact ⟨(p, v) :: ps, .member (.refl _) hp (.refl _) (hv _) (.refl _) hspells, by simp [hk, hps]⟩

/-- **The text of a value without blanks spells the value.** -/
theorem Exact.spells {j : Json} (h : j.Exact) : j.Compacts := by
  induction h with
  | null => exact fun _ => .null (.refl _)
  | bool b =>
    cases b with
    | true => exact fun _ => .true (.refl _)
    | false => exact fun _ => .false (.refl _)
  | int n => exact spells_int n
  | str s =>
    intro rest
    obtain ⟨ps, hps, hs⟩ := exists_quoted s rest
    have hspells := Spells.string (.refl ('"' :: escapeTo s.toList ('"' :: rest))) hps
    rw [string, hs] at hspells
    exact hspells
  | @arr items _ ih =>
    intro rest
    cases items with
    | nil => exact .emptyList (.refl _) (.refl _)
    | cons v vs =>
      obtain ⟨hv, hvs⟩ := List.forall_mem_cons.mp ih
      exact .list (.refl _) (spells_items hvs hv rest)
  | @obj members _ ih =>
    intro rest
    cases members with
    | nil => exact .emptyObject (.refl _) (.refl _)
    | cons m ms =>
      obtain ⟨hm, hms⟩ := List.forall_mem_cons.mp ih
      obtain ⟨ps, hspells, hps⟩ := spells_members hms m.1 hm rest
      have hobject := Spells.object
        (.refl ('{' :: quoteTo m.1 (':' :: compactTo m.2 (compactMembersTo ms rest)))) hspells
      rw [hps] at hobject
      exact hobject

/-- **Reading the text of a value without blanks gives the value back.** -/
theorem Exact.parse?_compact {j : Json} (h : j.Exact) : parse? j.compact = some j :=
  parse?_eq_some.mpr ⟨[], by rw [compact, String.toList_ofList]; exact h.spells [], List.forall_mem_nil _⟩

end Json

end TigerCheck
