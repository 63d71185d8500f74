import Mathlib.Data.List.Basic
import TigerCheck.Json.Reader

/-!
# Texts that spell values

What it means that a text spells a value, without reference to the reader: each sign may stand behind blanks, a
string may be spelled in several ways, and what stands between brackets is separated by commas.

* `Json.Blanks`, `Json.Quoted`, `Json.Fraction`, `Json.Exponent`: blanks, the inside of a string, parts of numbers.
* `Json.Spells`: a text begins with a value, with the items of a list, or with the members of an object.
  **`Json.Spelled`**: a whole text.
* `Json.Spells.length_lt`: what spells something is not empty.
-/

namespace TigerCheck

namespace Json

/-! ## Blanks, strings and numbers -/

/-- The text `cs` is `rest` behind some blanks. -/
def Blanks (cs rest : List Char) : Prop := ∃ b, cs = b ++ rest ∧ ∀ c ∈ b, isBlank c

theorem Blanks.refl (cs : List Char) : Blanks cs cs := ⟨[], rfl, List.forall_mem_nil _⟩

theorem Blanks.length_le {cs rest : List Char} (h : Blanks cs rest) : rest.length ≤ cs.length := by
  obtain ⟨b, rfl, -⟩ := h
  simp

/-- The text `cs` begins with the spelling of some pieces and a quote, and `rest` is behind the quote. -/
inductive Quoted : List Piece → List Char → List Char → Prop where
  | close (rest : List Char) : Quoted [] ('"' :: rest) rest
  | char {c : Char} {ps : List Piece} {cs rest : List Char} : c ≠ '"' → c ≠ '\\' → 32 ≤ c.toNat →
      Quoted ps cs rest → Quoted (.char c :: ps) (c :: cs) rest
  | escape {e c : Char} {ps : List Piece} {cs rest : List Char} : escapeChar? e = some c → Quoted ps cs rest →
      Quoted (.char c :: ps) ('\\' :: e :: cs) rest
  | unit {a b c d : Char} {n : Nat} {ps : List Piece} {cs rest : List Char} : hexUnit? a b c d = some n →
      Quoted ps cs rest → Quoted (.unit n :: ps) ('\\' :: 'u' :: a :: b :: c :: d :: cs) rest

theorem Quoted.length_lt {ps : List Piece} {cs rest : List Char} (h : Quoted ps cs rest) :
    rest.length < cs.length := by
  induction h <;> simp only [List.length_cons] <;> omega

/-- Digits, at least one. -/
def IsDigits (ds : List Char) : Prop := ds ≠ [] ∧ ∀ c ∈ ds, isDigit c

/-- The fraction of a number, which may be missing. -/
inductive Fraction : List Char → Prop where
  | absent : Fraction []
  | point {ds : List Char} : IsDigits ds → Fraction ('.' :: ds)

/-- The exponent of a number, which may be missing. -/
inductive Exponent : List Char → Prop where
  | absent : Exponent []
  | letter {e : Char} {sign ds : List Char} : e = 'e' ∨ e = 'E' → sign ∈ [[], ['+'], ['-']] → IsDigits ds →
      Exponent (e :: (sign ++ ds))

/-- The sign of a number. -/
def signOf (negative : Bool) : List Char := if negative then ['-'] else []

/-! ## Values -/

/-- What a part of a text may spell. -/
inductive Phrase where
  | value (j : Json)
  /-- The items of a list, and the bracket behind them. -/
  | items (vs : List Json)
  /-- The members of an object, and the brace behind them. -/
  | members (ms : List (List Piece × Json))

/-- The text `cs` begins with the spelling of a phrase, and `rest` is behind it. -/
inductive Spells : Phrase → List Char → List Char → Prop where
  | null {cs rest : List Char} : Blanks cs ('n' :: 'u' :: 'l' :: 'l' :: rest) → Spells (.value .null) cs rest
  | true {cs rest : List Char} : Blanks cs ('t' :: 'r' :: 'u' :: 'e' :: rest) → Spells (.value (.bool true)) cs rest
  | false {cs rest : List Char} : Blanks cs ('f' :: 'a' :: 'l' :: 's' :: 'e' :: rest) →
      Spells (.value (.bool false)) cs rest
  | number {cs whole frac exp rest : List Char} {negative : Bool} :
      Blanks cs (signOf negative ++ (whole ++ (frac ++ (exp ++ rest)))) → isWhole whole → IsDigits whole →
      Fraction frac → Exponent exp → Spells (.value (numberOf negative whole frac exp)) cs rest
  | string {cs cs₁ rest : List Char} {ps : List Piece} : Blanks cs ('"' :: cs₁) → Quoted ps cs₁ rest →
      Spells (.value (string ps)) cs rest
  | emptyList {cs cs₁ rest : List Char} : Blanks cs ('[' :: cs₁) → Blanks cs₁ (']' :: rest) →
      Spells (.value (.arr [])) cs rest
  | list {cs cs₁ rest : List Char} {vs : List Json} : Blanks cs ('[' :: cs₁) → Spells (.items vs) cs₁ rest →
      Spells (.value (.arr vs)) cs rest
  | emptyObject {cs cs₁ rest : List Char} : Blanks cs ('{' :: cs₁) → Blanks cs₁ ('}' :: rest) →
      Spells (.value (.obj [])) cs rest
  | object {cs cs₁ rest : List Char} {ms : List (List Piece × Json)} : Blanks cs ('{' :: cs₁) →
      Spells (.members ms) cs₁ rest → Spells (.value (object ms)) cs rest
  | lastItem {cs cs₁ rest : List Char} {v : Json} : Spells (.value v) cs cs₁ → Blanks cs₁ (']' :: rest) →
      Spells (.items [v]) cs rest
  | item {cs cs₁ cs₂ rest : List Char} {v : Json} {vs : List Json} : Spells (.value v) cs cs₁ →
      Blanks cs₁ (',' :: cs₂) → Spells (.items vs) cs₂ rest → Spells (.items (v :: vs)) cs rest
  | lastMember {cs cs₁ cs₂ cs₃ cs₄ rest : List Char} {k : List Piece} {v : Json} : Blanks cs ('"' :: cs₁) →
      Quoted k cs₁ cs₂ → Blanks cs₂ (':' :: cs₃) → Spells (.value v) cs₃ cs₄ → Blanks cs₄ ('}' :: rest) →
      Spells (.members [(k, v)]) cs rest
  | member {cs cs₁ cs₂ cs₃ cs₄ cs₅ rest : List Char} {k : List Piece} {v : Json} {ms : List (List Piece × Json)} :
      Blanks cs ('"' :: cs₁) → Quoted k cs₁ cs₂ → Blanks cs₂ (':' :: cs₃) → Spells (.value v) cs₃ cs₄ →
      Blanks cs₄ (',' :: cs₅) → Spells (.members ms) cs₅ rest → Spells (.members ((k, v) :: ms)) cs rest

/-- **A text spells a value**, with nothing but blanks behind it. -/
def Spelled (j : Json) (text : String) : Prop :=
  ∃ rest, Spells (.value j) text.toList rest ∧ ∀ c ∈ rest, isBlank c

theorem Spells.length_lt {p : Phrase} {cs rest : List Char} (h : Spells p cs rest) : rest.length < cs.length := by
  induction h with
  | null hb | true hb | false hb =>
    have := hb.length_le
    simp only [List.length_cons] at this
    omega
  | number hb _ hwhole =>
    have := hb.length_le
    have := List.length_pos_of_ne_nil hwhole.1
    simp only [List.length_append] at *
    omega
  | string hb hq =>
    have := hb.length_le
    have := hq.length_lt
    simp only [List.length_cons] at *
    omega
  | emptyList hb hb' | emptyObject hb hb' =>
    have := hb.length_le
    have := hb'.length_le
    simp only [List.length_cons] at *
    omega
  | list hb _ ih | object hb _ ih =>
    have := hb.length_le
    simp only [List.length_cons] at *
    omega
  | lastItem _ hb ih =>
    have := hb.length_le
    simp only [List.length_cons] at *
    omega
  | item _ hb _ ih ih' =>
    have := hb.length_le
    simp only [List.length_cons] at *
    omega
  | lastMember hb hq hc _ hb' ih =>
    have := hb.length_le
    have := hq.length_lt
    have := hc.length_le
    have := hb'.length_le
    simp only [List.length_cons] at *
    omega
  | member hb hq hc _ hb' _ ih ih' =>
    have := hb.length_le
    have := hq.length_lt
    have := hc.length_le
    have := hb'.length_le
    simp only [List.length_cons] at *
    omega

end Json

end TigerCheck
