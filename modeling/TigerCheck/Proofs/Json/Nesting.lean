import TigerCheck.Proofs.Json.Spelling

/-!
# Nesting of values and texts

Lists and objects are nested in a value as brackets and braces are nested in its text.

* `Json.depth`: how deep lists and objects are nested in a value.
* `Json.nesting`: how deep brackets and braces are nested in a text; those within quotes do not count.
* **`Json.Spelled.depth_le`**: a value is nested no deeper than its text.
-/

namespace TigerCheck

namespace Json

/-! ## Values -/

mutual

/-- How deep lists and objects are nested in a value. -/
def depth : Json → ℕ
  | .arr items => depths items + 1
  | .obj members => memberDepths members + 1
  | .null | .bool _ | .int _ | .decimal _ | .str _ | .unpaired => 0

def depths : List Json → ℕ
  | [] => 0
  | v :: vs => max v.depth (depths vs)

def memberDepths : List (String × Json) → ℕ
  | [] => 0
  | (_, v) :: ms => max v.depth (memberDepths ms)

end

theorem depth_le_of_mem {v : Json} {vs : List Json} (h : v ∈ vs) : v.depth ≤ depths vs := by
  induction vs with
  | nil => cases h
  | cons w vs ih =>
    rw [depths]
    rcases List.mem_cons.mp h with rfl | h
    · exact Nat.le_max_left _ _
    · exact Nat.le_trans (ih h) (Nat.le_max_right _ _)

theorem memberDepths_eq (ms : List (String × Json)) : memberDepths ms = depths (ms.map (·.2)) := by
  induction ms with
  | nil => rfl
  | cons m ms ih => rw [memberDepths, ih, List.map_cons, depths]

/-- An object is nested as deep as its values, if it denotes anything. -/
theorem depth_object_le (ms : List (List Piece × Json)) : (object ms).depth ≤ depths (ms.map (·.2)) + 1 := by
  unfold object
  split
  · next members hms =>
    rw [depth, memberDepths_eq]
    refine Nat.succ_le_succ (Nat.le_of_eq (congrArg depths ?_))
    induction ms generalizing members with
    | nil =>
      cases hms
      rfl
    | cons m ms ih =>
      simp only [List.mapM_cons, Option.bind_eq_bind, Option.bind_eq_some_iff, Option.map_eq_some_iff,
        Option.pure_def, Option.some.injEq] at hms
      obtain ⟨_, ⟨_, -, rfl⟩, rest, hrest, rfl⟩ := hms
      exact congrArg (m.2 :: ·) (ih rest hrest)
  · exact Nat.zero_le _

/-! ## Texts -/

mutual

/-- How many brackets and braces are open at the deepest place of a text, if some are open at its beginning. -/
def deepest (opened : ℕ) : List Char → ℕ
  | [] => opened
  | c :: cs =>
    if c = '"' then deepestQuoted opened cs
    else if c = '[' ∨ c = '{' then deepest (opened + 1) cs
    else if c = ']' ∨ c = '}' then max opened (deepest (opened - 1) cs)
    else deepest opened cs

/-- The same for a text that begins within quotes. -/
def deepestQuoted (opened : ℕ) : List Char → ℕ
  | [] => opened
  | ['\\'] => opened
  | '\\' :: _ :: cs => deepestQuoted opened cs
  | c :: cs => if c = '"' then deepest opened cs else deepestQuoted opened cs

end

/-- How deep brackets and braces are nested in a text. -/
def nesting (text : String) : ℕ := deepest 0 text.toList

/-- A sign that neither opens nor closes anything. -/
def IsPlain (c : Char) : Prop := c ∉ ['"', '[', '{', ']', '}']

instance : DecidablePred IsPlain := fun c => inferInstanceAs (Decidable (c ∉ ['"', '[', '{', ']', '}']))

theorem deepest_plain {c : Char} (h : IsPlain c) (opened : ℕ) (cs : List Char) :
    deepest opened (c :: cs) = deepest opened cs := by
  simp only [IsPlain, List.mem_cons, List.not_mem_nil, or_false, not_or] at h
  simp [deepest, h]

theorem deepest_append {l : List Char} (h : ∀ c ∈ l, IsPlain c) (opened : ℕ) (cs : List Char) :
    deepest opened (l ++ cs) = deepest opened cs := by
  induction l with
  | nil => rfl
  | cons c l ih =>
    obtain ⟨hc, hl⟩ := List.forall_mem_cons.mp h
    rw [List.cons_append, deepest_plain hc, ih hl]

theorem deepest_blanks {cs rest : List Char} (h : Blanks cs rest) (opened : ℕ) :
    deepest opened cs = deepest opened rest := by
  obtain ⟨b, rfl, hb⟩ := h
  refine deepest_append (fun c hc => ?_) opened rest
  have hblank := hb c hc
  simp only [isBlank, Bool.or_eq_true, beq_iff_eq] at hblank
  rcases hblank with ((rfl | rfl) | rfl) | rfl <;> decide

/-! ### Numbers -/

theorem IsDigits.isPlain {ds : List Char} (h : IsDigits ds) : ∀ c ∈ ds, IsPlain c := by
  intro c hc hmem
  have hdigit := h.2 c hc
  simp only [List.mem_cons, List.not_mem_nil, or_false] at hmem
  rcases hmem with rfl | rfl | rfl | rfl | rfl <;> exact absurd hdigit (by decide)

theorem Fraction.isPlain {frac : List Char} (h : Fraction frac) : ∀ c ∈ frac, IsPlain c := by
  cases h with
  | absent => exact List.forall_mem_nil _
  | point hds => exact List.forall_mem_cons.mpr ⟨by decide, hds.isPlain⟩

theorem Exponent.isPlain {exp : List Char} (h : Exponent exp) : ∀ c ∈ exp, IsPlain c := by
  cases h with
  | absent => exact List.forall_mem_nil _
  | letter he hsign hds =>
    refine List.forall_mem_cons.mpr ⟨?_, List.forall_mem_append.mpr ⟨?_, hds.isPlain⟩⟩
    · rcases he with rfl | rfl <;> decide
    · simp only [List.mem_cons, List.not_mem_nil, or_false] at hsign
      rcases hsign with rfl | rfl | rfl <;> simp [IsPlain]

theorem isPlain_signOf (negative : Bool) : ∀ c ∈ signOf negative, IsPlain c := by
  cases negative <;> simp [signOf, IsPlain]

/-! ### Strings -/

theorem deepestQuoted_cons {c : Char} (hq : c ≠ '"') (hb : c ≠ '\\') (opened : ℕ) (cs : List Char) :
    deepestQuoted opened (c :: cs) = deepestQuoted opened cs := by
  rw [deepestQuoted.eq_def]
  split <;> simp_all

theorem ne_of_hexValue? {c : Char} {n : ℕ} (h : hexValue? c = some n) : c ≠ '"' ∧ c ≠ '\\' := by
  constructor <;> rintro rfl <;> cases h

theorem ne_of_hexUnit? {a b c d : Char} {n : ℕ} (h : hexUnit? a b c d = some n) :
    ∀ x ∈ [a, b, c, d], x ≠ '"' ∧ x ≠ '\\' := by
  simp only [hexUnit?, Option.bind_eq_bind, Option.bind_eq_some_iff] at h
  obtain ⟨_, ha, _, hb, _, hc, _, hd, -⟩ := h
  simpa using ⟨ne_of_hexValue? ha, ne_of_hexValue? hb, ne_of_hexValue? hc, ne_of_hexValue? hd⟩

theorem deepest_quoted {ps : List Piece} {cs rest : List Char} (h : Quoted ps cs rest) (opened : ℕ) :
    deepestQuoted opened cs = deepest opened rest := by
  induction h with
  | close => rfl
  | char hq hb _ _ ih => rw [deepestQuoted_cons hq hb, ih]
  | escape _ _ ih => exact ih
  | unit hn _ ih =>
    have hne := ne_of_hexUnit? hn
    simp only [List.forall_mem_cons] at hne
    obtain ⟨ha, hb, hc, hd, -⟩ := hne
    rw [deepestQuoted, deepestQuoted_cons ha.1 ha.2, deepestQuoted_cons hb.1 hb.2, deepestQuoted_cons hc.1 hc.2,
      deepestQuoted_cons hd.1 hd.2, ih]

/-! ### Brackets -/

mutual

theorem le_deepest (opened : ℕ) : ∀ cs : List Char, opened ≤ deepest opened cs
  | [] => Nat.le_refl _
  | c :: cs => by
    rw [deepest]
    split_ifs
    · exact le_deepestQuoted opened cs
    · exact Nat.le_trans (Nat.le_succ _) (le_deepest (opened + 1) cs)
    · exact Nat.le_max_left _ _
    · exact le_deepest opened cs

theorem le_deepestQuoted (opened : ℕ) : ∀ cs : List Char, opened ≤ deepestQuoted opened cs
  | [] => Nat.le_refl _
  | c :: cs => by
    by_cases hq : c = '"'
    · subst hq
      exact le_deepest opened cs
    by_cases hb : c = '\\'
    · subst hb
      match cs with
      | [] => exact Nat.le_refl _
      | _ :: cs => exact le_deepestQuoted opened cs
    · rw [deepestQuoted_cons hq hb]
      exact le_deepestQuoted opened cs

end

/-- In the text of a phrase brackets are nested as deep as the phrase is. -/
def Phrase.Fits (cs rest : List Char) : Phrase → Prop
  | .value j => ∀ opened, max (opened + j.depth) (deepest opened rest) ≤ deepest opened cs
  | .items vs => ∀ opened, max (opened + 1 + depths vs) (deepest opened rest) ≤ deepest (opened + 1) cs
  | .members ms => ∀ opened,
    max (opened + 1 + depths (ms.map (·.2))) (deepest opened rest) ≤ deepest (opened + 1) cs

theorem Phrase.fits_scalar {cs rest : List Char} {j : Json} (hj : j.depth = 0)
    (h : ∀ opened, deepest opened cs = deepest opened rest) : (Phrase.value j).Fits cs rest := by
  intro opened
  rw [hj, h]
  exact Nat.max_le.mpr ⟨le_deepest opened rest, Nat.le_refl _⟩

theorem depth_numberOf (negative : Bool) (whole frac exp : List Char) :
    (numberOf negative whole frac exp).depth = 0 := by
  unfold numberOf
  dsimp only
  split <;> rfl

theorem depth_string (ps : List Piece) : (string ps).depth = 0 := by
  unfold string
  split <;> rfl

theorem deepest_close {cs rest : List Char} {c : Char} (hc : c = ']' ∨ c = '}') (h : Blanks cs (c :: rest))
    (opened : ℕ) : deepest opened rest ≤ deepest (opened + 1) cs ∧ opened + 1 ≤ deepest (opened + 1) cs := by
  rw [deepest_blanks h]
  rcases hc with rfl | rfl <;> exact ⟨Nat.le_max_right _ _, Nat.le_max_left _ _⟩

/-- A key and a colon do not count. -/
theorem deepest_key {cs cs₁ cs₂ cs₃ : List Char} {k : List Piece} (hb : Blanks cs ('"' :: cs₁)) (hq : Quoted k cs₁ cs₂)
    (hc : Blanks cs₂ (':' :: cs₃)) (opened : ℕ) : deepest opened cs = deepest opened cs₃ :=
  calc deepest opened cs = deepestQuoted opened cs₁ := deepest_blanks hb opened
    _ = deepest opened (':' :: cs₃) := (deepest_quoted hq opened).trans (deepest_blanks hc opened)
    _ = deepest opened cs₃ := deepest_plain (by decide) opened cs₃

/-- **A phrase is nested no deeper than its text.** -/
theorem Spells.fits {p : Phrase} {cs rest : List Char} (h : Spells p cs rest) : p.Fits cs rest := by
  induction h with
  | null hb =>
    exact Phrase.fits_scalar rfl fun opened => (deepest_blanks hb opened).trans
      (deepest_append (l := ['n', 'u', 'l', 'l']) (by simp [IsPlain]) opened _)
  | true hb =>
    exact Phrase.fits_scalar rfl fun opened => (deepest_blanks hb opened).trans
      (deepest_append (l := ['t', 'r', 'u', 'e']) (by simp [IsPlain]) opened _)
  | false hb =>
    exact Phrase.fits_scalar rfl fun opened => (deepest_blanks hb opened).trans
      (deepest_append (l := ['f', 'a', 'l', 's', 'e']) (by simp [IsPlain]) opened _)
  | number hb _ hwhole hfrac hexp =>
    refine Phrase.fits_scalar (depth_numberOf _ _ _ _) fun opened => ?_
    rw [deepest_blanks hb, deepest_append (isPlain_signOf _), deepest_append hwhole.isPlain,
      deepest_append hfrac.isPlain, deepest_append hexp.isPlain]
  | string hb hq =>
    exact Phrase.fits_scalar (depth_string _) fun opened => (deepest_blanks hb opened).trans (deepest_quoted hq opened)
  | emptyList hb hb' =>
    intro opened
    have hopen : deepest opened _ = deepest (opened + 1) _ := deepest_blanks hb opened
    obtain ⟨hrest, hlt⟩ := deepest_close (.inl rfl) hb' opened
    rw [hopen]
    exact Nat.max_le.mpr ⟨hlt, hrest⟩
  | emptyObject hb hb' =>
    intro opened
    have hopen : deepest opened _ = deepest (opened + 1) _ := deepest_blanks hb opened
    obtain ⟨hrest, hlt⟩ := deepest_close (.inr rfl) hb' opened
    rw [hopen]
    exact Nat.max_le.mpr ⟨hlt, hrest⟩
  | list hb _ ih =>
    intro opened
    have hopen : deepest opened _ = deepest (opened + 1) _ := deepest_blanks hb opened
    have := ih opened
    rw [hopen, depth]
    omega
  | @object _ _ _ ms hb _ ih =>
    intro opened
    have hopen : deepest opened _ = deepest (opened + 1) _ := deepest_blanks hb opened
    have := ih opened
    have := depth_object_le ms
    rw [hopen]
    omega
  | lastItem _ hb ih =>
    intro opened
    have := ih (opened + 1)
    obtain ⟨hrest, hlt⟩ := deepest_close (.inl rfl) hb opened
    rw [depths, depths]
    omega
  | item _ hb _ ih ih' =>
    intro opened
    have := ih (opened + 1)
    rw [deepest_blanks hb, deepest_plain (by decide)] at this
    have := ih' opened
    rw [depths]
    omega
  | lastMember hb hq hc _ hb' ih =>
    intro opened
    have := ih (opened + 1)
    obtain ⟨hrest, hlt⟩ := deepest_close (.inr rfl) hb' opened
    rw [deepest_key hb hq hc, List.map_cons, List.map_nil, depths, depths]
    dsimp only
    omega
  | member hb hq hc _ hb' _ ih ih' =>
    intro opened
    have := ih (opened + 1)
    rw [deepest_blanks hb', deepest_plain (by decide)] at this
    have := ih' opened
    rw [deepest_key hb hq hc, List.map_cons, depths]
    dsimp only
    omega

/-- **A value is nested no deeper than its text.** -/
theorem Spelled.depth_le {j : Json} {text : String} (h : Spelled j text) : j.depth ≤ nesting text := by
  obtain ⟨rest, hspells, -⟩ := h
  have hfits := hspells.fits 0
  rw [Nat.zero_add] at hfits
  exact Nat.le_trans (Nat.le_max_left _ _) hfits

end Json

end TigerCheck
