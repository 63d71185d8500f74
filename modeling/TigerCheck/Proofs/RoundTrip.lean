import TigerCheck.Proofs.Decode.Nodes

/-!
# Writing a program and reading it again

The text of a program holds all of the program but its cells. If the text is not nested too deeply, reading it gives
the program back, with empty cells.

* `Exp.blank_blank`: emptied cells stay empty.
* `Program.parse?_encode`: the text of a program spells its value.
* **`Program.decode?_encode`**: reading what was written. Texts are equal exactly if programs differ in cells only.
-/

namespace TigerCheck

/-! ## Empty cells -/

@[simp] theorem Mark.blank_blank (m : Mark) : m.blank.blank = m.blank := rfl

theorem blankAll_blankAll {es : List Exp} (h : ∀ e ∈ es, e.blank.blank = e.blank) :
    blankAll (blankAll es) = blankAll es := by
  induction es with
  | nil => rfl
  | cons e es ih =>
    obtain ⟨he, hes⟩ := List.forall_mem_cons.mp h
    simp [he, ih hes]

theorem blankInits_blankInits {inits : List (Ident × Exp)} (h : ∀ i ∈ inits, i.2.blank.blank = i.2.blank) :
    blankInits (blankInits inits) = blankInits inits := by
  induction inits with
  | nil => rfl
  | cons i inits ih =>
    obtain ⟨hi, hinits⟩ := List.forall_mem_cons.mp h
    rw [blankInits, blankInits, hi, ih hinits]

theorem blankDecs_blankDecs {ds : List Dec} (h : ∀ d ∈ ds, d.blank.blank = d.blank) :
    blankDecs (blankDecs ds) = blankDecs ds := by
  induction ds with
  | nil => rfl
  | cons d ds ih =>
    obtain ⟨hd, hds⟩ := List.forall_mem_cons.mp h
    simp [hd, ih hds]

theorem blankBlankCases : Tree.Cases (fun e => e.blank.blank = e.blank) (fun v => v.blank.blank = v.blank)
    (fun d => d.blank.blank = d.blank) where
  var _ _ hv := by simp [hv]
  nil _ := rfl
  int _ _ := rfl
  string _ _ := rfl
  call _ _ _ _ ha := by simp [blankAll_blankAll ha]
  binary _ _ _ _ hl hr := by simp [hl, hr]
  record _ _ _ hi := by simp [blankInits_blankInits hi]
  seq _ _ hi := by simp [blankAll_blankAll hi]
  assign _ _ _ hv he := by simp [hv, he]
  condNone _ _ _ ht ha := by simp [ht, ha]
  condSome _ _ _ _ ht ha hb := by simp [ht, ha, hb]
  whileLoop _ _ _ ht hb := by simp [ht, hb]
  doWhile _ _ _ hb ht := by simp [ht, hb]
  forLoop _ _ _ _ _ _ hl hh hb := by simp [hl, hh, hb]
  breakLoop _ := rfl
  letIn _ _ _ hd hb := by simp [blankDecs_blankDecs hd, hb]
  array _ _ _ _ hs hi := by simp [hs, hi]
  simple _ _ _ := rfl
  field _ _ _ _ hb := by simp [hb]
  element _ _ _ hb hi := by simp [hb, hi]
  type _ := rfl
  function _ _ _ _ hb := by simp [hb]
  varDec _ _ _ _ _ hi := by simp [hi]

/-- Emptied cells stay empty. -/
theorem Exp.blank_blank (e : Exp) : e.blank.blank = e.blank := blankBlankCases.exp e

/-! ## Texts -/

theorem Program.parse?_encode (p : Program) : Json.parse? p.encode = some p.toJson := p.exact_toJson.parse?_compact

theorem Program.toJson_eq_iff {p q : Program} : p.toJson = q.toJson ↔ p.body.blank = q.body.blank := by
  constructor
  · intro h
    -- The reader gives back both bodies, at a depth at which it reads the one value that is written for both.
    have hread : ∀ r : Program, r.toJson = p.toJson →
        Program.ofJson? p.toJson.depth p.toJson = some ⟨r.body.blank⟩ := fun r hr => by
      have hpresents : Program.Presents ⟨r.body.blank⟩ p.toJson := by
        have := Program.presents_toJson ⟨r.body.blank⟩
        rwa [Program.toJson, Exp.toJson_blank, ← Program.toJson, hr] at this
      exact (Program.reads _ p.toJson le_rfl _).mpr ⟨r.body.blank_blank, hpresents⟩
    have heq := (hread p rfl).symm.trans (hread q h.symm)
    exact congrArg Program.body (Option.some.inj heq)
  · intro h
    rw [Program.toJson, ← Exp.toJson_blank, h, Exp.toJson_blank, Program.toJson]

/-- **Reading the text of a program gives the program back with empty cells**, if the text is not nested too deeply.
Texts are equal exactly if the programs differ in their cells only. -/
theorem Program.decode?_encode :
    (∀ p : Program, Json.nesting p.encode ≤ nestingLimit → decode? p.encode = some ⟨p.body.blank⟩) ∧
      ∀ p q : Program, p.encode = q.encode ↔ p.body.blank = q.body.blank := by
  constructor
  · intro p hp
    have hdepth := (Json.parse?_eq_some.mp p.parse?_encode).depth_le.trans hp
    have hpresents := Program.presents_toJson ⟨p.body.blank⟩
    rw [Program.toJson, Exp.toJson_blank, ← Program.toJson] at hpresents
    rw [decode?, p.parse?_encode]
    exact (Program.reads nestingLimit p.toJson hdepth _).mpr ⟨p.body.blank_blank, hpresents⟩
  · intro p q
    rw [← Program.toJson_eq_iff]
    constructor
    · intro h
      have hparse := p.parse?_encode
      rw [h, q.parse?_encode] at hparse
      exact (Option.some.inj hparse).symm
    · exact fun h => congrArg Json.compact h

/-- Two cells, a sign, an escape and a bracket within quotes. -/
theorem Program.decode?_encode_seq :
    Json.nesting (Program.encode ⟨.seq {} [.int { ty := some .int } (-5), .string { ty := some .string } "é\n["]⟩) ≤
        nestingLimit ∧
      decode? (Program.encode ⟨.seq {} [.int { ty := some .int } (-5), .string { ty := some .string } "é\n["]⟩) =
        some ⟨.seq {} [.int {} (-5), .string {} "é\n["]⟩ := by
  have h : Json.nesting (Program.encode
      ⟨.seq {} [.int { ty := some .int } (-5), .string { ty := some .string } "é\n["]⟩) ≤ nestingLimit := by
    decide +kernel
  exact ⟨h, Program.decode?_encode.1 _ h⟩

end TigerCheck
