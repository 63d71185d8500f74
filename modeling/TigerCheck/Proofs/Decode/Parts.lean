import TigerCheck.Proofs.Json.Fields
import TigerCheck.Proofs.Tree.Presented
import TigerCheck.Tree.Decode

/-!
# Reading the parts of trees

The readers of places, names and type declarations find exactly those of which a value is a way to write them.

* `Location.reads`, `Ident.reads`, `TypedName.reads`, `TypeBody.reads`, `TypeDec.reads`, `BinOp.reads`.
* `Json.FieldRead.loc`: a place, which may be missing.
* `BinOp.word_of_ofWord?`, …: words stand for one operator or form.
-/

namespace TigerCheck

open Json (Part Structure Choice Items Reads FieldRead Meets)
open Json.Part (required nullable)

variable {d : ℕ} {j : Json}

/-! ## Words -/

/-- A word that is found in a table is that of what it is found to stand for. -/
theorem word_of_find? {α : Type} {word : α → String} {l : List α} {w : String} {a : α}
    (h : l.find? (word · == w) = some a) : w = word a :=
  (beq_iff_eq.mp (List.find?_some (p := (word · == w)) h)).symm

theorem BinOp.word_of_ofWord? {w : String} {op : BinOp} (h : ofWord? w = some op) : w = op.word := word_of_find? h

theorem TypeBody.Form.word_of_ofWord? {w : String} {f : Form} (h : ofWord? w = some f) : w = f.word := word_of_find? h

theorem Exp.Form.word_of_ofWord? {w : String} {f : Form} (h : ofWord? w = some f) : w = f.word := word_of_find? h

theorem Var.Form.word_of_ofWord? {w : String} {f : Form} (h : ofWord? w = some f) : w = f.word := word_of_find? h

theorem Dec.Kind.word_of_ofWord? {w : String} {k : Kind} (h : ofWord? w = some k) : w = k.word := word_of_find? h

/-! ## Places and names -/

theorem Location.ofJson?_eq_some {l : Location} : Location.ofJson? (d + 1) j = some l ↔
    ∃ vs, j.fields? ["line", "column"] = some vs ∧ Meets [fun v => v.bind Json.word32? = some l.line,
      fun v => v.bind Json.word32? = some l.column] vs := by
  cases l
  rw [Location.ofJson?]
  split <;> simp_all [Option.bind_eq_some_iff]

theorem reads_word32 (d : ℕ) : Reads Json.word32? (fun _ => True) (fun w j => j = .nat w.toNat) d :=
  .scalar Json.word32?_eq_some d

theorem reads_text (d : ℕ) : Reads Json.text? (fun _ => True) (fun s j => j = .str s) d :=
  .scalar Json.text?_eq_some d

theorem Location.reads (d : ℕ) : Reads (Location.ofJson? d) (fun _ => True) Location.Presents d := by
  refine .of_pos (fun _ => rfl) (fun _ _ h => h.depth_pos) fun d _ j hj l => ?_
  rw [Location.ofJson?_eq_some]
  refine (Json.structure_read ["line", "column"] [.required "line" (reads_word32 d) l.line,
    .required "column" (reads_word32 d) l.column] rfl (by decide) hj).trans (and_congr_left' ?_)
  simp [FieldRead.required]

/-- A place, which may be missing. -/
def Json.FieldRead.loc (d : ℕ) (l : Location) : FieldRead d where
  part := l.part
  Reads v := Location.ofField? d v = some l
  Fresh := True
  iff v hv := by
    cases v with
    | none => exact ⟨fun h => ⟨trivial, (Option.some.inj h).symm⟩, fun h => congrArg some h.2.symm⟩
    | some j => exact Location.reads d j (hv j rfl) l

theorem Ident.ofJson?_eq_some {i : Ident} : Ident.ofJson? (d + 1) j = some i ↔
    ∃ vs, j.fields? ["name", "loc"] = some vs ∧ Meets [fun v => v.bind Json.text? = some i.name,
      fun v => Location.ofField? d v = some i.loc] vs := by
  cases i
  rw [Ident.ofJson?]
  split <;> simp_all [Option.bind_eq_some_iff]

theorem Ident.reads (d : ℕ) : Reads (Ident.ofJson? d) (fun _ => True) Ident.Presents d := by
  refine .of_pos (fun _ => rfl) (fun _ _ h => h.depth_pos) fun d _ j hj i => ?_
  rw [Ident.ofJson?_eq_some]
  refine (Json.structure_read ["name", "loc"] [.required "name" (reads_text d) i.name, .loc d i.loc] rfl (by decide)
    hj).trans (and_congr_left' ?_)
  simp [FieldRead.required, FieldRead.loc]

theorem TypedName.ofJson?_eq_some {f : TypedName} : TypedName.ofJson? (d + 1) j = some f ↔
    ∃ vs, j.fields? ["name", "type_name"] = some vs ∧ Meets [fun v => v.bind (Ident.ofJson? d) = some f.name,
      fun v => v.bind (Ident.ofJson? d) = some f.typeName] vs := by
  cases f
  rw [TypedName.ofJson?]
  split <;> simp_all [Option.bind_eq_some_iff]

theorem TypedName.reads (d : ℕ) : Reads (TypedName.ofJson? d) (fun _ => True) TypedName.Presents d := by
  refine .of_pos (fun _ => rfl) (fun _ _ h => h.depth_pos) fun d _ j hj f => ?_
  rw [TypedName.ofJson?_eq_some]
  refine (Json.structure_read ["name", "type_name"] [.required "name" (Ident.reads d) f.name,
    .required "type_name" (Ident.reads d) f.typeName] rfl (by decide) hj).trans (and_congr_left' ?_)
  simp [FieldRead.required]

theorem TypedName.listOfJson?_eq_some (d : ℕ) (j : Json) (l : List TypedName) : TypedName.listOfJson? d j = some l ↔
    ∃ k vs, d = k + 1 ∧ j = .arr vs ∧ vs.mapM (TypedName.ofJson? k) = some l := by
  cases d <;> cases j <;> simp [TypedName.listOfJson?]

theorem TypedName.reads_list (d : ℕ) :
    Reads (TypedName.listOfJson? d) (fun _ => True) (fun l => Items (l.map (·.Presents))) d := fun j hj l =>
  (Reads.items TypedName.listOfJson?_eq_some (fun k _ => TypedName.reads k) j hj l).trans
    (and_congr_left' (by simp))

/-! ## Type declarations -/

theorem TypeBody.presents_of_ofJson? {b : TypeBody} (hj : j.depth ≤ d) (h : TypeBody.ofJson? d j = some b) :
    b.Presents j := by
  unfold TypeBody.ofJson? at h
  split at h
  · next d word content =>
    rw [Json.depth_single] at hj
    have hcontent := Nat.le_of_succ_le_succ hj
    split at h
    · next hform =>
      obtain ⟨target, htarget, rfl⟩ := Option.map_eq_some_iff.mp h
      rw [Form.word_of_ofWord? hform]
      exact .tagged ((Ident.reads d content hcontent target).mp htarget).2
    · next hform =>
      obtain ⟨fields, hfields, rfl⟩ := Option.map_eq_some_iff.mp h
      rw [Form.word_of_ofWord? hform]
      exact .tagged ((TypedName.reads_list d content hcontent fields).mp hfields).2
    · next hform =>
      obtain ⟨element, helement, rfl⟩ := Option.map_eq_some_iff.mp h
      rw [Form.word_of_ofWord? hform]
      exact .tagged ((Ident.reads d content hcontent element).mp helement).2
    · cases h
  · cases h

theorem TypeBody.ofJson?_of_presents {b : TypeBody} (hj : j.depth ≤ d) (h : b.Presents j) :
    TypeBody.ofJson? d j = some b := by
  cases b with
  | synonym target =>
    obtain ⟨k, v, rfl, rfl, hv, hcontent⟩ := h.exists_content hj
    have hread := (Ident.reads k v hv target).mpr ⟨trivial, hcontent⟩
    simp [TypeBody.ofJson?, Form.ofWord?_word, hread]
  | record fields =>
    obtain ⟨k, v, rfl, rfl, hv, hcontent⟩ := h.exists_content hj
    have hread := (TypedName.reads_list k v hv fields).mpr ⟨trivial, hcontent⟩
    simp [TypeBody.ofJson?, Form.ofWord?_word, hread]
  | array element =>
    obtain ⟨k, v, rfl, rfl, hv, hcontent⟩ := h.exists_content hj
    have hread := (Ident.reads k v hv element).mpr ⟨trivial, hcontent⟩
    simp [TypeBody.ofJson?, Form.ofWord?_word, hread]

theorem TypeBody.reads (d : ℕ) : Reads (TypeBody.ofJson? d) (fun _ => True) TypeBody.Presents d :=
  fun _ hj _ => ⟨fun h => ⟨trivial, presents_of_ofJson? hj h⟩, fun h => ofJson?_of_presents hj h.2⟩

theorem TypeDec.ofJson?_eq_some {dec : TypeDec} : TypeDec.ofJson? (d + 1) j = some dec ↔
    ∃ vs, j.fields? ["name", "ty", "loc"] = some vs ∧ Meets [fun v => v.bind (Ident.ofJson? d) = some dec.name,
      fun v => v.bind (TypeBody.ofJson? d) = some dec.body, fun v => Location.ofField? d v = some dec.loc] vs := by
  cases dec
  rw [TypeDec.ofJson?]
  split <;> simp_all [Option.bind_eq_some_iff]

theorem TypeDec.reads (d : ℕ) : Reads (TypeDec.ofJson? d) (fun _ => True) TypeDec.Presents d := by
  refine .of_pos (fun _ => rfl) (fun _ _ h => h.depth_pos) fun d _ j hj dec => ?_
  rw [TypeDec.ofJson?_eq_some]
  refine (Json.structure_read ["name", "ty", "loc"] [.required "name" (Ident.reads d) dec.name,
    .required "ty" (TypeBody.reads d) dec.body, .loc d dec.loc] rfl (by decide) hj).trans (and_congr_left' ?_)
  simp [FieldRead.required, FieldRead.loc]

/-! ## Operators -/

theorem BinOp.presents_of_ofJson? {op : BinOp} (h : BinOp.ofJson? d j = some op) : op.Presents j := by
  unfold BinOp.ofJson? at h
  split at h
  · rw [word_of_ofWord? h]
    exact .bare trivial
  · rw [word_of_ofWord? h]
    exact .tagged rfl
  · cases h

theorem BinOp.reads (d : ℕ) : Reads (BinOp.ofJson? d) (fun _ => True) BinOp.Presents d := by
  refine fun j hj op => ⟨fun h => ⟨trivial, presents_of_ofJson? h⟩, fun h => ?_⟩
  obtain @⟨v, rfl⟩ | - := h.2
  · rw [Json.depth_single] at hj
    obtain ⟨k, rfl⟩ : ∃ k, d = k + 1 := ⟨d - 1, by omega⟩
    rw [BinOp.ofJson?, ofWord?_word]
  · rw [BinOp.ofJson?, ofWord?_word]

end TigerCheck
