import TigerCheck.Proofs.Decode.Forms

/-!
# Reading trees

The readers of expressions, variables and declarations find exactly the fresh trees of which a value is a way to
write them. The induction is on the depth: a node, its form and its content are each one level deeper.

* `Tree.Read.parts`, `Tree.Read.leaf`, `Tree.Read.tagged`: forms of expressions with their contents.
* `Tree.Read.expNode`, `Tree.Read.varNode`, `Tree.Read.decNode`: nodes.
* **`Tree.read`**: the readers of trees. **`Program.reads`**: the reader of programs.
-/

namespace TigerCheck

open Json (Structure Choice Reads FieldRead Meets)
open Json.Part (required)

variable {d : ℕ} {m : Mark} {j : Json} {e : Exp} {v : Var} {dec : Dec}

/-! ## Expressions -/

/-- The forms whose content is the structure of their parts. -/
def Exp.Form.HasParts : Exp.Form → Prop
  | .var | .nil | .int | .string | .seq | .breakLoop => False
  | _ => True

theorem Exp.Content.depth_pos (h : e.Content j) (hf : e.form.HasParts) : 0 < j.depth := by
  cases e with
  | cond _ _ _ b => cases b <;> exact Json.Structure.depth_pos h
  | var | nil | int | string | seq | breakLoop => exact hf.elim
  | _ => exact Json.Structure.depth_pos h

namespace Tree.Read

variable (h : ∀ k < d, Tree.Read k) (hm : m.blank = m) (hj : j.depth ≤ d)

include h hm hj

/-- Forms with parts. -/
theorem parts {f : Exp.Form} (hf : f.HasParts) : Exp.partsOfJson? d m f j = some e ↔ e.Found m f j := by
  cases d with
  | zero =>
    rw [Exp.partsOfJson?_zero]
    exact ⟨nofun, fun hfound => absurd (hfound.content.depth_pos (hfound.form ▸ hf)) (by omega)⟩
  | succ d =>
    have h : ∀ k ≤ d, Tree.Read k := fun k hk => h k (Nat.lt_succ_of_le hk)
    cases f with
    | var | nil | int | string | seq | breakLoop => exact hf.elim
    | call => exact call h hm hj
    | binary => exact binary h hm hj
    | record => exact record h hm hj
    | assign => exact assign h hm hj
    | cond => exact cond h hm hj
    | whileLoop => exact whileLoop h hm hj
    | doWhile => exact doWhile h hm hj
    | forLoop => exact forLoop h hm hj
    | letIn => exact letIn h hm hj
    | array => exact array h hm hj

omit h hj in
/-- A form whose content is a number or a string, or missing. -/
theorem leaf {f : Exp.Form} (hf : f ∈ [.nil, .breakLoop, .int, .string]) :
    Exp.leaf? m f j = some e ↔ e.Found m f j := by
  simp only [List.mem_cons, List.not_mem_nil, or_false] at hf
  constructor
  · intro he
    unfold Exp.leaf? at he
    split at he
    · unfold Exp.contentless? at he
      split at he <;> cases he <;> exact ⟨rfl, rfl, by simp [hm], rfl⟩
    · split_ifs at he with hint
      obtain ⟨n, hn, rfl⟩ := Option.map_eq_some_iff.mp he
      exact ⟨hint.symm, rfl, by simp [hm], (Json.word64?_eq_some _ _).mp hn⟩
    · split_ifs at he with hstring
      cases he
      exact ⟨hstring.symm, rfl, by simp [hm], rfl⟩
    · cases he
  · rintro ⟨rfl, rfl, -, hc⟩
    cases e with
    | nil =>
      cases hc
      rfl
    | breakLoop =>
      cases hc
      rfl
    | int _ n =>
      cases hc
      have hn := (Json.word64?_eq_some (.int n.toInt) n).mpr rfl
      simp [Exp.leaf?, Exp.form, Exp.mark, hn]
    | string =>
      cases hc
      rfl
    | _ => simp [Exp.form] at hf

end Tree.Read

namespace Tree.Read

variable (h : ∀ k ≤ d, Tree.Read k) (hm : m.blank = m) (hj : j.depth ≤ d)

include h hm hj

/-- A form with its content. -/
theorem tagged (f : Exp.Form) : Exp.formOfJson? (d + 1) m (.obj [(f.word, j)]) = some e ↔ e.Found m f j := by
  have hless : ∀ k < d, Tree.Read k := fun k hk => h k hk.le
  have hparts := fun hf => parts (f := f) (e := e) hless hm hj hf
  rw [Exp.formOfJson?, Exp.Form.ofWord?_word]
  cases f with
  | call | binary | record | assign | cond | whileLoop | doWhile | forLoop | letIn | array => exact hparts trivial
  | nil | breakLoop | int | string => exact leaf hm (by simp)
  | var =>
    refine Option.map_eq_some_iff.trans ⟨?_, ?_⟩
    · rintro ⟨v, hv, rfl⟩
      obtain ⟨hfresh, hc⟩ := ((h d le_rfl).var j hj v).mp hv
      exact ⟨rfl, rfl, by simp [hm, hfresh], hc⟩
    · rintro ⟨hform, rfl, hfresh, hc⟩
      cases e with
      | var _ v => exact ⟨v, ((h d le_rfl).var j hj v).mpr ⟨(Exp.var.inj hfresh).2, hc⟩, rfl⟩
      | _ => cases hform
  | seq =>
    refine Option.map_eq_some_iff.trans ⟨?_, ?_⟩
    · rintro ⟨es, hes, rfl⟩
      obtain ⟨hfresh, hc⟩ := (exps hless j hj es).mp hes
      exact ⟨rfl, rfl, by simp [hm, hfresh], hc⟩
    · rintro ⟨hform, rfl, hfresh, hc⟩
      cases e with
      | seq _ es => exact ⟨es, (exps hless j hj es).mpr ⟨(Exp.seq.inj hfresh).2, hc⟩, rfl⟩
      | _ => cases hform

end Tree.Read

theorem Exp.formOfJson?_word {w : String} (he : Exp.formOfJson? d m (.str w) = some e) :
    w = e.form.word ∧ e.form.StandsAlone ∧ e.mark = m ∧ (m.blank = m → e.blank = e) := by
  rw [Exp.formOfJson?] at he
  obtain ⟨f, hf, he⟩ := Option.bind_eq_some_iff.mp he
  rw [Form.word_of_ofWord? hf]
  unfold Exp.contentless? at he
  split at he <;> cases he
  · exact ⟨rfl, .inl rfl, rfl, fun hm => by simp [hm]⟩
  · exact ⟨rfl, .inr rfl, rfl, fun hm => by simp [hm]⟩

theorem Exp.formOfJson?_of_standsAlone (he : e.form.StandsAlone) (d : ℕ) :
    Exp.formOfJson? d e.mark (.str e.form.word) = some e := by
  rw [Exp.formOfJson?, Exp.Form.ofWord?_word]
  cases e with
  | nil | breakLoop => rfl
  | _ => simp [Exp.form, Exp.Form.StandsAlone] at he

theorem Exp.exists_of_formOfJson?_obj {members : List (String × Json)}
    (he : Exp.formOfJson? d m (.obj members) = some e) : ∃ k f v, d = k + 1 ∧ members = [(Form.word f, v)] := by
  unfold Exp.formOfJson? at he
  split at he
  · next h => cases h
  · next k word content h =>
    cases h
    obtain ⟨f, hf, -⟩ := Option.bind_eq_some_iff.mp he
    exact ⟨k, f, content, rfl, by rw [Form.word_of_ofWord? hf]⟩
  · cases he

/-- A form is read with its content. -/
theorem Tree.Read.form (h : ∀ k < d, Tree.Read k) (hm : m.blank = m) :
    Reads (Exp.formOfJson? d m) (fun e => e.mark = m ∧ e.blank = e)
      (fun e => Choice e.form.word e.Content e.form.StandsAlone) d := by
  intro j hj e
  constructor
  · intro he
    cases j with
    | str w =>
      obtain ⟨rfl, halone, hmark, hfresh⟩ := Exp.formOfJson?_word he
      exact ⟨⟨hmark, hfresh hm⟩, .bare halone⟩
    | obj members =>
      obtain ⟨k, f, v, rfl, rfl⟩ := Exp.exists_of_formOfJson?_obj he
      rw [Json.depth_single] at hj
      obtain ⟨rfl, hmark, hfresh, hc⟩ := (tagged (fun l hl => h l (Nat.lt_succ_of_le hl)) hm
        (Nat.le_of_succ_le_succ hj) f).mp he
      exact ⟨⟨hmark, hfresh⟩, .tagged hc⟩
    | null | bool | int | decimal | unpaired | arr => cases d <;> cases he
  · rintro ⟨⟨rfl, hfresh⟩, @⟨v, hc⟩ | halone⟩
    · rw [Json.depth_single] at hj
      obtain ⟨k, rfl⟩ : ∃ k, d = k + 1 := ⟨d - 1, by omega⟩
      exact (tagged (fun l hl => h l (Nat.lt_succ_of_le hl)) hm (Nat.le_of_succ_le_succ hj) e.form).mpr
        ⟨rfl, rfl, hfresh, hc⟩
    · exact Exp.formOfJson?_of_standsAlone halone d

theorem Exp.ofJson?_eq_some : Exp.ofJson? (d + 1) j = some e ↔
    ∃ l, ∃ vs, j.fields? ["kind", "loc"] = some vs ∧
      Meets [fun v => v.bind (Exp.formOfJson? d { loc := l }) = some e, fun v => Location.ofField? d v = some l] vs := by
  rw [Exp.ofJson?]
  split <;> simp_all [Option.bind_eq_some_iff, and_comm]

theorem Exp.mark_eq_of_blank (he : e.blank = e) : e.mark = { loc := e.loc } := by
  have hmark : e.blank.mark = e.mark.blank := by
    cases e with
    | cond _ _ _ b => cases b <;> rfl
    | _ => rfl
  rw [he] at hmark
  exact hmark

/-- An expression is read with its form and its place. -/
theorem Tree.Read.expNode (h : ∀ k < d, Tree.Read k) :
    Reads (Exp.ofJson? d) (fun e => e.blank = e) Exp.Presents d := by
  refine .of_pos (fun _ => rfl) (fun _ _ h => h.depth_pos) fun d hd j hj e => ?_
  subst hd
  have hread : ∀ l : Location, _ ↔ (e.mark = { loc := l } ∧ e.blank = e) ∧
      Structure [required "kind" (Choice e.form.word e.Content e.form.StandsAlone), l.part] j := fun l =>
    (Json.structure_read ["kind", "loc"] [.required "kind" (Tree.Read.form (m := { loc := l })
      (fun k hk => h k (hk.trans (Nat.lt_succ_self d))) rfl) e, .loc d l] rfl (by decide) hj).trans
      (and_congr_left' (by simp [FieldRead.required, FieldRead.loc]))
  rw [Exp.ofJson?_eq_some]
  constructor
  · rintro ⟨l, hfields⟩
    obtain ⟨⟨hmark, hfresh⟩, hs⟩ := (hread l).mp hfields
    obtain rfl : e.loc = l := congrArg Mark.loc hmark
    exact ⟨hfresh, hs⟩
  · rintro ⟨hfresh, hs⟩
    exact ⟨e.loc, (hread e.loc).mpr ⟨⟨Exp.mark_eq_of_blank hfresh, hfresh⟩, hs⟩⟩

/-! ## Variables -/

theorem Var.partsOfJson?_simple : Var.partsOfJson? (d + 1) m .simple j = some v ↔
    ∃ name, (∃ vs, j.fields? ["name"] = some vs ∧ Meets [fun v => v.bind Json.text? = some name] vs) ∧
      .simple m name none = v := by
  rw [Var.partsOfJson?]
  split <;> simp_all [Option.bind_eq_some_iff]

theorem Var.partsOfJson?_field : Var.partsOfJson? (d + 1) m .field j = some v ↔
    ∃ base name, (∃ vs, j.fields? ["base", "field"] = some vs ∧ Meets [fun v => v.bind (Var.ofJson? d) = some base,
      fun v => v.bind (Ident.ofJson? d) = some name] vs) ∧ .field m base name none = v := by
  rw [Var.partsOfJson?]
  split <;> simp_all [Option.bind_eq_some_iff, and_assoc]

theorem Var.partsOfJson?_element : Var.partsOfJson? (d + 1) m .element j = some v ↔
    ∃ base index, (∃ vs, j.fields? ["base", "index"] = some vs ∧ Meets [fun v => v.bind (Var.ofJson? d) = some base,
      fun v => v.bind (Exp.ofJson? d) = some index] vs) ∧ .element m base index = v := by
  rw [Var.partsOfJson?]
  split <;> simp_all [Option.bind_eq_some_iff, and_assoc]

/-- A fresh variable of a form, with the mark and the content that are given. -/
structure Var.Found (m : Mark) (f : Form) (j : Json) (v : Var) : Prop where
  form : v.form = f
  mark : v.mark = m
  fresh : v.blank = v
  content : v.Content j

theorem Var.Content.depth_pos (h : v.Content j) : 0 < j.depth := by
  cases v <;> exact Json.Structure.depth_pos h

namespace Tree.Read

section

variable (h : ∀ k ≤ d, Tree.Read k) (hm : m.blank = m) (hj : j.depth ≤ d + 1)

include hm hj in
theorem simple : Var.partsOfJson? (d + 1) m .simple j = some v ↔ v.Found m .simple j := by
  have hread : ∀ name, _ ↔ True ∧ (Var.simple m name none).Content j := fun name =>
    (Json.structure_read ["name"] [.required "name" (reads_text d) name] rfl (by decide) hj).trans
      (and_congr_left' (by simp [FieldRead.required]))
  rw [Var.partsOfJson?_simple]
  constructor
  · rintro ⟨name, hfields, rfl⟩
    exact ⟨rfl, rfl, by simp [hm], ((hread name).mp hfields).2⟩
  · rintro ⟨hform, rfl, hfresh, hc⟩
    cases v with
    | simple _ name _ =>
      obtain ⟨-, -, rfl⟩ := Var.simple.inj hfresh
      exact ⟨name, (hread name).mpr ⟨trivial, hc⟩, rfl⟩
    | _ => cases hform

include h hm hj

theorem field : Var.partsOfJson? (d + 1) m .field j = some v ↔ v.Found m .field j := by
  have hread : ∀ base name, _ ↔ base.blank = base ∧ (Var.field m base name none).Content j := fun base name =>
    (Json.structure_read ["base", "field"] [.required "base" (h d le_rfl).var base,
      .required "field" (Ident.reads d) name] rfl (by decide) hj).trans
      (and_congr_left' (by simp [FieldRead.required]))
  rw [Var.partsOfJson?_field]
  constructor
  · rintro ⟨base, name, hfields, rfl⟩
    obtain ⟨hfresh, hc⟩ := (hread base name).mp hfields
    exact ⟨rfl, rfl, by simp [hm, hfresh], hc⟩
  · rintro ⟨hform, rfl, hfresh, hc⟩
    cases v with
    | field _ base name _ =>
      obtain ⟨-, hbase, -, rfl⟩ := Var.field.inj hfresh
      exact ⟨base, name, (hread base name).mpr ⟨hbase, hc⟩, rfl⟩
    | _ => cases hform

theorem element : Var.partsOfJson? (d + 1) m .element j = some v ↔ v.Found m .element j := by
  have hread : ∀ base index, _ ↔ (base.blank = base ∧ index.blank = index) ∧ (Var.element m base index).Content j :=
    fun base index => (Json.structure_read ["base", "index"] [.required "base" (h d le_rfl).var base,
      .required "index" (h d le_rfl).exp index] rfl (by decide) hj).trans
      (and_congr_left' (by simp [FieldRead.required]))
  rw [Var.partsOfJson?_element]
  constructor
  · rintro ⟨base, index, hfields, rfl⟩
    obtain ⟨hfresh, hc⟩ := (hread base index).mp hfields
    exact ⟨rfl, rfl, by simp [hm, hfresh], hc⟩
  · rintro ⟨hform, rfl, hfresh, hc⟩
    cases v with
    | element _ base index =>
      obtain ⟨-, hbase, hindex⟩ := Var.element.inj hfresh
      exact ⟨base, index, (hread base index).mpr ⟨⟨hbase, hindex⟩, hc⟩, rfl⟩
    | _ => cases hform

end

/-- Variables of all forms. -/
theorem varParts (h : ∀ k < d, Tree.Read k) (hm : m.blank = m) (hj : j.depth ≤ d) (f : Var.Form) :
    Var.partsOfJson? d m f j = some v ↔ v.Found m f j := by
  cases d with
  | zero =>
    rw [Var.partsOfJson?_zero]
    exact ⟨nofun, fun hfound => absurd hfound.content.depth_pos (by omega)⟩
  | succ d =>
    have h : ∀ k ≤ d, Tree.Read k := fun k hk => h k (Nat.lt_succ_of_le hk)
    cases f with
    | simple => exact simple hm hj
    | field => exact field h hm hj
    | element => exact element h hm hj

/-- A form of variables is read with its content. -/
theorem varForm (h : ∀ k < d, Tree.Read k) (hm : m.blank = m) :
    Reads (Var.formOfJson? d m) (fun v => v.mark = m ∧ v.blank = v)
      (fun v => Choice v.form.word v.Content False) d := by
  intro j hj v
  constructor
  · intro hv
    unfold Var.formOfJson? at hv
    split at hv
    · next d word content =>
      obtain ⟨f, hf, hv⟩ := Option.bind_eq_some_iff.mp hv
      rw [Json.depth_single] at hj
      obtain ⟨rfl, hmark, hfresh, hc⟩ := (varParts (fun k hk => h k (hk.trans (Nat.lt_succ_self d))) hm
        (Nat.le_of_succ_le_succ hj) f).mp hv
      rw [Var.Form.word_of_ofWord? hf]
      exact ⟨⟨hmark, hfresh⟩, .tagged hc⟩
    · cases hv
  · rintro ⟨⟨rfl, hfresh⟩, hchoice⟩
    obtain ⟨k, content, rfl, rfl, hcontent, hc⟩ := hchoice.exists_content hj
    have hread := (varParts (fun l hl => h l (hl.trans (Nat.lt_succ_self k))) hm hcontent v.form).mpr
      ⟨rfl, rfl, hfresh, hc⟩
    simp [Var.formOfJson?, Var.Form.ofWord?_word, hread]

end Tree.Read

theorem Var.ofJson?_eq_some : Var.ofJson? (d + 1) j = some v ↔
    ∃ l, ∃ vs, j.fields? ["kind", "loc"] = some vs ∧
      Meets [fun w => w.bind (Var.formOfJson? d { loc := l }) = some v, fun w => Location.ofField? d w = some l] vs := by
  rw [Var.ofJson?]
  split <;> simp_all [Option.bind_eq_some_iff, and_comm]

theorem Var.mark_eq_of_blank (hv : v.blank = v) : v.mark = { loc := v.loc } := by
  have hmark : v.blank.mark = v.mark.blank := by cases v <;> rfl
  rw [hv] at hmark
  exact hmark

/-- A variable is read with its form and its place. -/
theorem Tree.Read.varNode (h : ∀ k < d, Tree.Read k) :
    Reads (Var.ofJson? d) (fun v => v.blank = v) Var.Presents d := by
  refine .of_pos (fun _ => rfl) (fun _ _ h => h.depth_pos) fun d hd j hj v => ?_
  subst hd
  have hread : ∀ l : Location, _ ↔ (v.mark = { loc := l } ∧ v.blank = v) ∧
      Structure [required "kind" (Choice v.form.word v.Content False), l.part] j := fun l =>
    (Json.structure_read ["kind", "loc"] [.required "kind" (Tree.Read.varForm (m := { loc := l })
      (fun k hk => h k (hk.trans (Nat.lt_succ_self d))) rfl) v, .loc d l] rfl (by decide) hj).trans
      (and_congr_left' (by simp [FieldRead.required, FieldRead.loc]))
  rw [Var.ofJson?_eq_some]
  constructor
  · rintro ⟨l, hfields⟩
    obtain ⟨⟨hmark, hfresh⟩, hs⟩ := (hread l).mp hfields
    obtain rfl : v.loc = l := congrArg Mark.loc hmark
    exact ⟨hfresh, hs⟩
  · rintro ⟨hfresh, hs⟩
    exact ⟨v.loc, (hread v.loc).mpr ⟨⟨Var.mark_eq_of_blank hfresh, hfresh⟩, hs⟩⟩

/-! ## Declarations -/

theorem Dec.functionOfJson?_eq_some : Dec.functionOfJson? (d + 1) j = some dec ↔
    ∃ name params result body loc, (∃ vs, j.fields? ["name", "params", "result", "body", "loc"] = some vs ∧
      Meets [fun v => v.bind (Ident.ofJson? d) = some name, fun v => v.bind (TypedName.listOfJson? d) = some params,
        fun v => Json.optional? (Ident.ofJson? d) v = some result, fun v => v.bind (Exp.ofJson? d) = some body,
        fun v => Location.ofField? d v = some loc] vs) ∧ .function ⟨name, params, result⟩ body loc none = dec := by
  rw [Dec.functionOfJson?]
  split <;> simp_all [Option.bind_eq_some_iff, and_assoc]

theorem Dec.varOfJson?_eq_some : Dec.varOfJson? (d + 1) j = some dec ↔
    ∃ name typeName init loc, (∃ vs, j.fields? ["name", "type_name", "init", "loc"] = some vs ∧
      Meets [fun v => v.bind (Ident.ofJson? d) = some name,
        fun v => Json.optional? (Ident.ofJson? d) v = some typeName, fun v => v.bind (Exp.ofJson? d) = some init,
        fun v => Location.ofField? d v = some loc] vs) ∧ .var name typeName init loc none = dec := by
  rw [Dec.varOfJson?]
  split <;> simp_all [Option.bind_eq_some_iff, and_assoc]

/-- A fresh declaration of a kind, with the content that is given. -/
structure Dec.Found (k : Kind) (j : Json) (dec : Dec) : Prop where
  kind : dec.kind = k
  fresh : dec.blank = dec
  content : dec.Content j

theorem Dec.Content.depth_pos (h : dec.Content j) : 0 < j.depth := by
  cases dec <;> exact Json.Structure.depth_pos h

namespace Tree.Read

theorem function (h : Tree.Read d) (hj : j.depth ≤ d + 1) :
    Dec.functionOfJson? (d + 1) j = some dec ↔ dec.Found .function j := by
  have hread : ∀ name params result body loc, _ ↔
      body.blank = body ∧ (Dec.function ⟨name, params, result⟩ body loc none).Content j :=
    fun name params result body loc => (Json.structure_read ["name", "params", "result", "body", "loc"]
      [.required "name" (Ident.reads d) name, .required "params" (TypedName.reads_list d) params,
        .nullable "result" (Ident.reads d) (fun _ => Json.Structure.ne_null) result, .required "body" h.exp body,
        .loc d loc] rfl (by decide) hj).trans
      (and_congr_left' (by simp [FieldRead.required, FieldRead.nullable, FieldRead.loc]))
  rw [Dec.functionOfJson?_eq_some]
  constructor
  · rintro ⟨name, params, result, body, loc, hfields, rfl⟩
    obtain ⟨hfresh, hc⟩ := (hread name params result body loc).mp hfields
    exact ⟨rfl, by simp [hfresh], hc⟩
  · rintro ⟨hkind, hfresh, hc⟩
    cases dec with
    | function head body loc _ =>
      obtain ⟨-, hbody, -, rfl⟩ := Dec.function.inj hfresh
      exact ⟨head.name, head.params, head.result, body, loc, (hread _ _ _ _ _).mpr ⟨hbody, hc⟩, rfl⟩
    | _ => cases hkind

theorem varDec (h : Tree.Read d) (hj : j.depth ≤ d + 1) :
    Dec.varOfJson? (d + 1) j = some dec ↔ dec.Found .var j := by
  have hread : ∀ name typeName init loc, _ ↔ init.blank = init ∧ (Dec.var name typeName init loc none).Content j :=
    fun name typeName init loc => (Json.structure_read ["name", "type_name", "init", "loc"]
      [.required "name" (Ident.reads d) name,
        .nullable "type_name" (Ident.reads d) (fun _ => Json.Structure.ne_null) typeName,
        .required "init" h.exp init, .loc d loc] rfl (by decide) hj).trans
      (and_congr_left' (by simp [FieldRead.required, FieldRead.nullable, FieldRead.loc]))
  rw [Dec.varOfJson?_eq_some]
  constructor
  · rintro ⟨name, typeName, init, loc, hfields, rfl⟩
    obtain ⟨hfresh, hc⟩ := (hread name typeName init loc).mp hfields
    exact ⟨rfl, by simp [hfresh], hc⟩
  · rintro ⟨hkind, hfresh, hc⟩
    cases dec with
    | var name typeName init loc _ =>
      obtain ⟨-, -, hinit, -, rfl⟩ := Dec.var.inj hfresh
      exact ⟨name, typeName, init, loc, (hread _ _ _ _).mpr ⟨hinit, hc⟩, rfl⟩
    | _ => cases hkind

/-- A kind of declarations with its content. -/
theorem decTagged (h : ∀ k < d, Tree.Read k) (hj : j.depth ≤ d) (k : Dec.Kind) :
    Dec.ofJson? (d + 1) (.obj [(k.word, j)]) = some dec ↔ dec.Found k j := by
  rw [Dec.ofJson?, Dec.Kind.ofWord?_word]
  cases k with
  | type =>
    refine Option.map_eq_some_iff.trans ⟨?_, ?_⟩
    · rintro ⟨td, htd, rfl⟩
      exact ⟨rfl, rfl, ((TypeDec.reads d j hj td).mp htd).2⟩
    · rintro ⟨hkind, -, hc⟩
      cases dec with
      | type td => exact ⟨td, (TypeDec.reads d j hj td).mpr ⟨trivial, hc⟩, rfl⟩
      | _ => cases hkind
  | function =>
    cases d with
    | zero => exact ⟨nofun, fun hfound => absurd hfound.content.depth_pos (by omega)⟩
    | succ d => exact (h d (Nat.lt_succ_self d)).function hj
  | var =>
    cases d with
    | zero => exact ⟨nofun, fun hfound => absurd hfound.content.depth_pos (by omega)⟩
    | succ d => exact (h d (Nat.lt_succ_self d)).varDec hj

/-- A declaration is read with its kind. -/
theorem decNode (h : ∀ k < d, Tree.Read k) : Reads (Dec.ofJson? d) (fun dec => dec.blank = dec) Dec.Presents d := by
  intro j hj dec
  constructor
  · intro hdec
    have hshape : ∃ k f v, d = k + 1 ∧ j = .obj [(Dec.Kind.word f, v)] := by
      unfold Dec.ofJson? at hdec
      split at hdec
      · next k word content =>
        obtain ⟨f, hf, -⟩ := Option.bind_eq_some_iff.mp hdec
        exact ⟨k, f, content, rfl, by rw [Dec.Kind.word_of_ofWord? hf]⟩
      · cases hdec
    obtain ⟨k, f, v, rfl, rfl⟩ := hshape
    rw [Json.depth_single] at hj
    obtain ⟨rfl, hfresh, hc⟩ := (decTagged (fun l hl => h l (hl.trans (Nat.lt_succ_self k)))
      (Nat.le_of_succ_le_succ hj) f).mp hdec
    exact ⟨hfresh, .tagged hc⟩
  · rintro ⟨hfresh, hchoice⟩
    obtain ⟨k, v, rfl, rfl, hv, hc⟩ := Choice.exists_content hchoice hj
    exact (decTagged (fun l hl => h l (hl.trans (Nat.lt_succ_self k))) hv dec.kind).mpr ⟨rfl, hfresh, hc⟩

end Tree.Read

/-- **The readers of trees find exactly the fresh trees of which a value is a way to write them.** -/
theorem Tree.read (d : ℕ) : Tree.Read d := by
  induction d using Nat.strongRecOn with
  | ind d ih => exact ⟨Tree.Read.expNode ih, Tree.Read.varNode ih, Tree.Read.decNode ih⟩

/-! ## Programs -/

theorem Program.ofJson?_eq_some {p : Program} : Program.ofJson? (d + 1) j = some p ↔
    ∃ vs, j.fields? ["body"] = some vs ∧ Meets [fun v => v.bind (Exp.ofJson? d) = some p.body] vs := by
  cases p
  rw [Program.ofJson?]
  split <;> simp_all [Option.bind_eq_some_iff]

/-- **The reader of programs** finds exactly the fresh programs of which a value is a way to write them. -/
theorem Program.reads (d : ℕ) : Reads (Program.ofJson? d) (fun p => p.body.blank = p.body) Program.Presents d := by
  refine .of_pos (fun _ => rfl) (fun _ _ h => h.depth_pos) fun d _ j hj p => ?_
  rw [Program.ofJson?_eq_some]
  refine (Json.structure_read ["body"] [.required "body" (Tree.read d).exp p.body] rfl (by decide) hj).trans
    (and_congr_left' ?_)
  simp [FieldRead.required]

end TigerCheck
