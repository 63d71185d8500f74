import TigerCheck.Proofs.Decode.Parts

/-!
# Reading the forms of expressions

If the readers of trees find what they should in all that is nested less deeply, the reader of each form of
expressions finds exactly the fresh expressions of that form of whose content a value is a way to write it.

* `Tree.Read`: what the readers of trees find at a depth.
* `Tree.Read.exps`, `Tree.Read.inits`, `Tree.Read.decs`: lists of trees.
* `Exp.partsOfJson?_call`, …: what the reader of a form does.
* `Exp.Found`: a fresh expression of a form with its content. `Tree.Read.call`, …: what the reader of a form finds.
-/

namespace TigerCheck

open Json (Items Reads FieldRead Meets)

variable {d : ℕ} {m : Mark} {j : Json} {e : Exp}

/-- The readers of trees find exactly the fresh trees of which a value is a way to write them. -/
structure Tree.Read (d : ℕ) : Prop where
  exp : Reads (Exp.ofJson? d) (fun e => e.blank = e) Exp.Presents d
  var : Reads (Var.ofJson? d) (fun v => v.blank = v) Var.Presents d
  dec : Reads (Dec.ofJson? d) (fun d => d.blank = d) Dec.Presents d

/-! ## No depth left -/

attribute [local simp] Exp.partsOfJson? Var.partsOfJson?

theorem Exp.partsOfJson?_zero (f : Exp.Form) : Exp.partsOfJson? 0 m f j = none := by
  cases f <;> simp

theorem Var.partsOfJson?_zero (f : Var.Form) : Var.partsOfJson? 0 m f j = none := by
  cases f <;> simp

/-! ## Lists -/

theorem blankAll_eq_self {es : List Exp} : blankAll es = es ↔ ∀ e ∈ es, e.blank = e := by
  induction es with
  | nil => simp
  | cons e es ih => simp [ih]

theorem blankInits_eq_self {inits : List (Ident × Exp)} :
    blankInits inits = inits ↔ ∀ i ∈ inits, i.2.blank = i.2 := by
  induction inits with
  | nil => simp
  | cons i inits ih =>
    rw [List.forall_mem_cons, ← ih, blankInits, List.cons.injEq, Prod.ext_iff]
    simp

theorem blankDecs_eq_self {ds : List Dec} : blankDecs ds = ds ↔ ∀ d ∈ ds, d.blank = d := by
  induction ds with
  | nil => simp
  | cons d ds ih => simp [ih]

theorem Exp.listOfJson?_eq_some (d : ℕ) (j : Json) (es : List Exp) : Exp.listOfJson? d j = some es ↔
    ∃ k vs, d = k + 1 ∧ j = .arr vs ∧ vs.mapM (Exp.ofJson? k) = some es := by
  cases d <;> cases j <;> simp [Exp.listOfJson?]

theorem Exp.initsOfJson?_eq_some (d : ℕ) (j : Json) (inits : List (Ident × Exp)) :
    Exp.initsOfJson? d j = some inits ↔
      ∃ k vs, d = k + 1 ∧ j = .arr vs ∧ vs.mapM (Exp.initOfJson? k) = some inits := by
  cases d <;> cases j <;> simp [Exp.initsOfJson?]

theorem Dec.listOfJson?_eq_some (d : ℕ) (j : Json) (ds : List Dec) : Dec.listOfJson? d j = some ds ↔
    ∃ k vs, d = k + 1 ∧ j = .arr vs ∧ vs.mapM (Dec.ofJson? k) = some ds := by
  cases d <;> cases j <;> simp [Dec.listOfJson?]

theorem Exp.initOfJson?_eq_some {i : Ident × Exp} : Exp.initOfJson? (d + 1) j = some i ↔
    ∃ vs, j.fields? ["name", "exp"] = some vs ∧ Meets [fun v => v.bind (Ident.ofJson? d) = some i.1,
      fun v => v.bind (Exp.ofJson? d) = some i.2] vs := by
  obtain ⟨name, e⟩ := i
  rw [Exp.initOfJson?]
  split <;> simp_all [Option.bind_eq_some_iff]

namespace Tree.Read

theorem exps (h : ∀ k < d, Tree.Read k) :
    Reads (Exp.listOfJson? d) (fun es => blankAll es = es) (fun es => Items (waysAll es)) d := by
  simp only [blankAll_eq_self, waysAll_eq]
  exact .items Exp.listOfJson?_eq_some fun k hk => (h k hk).exp

theorem decs (h : ∀ k < d, Tree.Read k) :
    Reads (Dec.listOfJson? d) (fun ds => blankDecs ds = ds) (fun ds => Items (waysDecs ds)) d := by
  simp only [blankDecs_eq_self, waysDecs_eq]
  exact .items Dec.listOfJson?_eq_some fun k hk => (h k hk).dec

theorem init (h : ∀ k < d, Tree.Read k) :
    Reads (Exp.initOfJson? d) (fun i => i.2.blank = i.2) presentsInit d := by
  refine .of_pos (fun _ => rfl) (fun _ _ h => h.depth_pos) fun d hd j hj i => ?_
  rw [Exp.initOfJson?_eq_some]
  refine (Json.structure_read ["name", "exp"] [.required "name" (Ident.reads d) i.1,
    .required "exp" (h d (by omega)).exp i.2] rfl (by decide) hj).trans (and_congr_left' ?_)
  simp [FieldRead.required]

theorem inits (h : ∀ k < d, Tree.Read k) :
    Reads (Exp.initsOfJson? d) (fun inits => blankInits inits = inits) (fun inits => Items (waysInits inits)) d := by
  simp only [blankInits_eq_self, waysInits_eq]
  exact .items Exp.initsOfJson?_eq_some fun k hk => init fun l hl => h l (hl.trans hk)

end Tree.Read

/-! ## Forms with parts -/

theorem Exp.partsOfJson?_call : Exp.partsOfJson? (d + 1) m .call j = some e ↔
    ∃ f args, (∃ vs, j.fields? ["func", "args"] = some vs ∧ Meets [fun v => v.bind (Ident.ofJson? d) = some f,
      fun v => v.bind (Exp.listOfJson? d) = some args] vs) ∧ .call m f args none = e := by
  rw [Exp.partsOfJson?]
  split <;> simp_all [Option.bind_eq_some_iff, and_assoc]

theorem Exp.partsOfJson?_binary : Exp.partsOfJson? (d + 1) m .binary j = some e ↔
    ∃ op l r, (∃ vs, j.fields? ["op", "left", "right"] = some vs ∧ Meets [fun v => v.bind (BinOp.ofJson? d) = some op,
      fun v => v.bind (Exp.ofJson? d) = some l, fun v => v.bind (Exp.ofJson? d) = some r] vs) ∧
      .binary m op l r = e := by
  rw [Exp.partsOfJson?]
  split <;> simp_all [Option.bind_eq_some_iff, and_assoc]

theorem Exp.partsOfJson?_record : Exp.partsOfJson? (d + 1) m .record j = some e ↔
    ∃ t inits, (∃ vs, j.fields? ["type_name", "fields"] = some vs ∧ Meets [fun v => v.bind (Ident.ofJson? d) = some t,
      fun v => v.bind (Exp.initsOfJson? d) = some inits] vs) ∧ .record m t inits = e := by
  rw [Exp.partsOfJson?]
  split <;> simp_all [Option.bind_eq_some_iff, and_assoc]

theorem Exp.partsOfJson?_assign : Exp.partsOfJson? (d + 1) m .assign j = some e ↔
    ∃ t x, (∃ vs, j.fields? ["var", "exp"] = some vs ∧ Meets [fun v => v.bind (Var.ofJson? d) = some t,
      fun v => v.bind (Exp.ofJson? d) = some x] vs) ∧ .assign m t x = e := by
  rw [Exp.partsOfJson?]
  split <;> simp_all [Option.bind_eq_some_iff, and_assoc]

theorem Exp.partsOfJson?_cond : Exp.partsOfJson? (d + 1) m .cond j = some e ↔
    ∃ t a b, (∃ vs, j.fields? ["test", "then", "else"] = some vs ∧ Meets [fun v => v.bind (Exp.ofJson? d) = some t,
      fun v => v.bind (Exp.ofJson? d) = some a, fun v => Json.optional? (Exp.ofJson? d) v = some b] vs) ∧
      .cond m t a b = e := by
  rw [Exp.partsOfJson?]
  split <;> simp_all [Option.bind_eq_some_iff, and_assoc]

theorem Exp.partsOfJson?_whileLoop : Exp.partsOfJson? (d + 1) m .whileLoop j = some e ↔
    ∃ t b, (∃ vs, j.fields? ["test", "body"] = some vs ∧ Meets [fun v => v.bind (Exp.ofJson? d) = some t,
      fun v => v.bind (Exp.ofJson? d) = some b] vs) ∧ .whileLoop m t b = e := by
  rw [Exp.partsOfJson?]
  split <;> simp_all [Option.bind_eq_some_iff, and_assoc]

theorem Exp.partsOfJson?_doWhile : Exp.partsOfJson? (d + 1) m .doWhile j = some e ↔
    ∃ b t, (∃ vs, j.fields? ["body", "test"] = some vs ∧ Meets [fun v => v.bind (Exp.ofJson? d) = some b,
      fun v => v.bind (Exp.ofJson? d) = some t] vs) ∧ .doWhile m b t = e := by
  rw [Exp.partsOfJson?]
  split <;> simp_all [Option.bind_eq_some_iff, and_assoc]

theorem Exp.partsOfJson?_forLoop : Exp.partsOfJson? (d + 1) m .forLoop j = some e ↔
    ∃ c l h b, (∃ vs, j.fields? ["var", "low", "high", "body"] = some vs ∧
      Meets [fun v => v.bind (Ident.ofJson? d) = some c, fun v => v.bind (Exp.ofJson? d) = some l,
        fun v => v.bind (Exp.ofJson? d) = some h, fun v => v.bind (Exp.ofJson? d) = some b] vs) ∧
      .forLoop m c l h b none = e := by
  rw [Exp.partsOfJson?]
  split <;> simp_all [Option.bind_eq_some_iff, and_assoc]

theorem Exp.partsOfJson?_letIn : Exp.partsOfJson? (d + 1) m .letIn j = some e ↔
    ∃ ds b, (∃ vs, j.fields? ["decs", "body"] = some vs ∧ Meets [fun v => v.bind (Dec.listOfJson? d) = some ds,
      fun v => v.bind (Exp.ofJson? d) = some b] vs) ∧ .letIn m ds b = e := by
  rw [Exp.partsOfJson?]
  split <;> simp_all [Option.bind_eq_some_iff, and_assoc]

theorem Exp.partsOfJson?_array : Exp.partsOfJson? (d + 1) m .array j = some e ↔
    ∃ t s i, (∃ vs, j.fields? ["type_name", "size", "init"] = some vs ∧
      Meets [fun v => v.bind (Ident.ofJson? d) = some t, fun v => v.bind (Exp.ofJson? d) = some s,
        fun v => v.bind (Exp.ofJson? d) = some i] vs) ∧ .array m t s i = e := by
  rw [Exp.partsOfJson?]
  split <;> simp_all [Option.bind_eq_some_iff, and_assoc]

/-- A fresh expression of a form, with the mark and the content that are given. -/
structure Exp.Found (m : Mark) (f : Form) (j : Json) (e : Exp) : Prop where
  form : e.form = f
  mark : e.mark = m
  fresh : e.blank = e
  content : e.Content j

namespace Tree.Read

variable (h : ∀ k ≤ d, Tree.Read k) (hm : m.blank = m) (hj : j.depth ≤ d + 1)

include h hm hj

theorem call : Exp.partsOfJson? (d + 1) m .call j = some e ↔ e.Found m .call j := by
  have hread : ∀ f args, _ ↔ blankAll args = args ∧ (Exp.call m f args none).Content j := fun f args =>
    (Json.structure_read ["func", "args"] [.required "func" (Ident.reads d) f,
      .required "args" (Tree.Read.exps fun k hk => h k hk.le) args] rfl (by decide) hj).trans
      (and_congr_left' (by simp [FieldRead.required]))
  rw [Exp.partsOfJson?_call]
  constructor
  · rintro ⟨f, args, hfields, rfl⟩
    obtain ⟨hfresh, hc⟩ := (hread f args).mp hfields
    exact ⟨rfl, rfl, by simp [hm, hfresh], hc⟩
  · rintro ⟨hform, rfl, hfresh, hc⟩
    cases e with
    | call _ f args _ =>
      obtain ⟨-, -, hargs, rfl⟩ := Exp.call.inj hfresh
      exact ⟨f, args, (hread f args).mpr ⟨hargs, hc⟩, rfl⟩
    | _ => cases hform

theorem binary : Exp.partsOfJson? (d + 1) m .binary j = some e ↔ e.Found m .binary j := by
  have hread : ∀ op l r, _ ↔ (l.blank = l ∧ r.blank = r) ∧ (Exp.binary m op l r).Content j := fun op l r =>
    (Json.structure_read ["op", "left", "right"] [.required "op" (BinOp.reads d) op,
      .required "left" (h d le_rfl).exp l, .required "right" (h d le_rfl).exp r] rfl (by decide) hj).trans
      (and_congr_left' (by simp [FieldRead.required]))
  rw [Exp.partsOfJson?_binary]
  constructor
  · rintro ⟨op, l, r, hfields, rfl⟩
    obtain ⟨hfresh, hc⟩ := (hread op l r).mp hfields
    exact ⟨rfl, rfl, by simp [hm, hfresh], hc⟩
  · rintro ⟨hform, rfl, hfresh, hc⟩
    cases e with
    | binary _ op l r =>
      obtain ⟨-, -, hl, hr⟩ := Exp.binary.inj hfresh
      exact ⟨op, l, r, (hread op l r).mpr ⟨⟨hl, hr⟩, hc⟩, rfl⟩
    | _ => cases hform

theorem record : Exp.partsOfJson? (d + 1) m .record j = some e ↔ e.Found m .record j := by
  have hread : ∀ t inits, _ ↔ blankInits inits = inits ∧ (Exp.record m t inits).Content j := fun t inits =>
    (Json.structure_read ["type_name", "fields"] [.required "type_name" (Ident.reads d) t,
      .required "fields" (Tree.Read.inits fun k hk => h k hk.le) inits] rfl (by decide) hj).trans
      (and_congr_left' (by simp [FieldRead.required]))
  rw [Exp.partsOfJson?_record]
  constructor
  · rintro ⟨t, inits, hfields, rfl⟩
    obtain ⟨hfresh, hc⟩ := (hread t inits).mp hfields
    exact ⟨rfl, rfl, by simp [hm, hfresh], hc⟩
  · rintro ⟨hform, rfl, hfresh, hc⟩
    cases e with
    | record _ t inits =>
      obtain ⟨-, -, hinits⟩ := Exp.record.inj hfresh
      exact ⟨t, inits, (hread t inits).mpr ⟨hinits, hc⟩, rfl⟩
    | _ => cases hform

theorem assign : Exp.partsOfJson? (d + 1) m .assign j = some e ↔ e.Found m .assign j := by
  have hread : ∀ t x, _ ↔ (t.blank = t ∧ x.blank = x) ∧ (Exp.assign m t x).Content j := fun t x =>
    (Json.structure_read ["var", "exp"] [.required "var" (h d le_rfl).var t, .required "exp" (h d le_rfl).exp x]
      rfl (by decide) hj).trans
      (and_congr_left' (by simp [FieldRead.required]))
  rw [Exp.partsOfJson?_assign]
  constructor
  · rintro ⟨t, x, hfields, rfl⟩
    obtain ⟨hfresh, hc⟩ := (hread t x).mp hfields
    exact ⟨rfl, rfl, by simp [hm, hfresh], hc⟩
  · rintro ⟨hform, rfl, hfresh, hc⟩
    cases e with
    | assign _ t x =>
      obtain ⟨-, ht, hx⟩ := Exp.assign.inj hfresh
      exact ⟨t, x, (hread t x).mpr ⟨⟨ht, hx⟩, hc⟩, rfl⟩
    | _ => cases hform

theorem cond : Exp.partsOfJson? (d + 1) m .cond j = some e ↔ e.Found m .cond j := by
  have hread : ∀ t a b, _ ↔ (t.blank = t ∧ a.blank = a ∧ ∀ x ∈ b, Exp.blank x = x) ∧ (Exp.cond m t a b).Content j :=
    fun t a b => (Json.structure_read ["test", "then", "else"] [.required "test" (h d le_rfl).exp t,
      .required "then" (h d le_rfl).exp a, .nullable "else" (h d le_rfl).exp (fun _ => Json.Structure.ne_null) b]
      rfl (by decide) hj).trans (and_congr (by simp [FieldRead.required, FieldRead.nullable]) (by cases b <;> rfl))
  have hblank : ∀ t a (b : Option Exp), (Exp.cond m t a b).blank = .cond m t a b ↔
      t.blank = t ∧ a.blank = a ∧ ∀ x ∈ b, Exp.blank x = x := fun t a b => by
    cases b <;> simp [hm]
  rw [Exp.partsOfJson?_cond]
  constructor
  · rintro ⟨t, a, b, hfields, rfl⟩
    obtain ⟨hfresh, hc⟩ := (hread t a b).mp hfields
    exact ⟨rfl, rfl, (hblank t a b).mpr hfresh, hc⟩
  · rintro ⟨hform, rfl, hfresh, hc⟩
    cases e with
    | cond _ t a b => exact ⟨t, a, b, (hread t a b).mpr ⟨(hblank t a b).mp hfresh, hc⟩, rfl⟩
    | _ => cases hform

theorem whileLoop : Exp.partsOfJson? (d + 1) m .whileLoop j = some e ↔ e.Found m .whileLoop j := by
  have hread : ∀ t b, _ ↔ (t.blank = t ∧ b.blank = b) ∧ (Exp.whileLoop m t b).Content j := fun t b =>
    (Json.structure_read ["test", "body"] [.required "test" (h d le_rfl).exp t,
      .required "body" (h d le_rfl).exp b] rfl (by decide) hj).trans
      (and_congr_left' (by simp [FieldRead.required]))
  rw [Exp.partsOfJson?_whileLoop]
  constructor
  · rintro ⟨t, b, hfields, rfl⟩
    obtain ⟨hfresh, hc⟩ := (hread t b).mp hfields
    exact ⟨rfl, rfl, by simp [hm, hfresh], hc⟩
  · rintro ⟨hform, rfl, hfresh, hc⟩
    cases e with
    | whileLoop _ t b =>
      obtain ⟨-, ht, hb⟩ := Exp.whileLoop.inj hfresh
      exact ⟨t, b, (hread t b).mpr ⟨⟨ht, hb⟩, hc⟩, rfl⟩
    | _ => cases hform

theorem doWhile : Exp.partsOfJson? (d + 1) m .doWhile j = some e ↔ e.Found m .doWhile j := by
  have hread : ∀ b t, _ ↔ (b.blank = b ∧ t.blank = t) ∧ (Exp.doWhile m b t).Content j := fun b t =>
    (Json.structure_read ["body", "test"] [.required "body" (h d le_rfl).exp b,
      .required "test" (h d le_rfl).exp t] rfl (by decide) hj).trans
      (and_congr_left' (by simp [FieldRead.required]))
  rw [Exp.partsOfJson?_doWhile]
  constructor
  · rintro ⟨b, t, hfields, rfl⟩
    obtain ⟨hfresh, hc⟩ := (hread b t).mp hfields
    exact ⟨rfl, rfl, by simp [hm, hfresh], hc⟩
  · rintro ⟨hform, rfl, hfresh, hc⟩
    cases e with
    | doWhile _ b t =>
      obtain ⟨-, hb, ht⟩ := Exp.doWhile.inj hfresh
      exact ⟨b, t, (hread b t).mpr ⟨⟨hb, ht⟩, hc⟩, rfl⟩
    | _ => cases hform

theorem forLoop : Exp.partsOfJson? (d + 1) m .forLoop j = some e ↔ e.Found m .forLoop j := by
  have hread : ∀ c l u b, _ ↔ (l.blank = l ∧ u.blank = u ∧ b.blank = b) ∧ (Exp.forLoop m c l u b none).Content j := fun c l u b =>
    (Json.structure_read ["var", "low", "high", "body"] [.required "var" (Ident.reads d) c,
      .required "low" (h d le_rfl).exp l, .required "high" (h d le_rfl).exp u,
      .required "body" (h d le_rfl).exp b] rfl (by decide) hj).trans
      (and_congr_left' (by simp [FieldRead.required]))
  rw [Exp.partsOfJson?_forLoop]
  constructor
  · rintro ⟨c, l, u, b, hfields, rfl⟩
    obtain ⟨hfresh, hc⟩ := (hread c l u b).mp hfields
    exact ⟨rfl, rfl, by simp [hm, hfresh], hc⟩
  · rintro ⟨hform, rfl, hfresh, hc⟩
    cases e with
    | forLoop _ c l u b _ =>
      obtain ⟨-, -, hl, hu, hb, rfl⟩ := Exp.forLoop.inj hfresh
      exact ⟨c, l, u, b, (hread c l u b).mpr ⟨⟨hl, hu, hb⟩, hc⟩, rfl⟩
    | _ => cases hform

theorem letIn : Exp.partsOfJson? (d + 1) m .letIn j = some e ↔ e.Found m .letIn j := by
  have hread : ∀ ds b, _ ↔ (blankDecs ds = ds ∧ b.blank = b) ∧ (Exp.letIn m ds b).Content j := fun ds b =>
    (Json.structure_read ["decs", "body"] [.required "decs" (Tree.Read.decs fun k hk => h k hk.le) ds,
      .required "body" (h d le_rfl).exp b] rfl (by decide) hj).trans
      (and_congr_left' (by simp [FieldRead.required]))
  rw [Exp.partsOfJson?_letIn]
  constructor
  · rintro ⟨ds, b, hfields, rfl⟩
    obtain ⟨hfresh, hc⟩ := (hread ds b).mp hfields
    exact ⟨rfl, rfl, by simp [hm, hfresh], hc⟩
  · rintro ⟨hform, rfl, hfresh, hc⟩
    cases e with
    | letIn _ ds b =>
      obtain ⟨-, hds, hb⟩ := Exp.letIn.inj hfresh
      exact ⟨ds, b, (hread ds b).mpr ⟨⟨hds, hb⟩, hc⟩, rfl⟩
    | _ => cases hform

theorem array : Exp.partsOfJson? (d + 1) m .array j = some e ↔ e.Found m .array j := by
  have hread : ∀ t s i, _ ↔ (s.blank = s ∧ i.blank = i) ∧ (Exp.array m t s i).Content j := fun t s i =>
    (Json.structure_read ["type_name", "size", "init"] [.required "type_name" (Ident.reads d) t,
      .required "size" (h d le_rfl).exp s, .required "init" (h d le_rfl).exp i] rfl (by decide) hj).trans
      (and_congr_left' (by simp [FieldRead.required]))
  rw [Exp.partsOfJson?_array]
  constructor
  · rintro ⟨t, s, i, hfields, rfl⟩
    obtain ⟨hfresh, hc⟩ := (hread t s i).mp hfields
    exact ⟨rfl, rfl, by simp [hm, hfresh], hc⟩
  · rintro ⟨hform, rfl, hfresh, hc⟩
    cases e with
    | array _ t s i =>
      obtain ⟨-, -, hs, hi⟩ := Exp.array.inj hfresh
      exact ⟨t, s, i, (hread t s i).mpr ⟨⟨hs, hi⟩, hc⟩, rfl⟩
    | _ => cases hform

end Tree.Read

end TigerCheck
