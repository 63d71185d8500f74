import Mathlib.Data.List.Forall2
import Mathlib.Data.List.SplitBy
import Mathlib.Order.Lattice
import TigerCheck.Proofs.Tree.Induction
import TigerCheck.Tree.Run

/-!
# Functions in another order

The functions of a run may call each other, so their order says nothing about what the program does. Two
programs are compared here that differ in the order of the functions in their runs: in any number of runs,
at any depth, in each of which no name occurs twice.

* `Dec.RunReordered`: a run, and the run with its functions in another order.
* `Exp.Reordered`, `Var.Reordered`, `Dec.Reordered`: the same tree but for the order of functions in runs.
* **`Exp.reordered_refl`**: no run needs to be changed.
* **`Exp.Reordered.nesting_eq`**: functions stay at their level.
-/

namespace TigerCheck

/-- The same run; or, where the order is free, functions with different names in another order. -/
inductive Dec.RunReordered (free : Prop) (run : List Dec) : List Dec → Prop where
  | same : Dec.RunReordered free run run
  | permuted {run' : List Dec} : free → (∀ d ∈ run, d.kind = .function) →
      (run.map (·.name.name)).Nodup → run.Perm run' → Dec.RunReordered free run run'

mutual

/-- The second expression is the first one but for the order of functions in runs. -/
def Exp.Reordered (free : Prop) : Exp → Exp → Prop
  | .var m v, f => ∃ v', f = .var m v' ∧ v.Reordered free v'
  | .nil m, f => f = .nil m
  | .int m n, f => f = .int m n
  | .string m s, f => f = .string m s
  | .call m callee args function, f =>
    ∃ args', f = .call m callee args' function ∧ reorderedAll free args args'
  | .binary m op left right, f =>
    ∃ left' right', f = .binary m op left' right' ∧ left.Reordered free left' ∧ right.Reordered free right'
  | .record m typeName inits, f =>
    ∃ inits', f = .record m typeName inits' ∧ reorderedInits free inits inits'
  | .seq m items, f => ∃ items', f = .seq m items' ∧ reorderedAll free items items'
  | .assign m target value, f =>
    ∃ target' value', f = .assign m target' value' ∧ target.Reordered free target' ∧
      value.Reordered free value'
  | .cond m test thenPart none, f =>
    ∃ test' thenPart', f = .cond m test' thenPart' none ∧ test.Reordered free test' ∧
      thenPart.Reordered free thenPart'
  | .cond m test thenPart (some elsePart), f =>
    ∃ test' thenPart' elsePart', f = .cond m test' thenPart' (some elsePart') ∧
      test.Reordered free test' ∧ thenPart.Reordered free thenPart' ∧ elsePart.Reordered free elsePart'
  | .whileLoop m test body, f =>
    ∃ test' body', f = .whileLoop m test' body' ∧ test.Reordered free test' ∧ body.Reordered free body'
  | .doWhile m body test, f =>
    ∃ body' test', f = .doWhile m body' test' ∧ body.Reordered free body' ∧ test.Reordered free test'
  | .forLoop m counter low high body slot, f =>
    ∃ low' high' body', f = .forLoop m counter low' high' body' slot ∧ low.Reordered free low' ∧
      high.Reordered free high' ∧ body.Reordered free body'
  | .breakLoop m, f => f = .breakLoop m
  | .letIn m decs body, f =>
    ∃ decs₁ decs' body', f = .letIn m decs' body' ∧ reorderedDecs free decs decs₁ ∧
      List.Forall₂ (Dec.RunReordered free) (Dec.runs decs₁) (Dec.runs decs') ∧ body.Reordered free body'
  | .array m typeName size init, f =>
    ∃ size' init', f = .array m typeName size' init' ∧ size.Reordered free size' ∧
      init.Reordered free init'
termination_by structural x => x

/-- The second variable is the first one but for the order of functions in runs. -/
def Var.Reordered (free : Prop) : Var → Var → Prop
  | .simple m name binding, w => w = .simple m name binding
  | .field m base name position, w => ∃ base', w = .field m base' name position ∧ base.Reordered free base'
  | .element m base index, w =>
    ∃ base' index', w = .element m base' index' ∧ base.Reordered free base' ∧ index.Reordered free index'
termination_by structural x => x

/-- The second declaration is the first one but for the order of functions in runs within it. -/
def Dec.Reordered (free : Prop) : Dec → Dec → Prop
  | .type dec, e => e = .type dec
  | .function head body loc id, e => ∃ body', e = .function head body' loc id ∧ body.Reordered free body'
  | .var name typeName init loc slot, e =>
    ∃ init', e = .var name typeName init' loc slot ∧ init.Reordered free init'
termination_by structural x => x

def reorderedAll (free : Prop) : List Exp → List Exp → Prop
  | [], fs => fs = []
  | e :: es, fs => ∃ f fs', fs = f :: fs' ∧ e.Reordered free f ∧ reorderedAll free es fs'
termination_by structural x => x

def reorderedInits (free : Prop) : List (Ident × Exp) → List (Ident × Exp) → Prop
  | [], fs => fs = []
  | (name, e) :: inits, fs =>
    ∃ f fs', fs = (name, f) :: fs' ∧ e.Reordered free f ∧ reorderedInits free inits fs'
termination_by structural x => x

/-- The declarations in the order in which they stood, each with the order of functions changed within
it. -/
def reorderedDecs (free : Prop) : List Dec → List Dec → Prop
  | [], es => es = []
  | d :: ds, es => ∃ e es', es = e :: es' ∧ d.Reordered free e ∧ reorderedDecs free ds es'
termination_by structural x => x

end

attribute [grind =] Exp.Reordered Var.Reordered Dec.Reordered reorderedAll reorderedInits reorderedDecs

/-- The same program but for the order of functions in runs. -/
def Program.Reordered (free : Prop) (p q : Program) : Prop := p.body.Reordered free q.body

section

variable {free : Prop}

theorem reorderedAll_iff {es fs : List Exp} :
    reorderedAll free es fs ↔ List.Forall₂ (Exp.Reordered free) es fs := by
  induction es generalizing fs with
  | nil => rw [reorderedAll, List.forall₂_nil_left_iff]
  | cons e es ih =>
    rw [reorderedAll, List.forall₂_cons_left_iff]
    simp only [ih]
    grind

theorem length_eq_of_reorderedInits {inits inits' : List (Ident × Exp)}
    (h : reorderedInits free inits inits') : inits.length = inits'.length := by
  induction inits generalizing inits' with
  | nil =>
    cases h
    rfl
  | cons i inits ih =>
    obtain ⟨f, fs, rfl, -, hfs⟩ := h
    exact congrArg Nat.succ (ih hfs)

theorem reorderedDecs_iff {ds es : List Dec} :
    reorderedDecs free ds es ↔ List.Forall₂ (Dec.Reordered free) ds es := by
  induction ds generalizing es with
  | nil => rw [reorderedDecs, List.forall₂_nil_left_iff]
  | cons d ds ih =>
    rw [reorderedDecs, List.forall₂_cons_left_iff]
    simp only [ih]
    grind

theorem Dec.Reordered.kind_eq {d e : Dec} (h : d.Reordered free e) : e.kind = d.kind := by
  cases d <;> simp only [Dec.Reordered] at h
  · rw [h]
  · obtain ⟨_, rfl, -⟩ := h
    rfl
  · obtain ⟨_, rfl, -⟩ := h
    rfl

theorem Dec.Reordered.name_eq {d e : Dec} (h : d.Reordered free e) : e.name = d.name := by
  cases d <;> simp only [Dec.Reordered] at h
  · rw [h]
  · obtain ⟨_, rfl, -⟩ := h
    rfl
  · obtain ⟨_, rfl, -⟩ := h
    rfl

theorem isLiteral_of_reordered {e f : Exp} (h : e.Reordered free f) : f.isLiteral = e.isLiteral := by
  cases e with
  | cond m test thenPart elsePart =>
    cases elsePart with
    | none =>
      obtain ⟨_, _, rfl, -⟩ := h
      rfl
    | some elsePart =>
      obtain ⟨_, _, _, rfl, -⟩ := h
      rfl
  | nil | int | string | breakLoop =>
    cases h
    rfl
  | var | call | record | seq =>
    obtain ⟨_, rfl, -⟩ := h
    rfl
  | binary | assign | whileLoop | doWhile | array =>
    obtain ⟨_, _, rfl, -⟩ := h
    rfl
  | forLoop | letIn =>
    obtain ⟨_, _, _, rfl, -⟩ := h
    rfl

/-- Types have nothing in them that could be reordered. -/
theorem eq_of_reorderedDecs_type {ts : List TypeDec} {es : List Dec}
    (h : reorderedDecs free (ts.map .type) es) : es = ts.map .type := by
  induction ts generalizing es with
  | nil => exact h
  | cons t ts ih =>
    obtain ⟨e, es, rfl, rfl, hes⟩ := h
    rw [ih hes, List.map_cons]

/-! ## Runs -/

/-- Lists that are paired item by item are split at the same place. -/
theorem forall₂_split {α β : Type} {R : α → β → Prop} {p : α → Bool} {q : β → Bool} {l : List α}
    {l' : List β} (h : List.Forall₂ R l l') (hpq : ∀ a b, R a b → p a = q b) :
    List.Forall₂ R (l.takeWhile p) (l'.takeWhile q) ∧ List.Forall₂ R (l.dropWhile p) (l'.dropWhile q) := by
  induction h with
  | nil => exact ⟨.nil, .nil⟩
  | @cons a b l l' hab h ih =>
    rw [List.takeWhile_cons, List.takeWhile_cons, List.dropWhile_cons, List.dropWhile_cons, hpq a b hab]
    split
    · exact ⟨.cons hab ih.1, ih.2⟩
    · exact ⟨.nil, .cons hab h⟩

/-- The leading run with the order of functions changed within its declarations, and what follows it. -/
theorem reorderedDecs_split {d e : Dec} {ds es : List Dec} (h : reorderedDecs free (d :: ds) (e :: es)) :
    reorderedDecs free (Dec.leadingRun (d :: ds)) (Dec.leadingRun (e :: es)) ∧
      reorderedDecs free (ds.dropWhile (Dec.sameKind d)) (es.dropWhile (Dec.sameKind e)) := by
  simp only [reorderedDecs_iff, Dec.leadingRun, List.forall₂_cons] at h ⊢
  obtain ⟨hde, hes⟩ := h
  obtain ⟨htake, hdrop⟩ := forall₂_split (p := Dec.sameKind d) (q := Dec.sameKind e) hes fun x y hxy => by
    rw [Dec.sameKind, Dec.sameKind, hde.kind_eq, hxy.kind_eq]
  exact ⟨⟨hde, htake⟩, hdrop⟩

/-- A run and the run in another order are of one kind. -/
theorem Dec.RunReordered.kind_eq {k : Dec.Kind} {run run' : List Dec} (h : Dec.RunReordered free run run')
    (hk : ∀ d ∈ run, d.kind = k) : ∀ d ∈ run', d.kind = k := by
  cases h with
  | same => exact hk
  | permuted _ _ _ hp => exact fun d hd => hk d (hp.mem_iff.mpr hd)

/-- Only functions come in another order. -/
theorem Dec.RunReordered.eq_of_kind {k : Dec.Kind} {d : Dec} {run run' : List Dec}
    (h : Dec.RunReordered free (d :: run) run') (hd : d.kind = k) (hk : k ≠ .function) :
    run' = d :: run := by
  cases h with
  | same => rfl
  | permuted _ hf _ _ => exact absurd (hd.symm.trans (hf d List.mem_cons_self)) hk

/-- The first run in another order is the first run of the declarations in another order. -/
theorem exists_of_runs {d : Dec} {ds es : List Dec}
    (h : List.Forall₂ (Dec.RunReordered free) (Dec.runs (d :: ds)) (Dec.runs es)) :
    ∃ e es', es = e :: es' ∧
      Dec.RunReordered free (Dec.leadingRun (d :: ds)) (Dec.leadingRun (e :: es')) ∧
      List.Forall₂ (Dec.RunReordered free) (Dec.runs (ds.dropWhile (Dec.sameKind d)))
        (Dec.runs (es'.dropWhile (Dec.sameKind e))) := by
  rw [Dec.runs_eq_cons] at h
  cases es with
  | nil => cases h
  | cons e es =>
    rw [Dec.runs_eq_cons, List.forall₂_cons] at h
    exact ⟨e, es, rfl, h.1, h.2⟩

/-! ## Levels -/

theorem decNestings_perm {ds es : List Dec} (h : ds.Perm es) : decNestings ds = decNestings es := by
  induction h with
  | nil => rfl
  | cons d _ ih => rw [decNestings, decNestings, ih]
  | swap d e ds =>
    rw [decNestings, decNestings, decNestings, decNestings]
    exact max_left_comm ..
  | trans _ _ ih₁ ih₂ => exact ih₁.trans ih₂

/-- Runs in another order are as deeply nested as before. -/
theorem decNestings_flatten {rs rs' : List (List Dec)} (h : List.Forall₂ (Dec.RunReordered free) rs rs') :
    decNestings rs.flatten = decNestings rs'.flatten := by
  induction h with
  | nil => rfl
  | cons hrun _ ih =>
    rw [List.flatten_cons, List.flatten_cons, decNestings_append, decNestings_append, ih]
    cases hrun with
    | same => rfl
    | permuted _ _ _ hp => rw [decNestings_perm hp]

theorem decNestings_eq_of_runs {ds es : List Dec}
    (h : List.Forall₂ (Dec.RunReordered free) (Dec.runs ds) (Dec.runs es)) :
    decNestings ds = decNestings es := by
  have hflat := decNestings_flatten h
  unfold Dec.runs at hflat
  rwa [List.flatten_splitBy, List.flatten_splitBy] at hflat

theorem nestings_eq {es : List Exp} (h : ∀ e ∈ es, ∀ f, e.Reordered free f → f.nesting = e.nesting) :
    ∀ {fs}, reorderedAll free es fs → nestings fs = nestings es := by
  induction es with
  | nil =>
    rintro _ rfl
    rfl
  | cons e es ih =>
    rintro _ ⟨f, fs, rfl, hf, hfs⟩
    obtain ⟨he, hes⟩ := List.forall_mem_cons.mp h
    rw [nestings, nestings, he f hf, ih hes hfs]

theorem initNestings_eq {is : List (Ident × Exp)}
    (h : ∀ i ∈ is, ∀ f, i.2.Reordered free f → f.nesting = i.2.nesting) :
    ∀ {js}, reorderedInits free is js → initNestings js = initNestings is := by
  induction is with
  | nil =>
    rintro _ rfl
    rfl
  | cons i is ih =>
    rintro _ ⟨f, fs, rfl, hf, hfs⟩
    obtain ⟨hi, his⟩ := List.forall_mem_cons.mp h
    rw [initNestings, initNestings, hi f hf, ih his hfs]

theorem decNestings_eq {ds : List Dec} (h : ∀ d ∈ ds, ∀ e, d.Reordered free e → e.nesting = d.nesting) :
    ∀ {es}, reorderedDecs free ds es → decNestings es = decNestings ds := by
  induction ds with
  | nil =>
    rintro _ rfl
    rfl
  | cons d ds ih =>
    rintro _ ⟨e, es, rfl, he, hes⟩
    obtain ⟨hd, hds⟩ := List.forall_mem_cons.mp h
    rw [decNestings, decNestings, hd e he, ih hds hes]

theorem nestingCases (free : Prop) : Tree.Cases (fun e => ∀ f, e.Reordered free f → f.nesting = e.nesting)
    (fun v => ∀ w, v.Reordered free w → w.nesting = v.nesting)
    (fun d => ∀ e, d.Reordered free e → e.nesting = d.nesting) where
  var _ _ hv := by
    rintro _ ⟨v', rfl, h⟩
    exact hv v' h
  nil _ := by
    rintro _ rfl
    rfl
  int _ _ := by
    rintro _ rfl
    rfl
  string _ _ := by
    rintro _ rfl
    rfl
  call _ _ _ _ ha := by
    rintro _ ⟨args', rfl, h⟩
    exact nestings_eq ha h
  binary _ _ _ _ hl hr := by
    rintro _ ⟨l, r, rfl, h, h'⟩
    rw [Exp.nesting, Exp.nesting, hl l h, hr r h']
  record _ _ _ hi := by
    rintro _ ⟨inits', rfl, h⟩
    exact initNestings_eq hi h
  seq _ _ hi := by
    rintro _ ⟨items', rfl, h⟩
    exact nestings_eq hi h
  assign _ _ _ ht hv := by
    rintro _ ⟨t, v, rfl, h, h'⟩
    rw [Exp.nesting, Exp.nesting, ht t h, hv v h']
  condNone _ _ _ ht hp := by
    rintro _ ⟨t, p, rfl, h, h'⟩
    rw [Exp.nesting, Exp.nesting, ht t h, hp p h']
  condSome _ _ _ _ ht hp he := by
    rintro _ ⟨t, p, e, rfl, h, h', h''⟩
    rw [Exp.nesting, Exp.nesting, ht t h, hp p h', he e h'']
  whileLoop _ _ _ ht hb := by
    rintro _ ⟨t, b, rfl, h, h'⟩
    rw [Exp.nesting, Exp.nesting, ht t h, hb b h']
  doWhile _ _ _ hb ht := by
    rintro _ ⟨b, t, rfl, h, h'⟩
    rw [Exp.nesting, Exp.nesting, hb b h, ht t h']
  forLoop _ _ _ _ _ _ hl hh hb := by
    rintro _ ⟨l, u, b, rfl, h, h', h''⟩
    rw [Exp.nesting, Exp.nesting, hl l h, hh u h', hb b h'']
  breakLoop _ := by
    rintro _ rfl
    rfl
  letIn _ _ _ hd hb := by
    rintro _ ⟨decs₁, decs', b, rfl, hdecs, hruns, h⟩
    rw [Exp.nesting, Exp.nesting, ← decNestings_eq_of_runs hruns, decNestings_eq hd hdecs, hb b h]
  array _ _ _ _ hz hi := by
    rintro _ ⟨z, i, rfl, h, h'⟩
    rw [Exp.nesting, Exp.nesting, hz z h, hi i h']
  simple _ _ _ := by
    rintro _ rfl
    rfl
  field _ _ _ _ hb := by
    rintro _ ⟨b, rfl, h⟩
    exact hb b h
  element _ _ _ hb hi := by
    rintro _ ⟨b, i, rfl, h, h'⟩
    rw [Var.nesting, Var.nesting, hb b h, hi i h']
  type _ := by
    rintro _ rfl
    rfl
  function _ _ _ _ hb := by
    rintro _ ⟨b, rfl, h⟩
    rw [Dec.nesting, Dec.nesting, hb b h]
  varDec _ _ _ _ _ hi := by
    rintro _ ⟨i, rfl, h⟩
    exact hi i h

/-- **Functions stay at their level.** -/
theorem Exp.Reordered.nesting_eq {e f : Exp} (h : e.Reordered free f) : f.nesting = e.nesting :=
  (nestingCases free).all.1 e f h

/-! ## No change -/

theorem reorderedAll_refl {es : List Exp} (h : ∀ e ∈ es, e.Reordered free e) :
    reorderedAll free es es := reorderedAll_iff.mpr (List.forall₂_same.mpr h)

theorem reorderedDecs_refl {ds : List Dec} (h : ∀ d ∈ ds, d.Reordered free d) :
    reorderedDecs free ds ds := reorderedDecs_iff.mpr (List.forall₂_same.mpr h)

theorem reorderedInits_refl {inits : List (Ident × Exp)} (h : ∀ i ∈ inits, i.2.Reordered free i.2) :
    reorderedInits free inits inits := by
  induction inits with
  | nil => rfl
  | cons i inits ih =>
    obtain ⟨hi, hinits⟩ := List.forall_mem_cons.mp h
    exact ⟨i.2, inits, rfl, hi, ih hinits⟩

theorem reordersNone (free : Prop) : Tree.Cases (fun e => e.Reordered free e)
    (fun v => v.Reordered free v) fun d => d.Reordered free d where
  var _ v hv := ⟨v, rfl, hv⟩
  nil _ := rfl
  int _ _ := rfl
  string _ _ := rfl
  call _ _ args _ h := ⟨args, rfl, reorderedAll_refl h⟩
  binary _ _ left right hl hr := ⟨left, right, rfl, hl, hr⟩
  record _ _ inits h := ⟨inits, rfl, reorderedInits_refl h⟩
  seq _ items h := ⟨items, rfl, reorderedAll_refl h⟩
  assign _ target value ht hv := ⟨target, value, rfl, ht, hv⟩
  condNone _ test thenPart ht hp := ⟨test, thenPart, rfl, ht, hp⟩
  condSome _ test thenPart elsePart ht hp he := ⟨test, thenPart, elsePart, rfl, ht, hp, he⟩
  whileLoop _ test body ht hb := ⟨test, body, rfl, ht, hb⟩
  doWhile _ body test hb ht := ⟨body, test, rfl, hb, ht⟩
  forLoop _ _ low high body _ hl hh hb := ⟨low, high, body, rfl, hl, hh, hb⟩
  breakLoop _ := rfl
  letIn _ decs body hd hb :=
    ⟨decs, decs, body, rfl, reorderedDecs_refl hd, List.forall₂_same.mpr fun _ _ => .same, hb⟩
  array _ _ size init hz hi := ⟨size, init, rfl, hz, hi⟩
  simple _ _ _ := rfl
  field _ base _ _ hb := ⟨base, rfl, hb⟩
  element _ base index hb hi := ⟨base, index, rfl, hb, hi⟩
  type _ := rfl
  function _ body _ _ hb := ⟨body, rfl, hb⟩
  varDec _ _ init _ _ hi := ⟨init, rfl, hi⟩

/-- **No run needs to be changed.** -/
theorem Exp.reordered_refl (free : Prop) (e : Exp) : e.Reordered free e := (reordersNone free).all.1 e

end

end TigerCheck
