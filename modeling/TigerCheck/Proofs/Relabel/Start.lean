import Mathlib.Order.WellFounded
import TigerCheck.Proofs.Relabel.Walk
import TigerCheck.Proofs.Tree.Live
import TigerCheck.Proofs.Walk.Program

/-!
# The start of two runs

Before anything is checked, a relabelling that keeps the names and the numbers that are bound from the start
changes nothing.

* `Names.KeepsBuiltins`: the intrinsics, `int` and `string` keep their names.
* `Names.same`: all names stay. `Names.renumber`: only numbers are new.
* **`Exp.relabel_blank`**: a tree with empty cells has no numbers in it.
* **`Stage.match_initial`**: the initial state, on both sides.
-/

namespace TigerCheck

open Check

/-- The names that are bound from the start stay as they are. -/
structure Names.KeepsBuiltins (ν : Names) : Prop where
  intrinsic : ∀ i ∈ Intrinsic.all, ν.function i.name = i.name
  int : ν.typeName "int" = "int"
  string : ν.typeName "string" = "string"

/-- All names stay as they are. -/
def Names.same : Names := ⟨id, id, id, id⟩

theorem Names.same_faithful : same.Faithful :=
  ⟨Function.injective_id, Function.injective_id, Function.injective_id, Function.injective_id⟩

theorem Names.same_keepsBuiltins : same.KeepsBuiltins := ⟨fun _ _ => rfl, rfl, rfl⟩

/-! ## Trees without numbers -/

/-- All names stay as they are, and the tables get new numbers. -/
def Names.renumber (σ : Handle → ℕ → ℕ) : Relabelling := { same with handle := σ }

section

variable (σ : Handle → ℕ → ℕ)

theorem TypeDec.relabel_renumber (dec : TypeDec) : dec.relabel (Names.renumber σ) = dec := by
  obtain ⟨name, body, loc⟩ := dec
  cases body with
  | synonym => rfl
  | array => rfl
  | record fields => exact congrArg (fun fs => TypeDec.mk name (.record fs) loc) (List.map_id fields)

theorem FunctionHead.relabel_renumber (head : FunctionHead) : head.relabel (Names.renumber σ) = head := by
  obtain ⟨name, params, result⟩ := head
  have hparams : params.map (·.rename id id) = params := List.map_id params
  cases result <;> exact congrArg (fun ps => FunctionHead.mk name ps _) hparams

mutual

/-- **A tree with empty cells has no numbers in it.** -/
theorem Exp.relabel_blank : ∀ e : Exp, e.blank.relabel (Names.renumber σ) = e.blank
  | .var _ v => congrArg (Exp.var _) v.relabel_blank
  | .nil _ | .int _ _ | .string _ _ | .breakLoop _ => rfl
  | .call _ callee args _ => congrArg (fun es => Exp.call _ callee es none) (relabelAll_blank args)
  | .binary _ op left right => congrArg₂ (Exp.binary _ op) left.relabel_blank right.relabel_blank
  | .record _ typeName inits => congrArg (Exp.record _ typeName) (relabelInits_blank inits)
  | .seq _ items => congrArg (Exp.seq _) (relabelAll_blank items)
  | .assign _ target value => congrArg₂ (Exp.assign _) target.relabel_blank value.relabel_blank
  | .cond _ test thenPart none =>
    congrArg₂ (fun t p => Exp.cond _ t p none) test.relabel_blank thenPart.relabel_blank
  | .cond _ test thenPart (some elsePart) => by
    simp only [Exp.blank, Exp.relabel, test.relabel_blank, thenPart.relabel_blank, elsePart.relabel_blank]
    rfl
  | .whileLoop _ test body => congrArg₂ (Exp.whileLoop _) test.relabel_blank body.relabel_blank
  | .doWhile _ body test => congrArg₂ (Exp.doWhile _) body.relabel_blank test.relabel_blank
  | .forLoop _ counter low high body _ => by
    simp only [Exp.blank, Exp.relabel, low.relabel_blank, high.relabel_blank, body.relabel_blank]
    rfl
  | .letIn _ decs body => congrArg₂ (Exp.letIn _) (relabelDecs_blank decs) body.relabel_blank
  | .array _ typeName size init => congrArg₂ (Exp.array _ typeName) size.relabel_blank init.relabel_blank

theorem Var.relabel_blank : ∀ v : Var, v.blank.relabel (Names.renumber σ) = v.blank
  | .simple _ _ _ => rfl
  | .field _ base name _ => congrArg (fun v => Var.field _ v name none) base.relabel_blank
  | .element _ base index => congrArg₂ (Var.element _) base.relabel_blank index.relabel_blank

theorem Dec.relabel_blank : ∀ d : Dec, d.blank.relabel (Names.renumber σ) = d.blank
  | .type dec => congrArg Dec.type (dec.relabel_renumber σ)
  | .function head body loc _ =>
    congrArg₂ (fun hd b => Dec.function hd b loc none) (head.relabel_renumber σ) body.relabel_blank
  | .var name typeName init loc _ => by
    simp only [Dec.blank, Dec.relabel, init.relabel_blank]
    cases typeName <;> rfl

theorem relabelAll_blank : ∀ es : List Exp, relabelAll (Names.renumber σ) (blankAll es) = blankAll es
  | [] => rfl
  | e :: es => congrArg₂ List.cons e.relabel_blank (relabelAll_blank es)

theorem relabelInits_blank : ∀ is : List (Ident × Exp),
    relabelInits (Names.renumber σ) (blankInits is) = blankInits is
  | [] => rfl
  | (name, e) :: is => congrArg₂ List.cons (congrArg (Prod.mk name) e.relabel_blank) (relabelInits_blank is)

theorem relabelDecs_blank : ∀ ds : List Dec, relabelDecs (Names.renumber σ) (blankDecs ds) = blankDecs ds
  | [] => rfl
  | d :: ds => congrArg₂ List.cons d.relabel_blank (relabelDecs_blank ds)

end

end

/-! ## The initial state -/

/-- A table whose numbers stay, and whose entries are the same on both sides. -/
theorem aligned_self {α : Type} {R : α → α → Prop} {σ : ℕ → ℕ} {xs : Array α} (hσ : StrictMono σ)
    (hfix : ∀ i, i < xs.size → σ i = i) (h : ∀ x ∈ xs, R x x) : Aligned σ R xs xs := by
  intro i
  by_cases hi : i < xs.size
  · rw [hfix i hi, Array.getElem?_eq_getElem hi]
    exact .some (h _ (Array.getElem_mem hi))
  · rw [Array.getElem?_eq_none (Nat.le_of_not_lt hi),
      Array.getElem?_eq_none ((Nat.le_of_not_lt hi).trans hσ.le_apply)]
    exact .none

variable {ρ : Relabelling}

theorem relabel_foldl_addIntrinsic (is : List Intrinsic) (h : ∀ i ∈ is, ρ.function i.name = i.name) :
    ∀ s : Scopes FunctionId × FrameTable,
      (∀ j, j < s.2.functions.size + is.length → ρ.handle .function j = j) →
      s.1.relabel ρ.function (·.relabel ρ) = s.1 →
      (is.foldl Checker.addIntrinsic s).1.relabel ρ.function (·.relabel ρ) =
        (is.foldl Checker.addIntrinsic s).1 := by
  induction is with
  | nil => exact fun _ _ hs => hs
  | cons i is ih =>
    intro s hfix hs
    rw [List.foldl_cons]
    refine ih (fun j hj => h j (List.mem_cons_of_mem _ hj)) _ (fun j hj => hfix j ?_) ?_
    · simp only [Checker.addIntrinsic, FrameTable.addFunction, Array.size_push, List.length_cons] at hj ⊢
      omega
    · have hid : FunctionId.relabel ρ ⟨s.2.functions.size⟩ = ⟨s.2.functions.size⟩ :=
        congrArg FunctionId.mk (hfix _ (by simp))
      rw [Checker.addIntrinsic, Scopes.relabel_bind, hs, h i List.mem_cons_self]
      exact congrArg (s.1.bind i.name) hid

theorem Intrinsic.signature_relabel {i : Intrinsic} (hi : i ∈ Intrinsic.all) : i.signature.relabel ρ = i.signature := by
  simp only [Intrinsic.all, List.mem_cons, List.not_mem_nil, or_false] at hi
  rcases hi with rfl | rfl | rfl | rfl | rfl | rfl | rfl | rfl | rfl | rfl | rfl <;> rfl

/-- **Before anything is checked both sides are the same**, if the entries that are there and those that may come
keep their numbers. -/
theorem Stage.match_initial (S : Stage ρ) (hkeeps : ρ.toNames.KeepsBuiltins)
    (hfix : ∀ k i, i < Checker.initial.count k ∨ i < S.limit k → ρ.handle k i = i) (hbase : S.base = [])
    (hbase' : S.base' = []) :
    S.Match (Checker.initial.note .started) (Checker.initial.note .started) := by
  obtain ⟨hframes, hvars, hfunctions, -⟩ := Checker.initial_tables
  have hself {α : Type} {R : α → α → Prop} {xs : Array α} (k : Handle) (hsize : xs.size = Checker.initial.count k)
      (h : ∀ x ∈ xs, R x x) : Aligned (ρ.handle k) R xs xs :=
    aligned_self (S.faithful.handle k) (fun i hi => hfix k i (.inl (hsize ▸ hi))) h
  have hempty {α : Type} {R : α → α → Prop} (k : Handle) (hsize : 0 = Checker.initial.count k) :
      Aligned (ρ.handle k) R #[] #[] := hself k hsize (by simp)
  have hnamed : ∀ t ∈ #[NamedType.resolved .int, .resolved .string], t = t.relabel ρ := by
    simp [NamedType.relabel, Ty.relabel]
  have hfunctionCount : Checker.initial.count .function = 0 + Intrinsic.all.length := by
    rw [Checker.count, hfunctions]
    rfl
  have htypeId : ∀ i, i < 2 → NamedTypeId.relabel ρ ⟨i⟩ = ⟨i⟩ := fun i hi =>
    congrArg NamedTypeId.mk (hfix .typeName i (.inl hi))
  exact {
    records := hempty .record rfl
    arrays := hempty .array rfl
    namedTypes := hself .typeName rfl hnamed
    functions := hself .function rfl fun p hp => by
      change p ∈ Checker.initial.frames.functions at hp
      rw [hfunctions, List.mem_toArray, List.mem_map] at hp
      obtain ⟨i, hi, rfl⟩ := hp
      exact ⟨congrArg some (Intrinsic.signature_relabel hi).symm, rfl⟩
    vars := hself .var rfl fun s hs => by
      change s ∈ Checker.initial.frames.vars at hs
      simp [hvars] at hs
    frames := hself .frame rfl fun f hf => by
      change f ∈ Checker.initial.frames.frames at hf
      rw [hframes, Array.mem_singleton] at hf
      subst hf
      exact ⟨fun _ => rfl, fun _ => rfl, fun _ => Array.map_empty.symm, fun _ => rfl⟩
    values_eq := rfl
    typeNames_eq := by
      change _ = Scopes.relabel _ _ ((Scopes.empty.bind "int" ⟨0⟩).bind "string" (⟨1⟩ : NamedTypeId))
      rw [Scopes.relabel_bind, Scopes.relabel_bind, hkeeps.int, hkeeps.string, htypeId 0 (by decide),
        htypeId 1 (by decide)]
      rfl
    functionNames_eq := (relabel_foldl_addIntrinsic Intrinsic.all hkeeps.intrinsic
      (.empty, (({} : FrameTable).newFrame "main" 0 none).2)
      (fun j hj => hfix .function j (.inl (lt_of_lt_of_eq hj hfunctionCount.symm))) rfl).symm
    next := fun k t ht => hfix k _ (.inr ht)
    diagnostics := ⟨[], [], by rw [hbase]; rfl, by rw [hbase']; rfl, .nil⟩ }

end TigerCheck
