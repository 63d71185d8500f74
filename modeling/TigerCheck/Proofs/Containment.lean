import TigerCheck.Proofs.Final
import TigerCheck.Proofs.Relabel.Holes
import TigerCheck.Proofs.Tame.Walk
import TigerCheck.Tree.Build

/-!
# Errors do not cascade

An expression that has no type has failed, and how it failed is of no importance to what is around it. Another
expression that fails at the same place leaves the same reports elsewhere, and the same types and bindings, under
other numbers if more or less was allocated on the way.

* `ExpHole.Fails`: an expression at a place of a program fails, between two states.
* `Checker.past`: new numbers, behind what was allocated between two states.
* `stub`: an expression that fails wherever it stands, and allocates nothing.
* **`Stage.Match.past`**: the state before a check and that behind it are the same, but for what is new.
* **`ExpHole.Fails.beside_stub`**: a program with a failing expression, beside the program with the stub.
* **`analyze_contained`**: two programs with failing expressions at a place.
-/

namespace TigerCheck

open Check

/-- The walk over the program `h.plug x` enters `x` in the state `c₀`, and leaves it in the state `c₁`, with the
checked expression `x'`, which has no type. -/
def ExpHole.Fails (h : ExpHole) (x : Exp) (c₀ : Checker) (x' : Exp) (c₁ : Checker) : Prop :=
  ∃ s, h.visit x = .ok (s, c₀) ∧ (checkExp s.ctx x).run c₀ = .ok (x', c₁) ∧ x'.ty = none

/-! ## Numbers behind what is new -/

namespace Checker

variable {c₀ c₁ : Checker}

/-- What is in the tables of `c₀` keeps its number; what comes next gets the numbers behind the tables of `c₁`. -/
def past (c₀ c₁ : Checker) (k : Handle) (i : ℕ) : ℕ := if i < c₀.count k then i else i - c₀.count k + c₁.count k

theorem past_of_lt {k : Handle} {i : ℕ} (h : i < c₀.count k) : c₀.past c₁ k i = i := if_pos h

theorem past_add (c₀ c₁ : Checker) (k : Handle) (t : ℕ) : c₀.past c₁ k (c₀.count k + t) = c₁.count k + t := by
  rw [past, if_neg (Nat.not_lt.mpr (Nat.le_add_right _ _))]
  omega

/-- Numbers keep their order. -/
theorem strictMono_past (h : c₀.count ≤ c₁.count) (k : Handle) : StrictMono (c₀.past c₁ k) := by
  intro i j hij
  have hle : c₀.count k ≤ c₁.count k := h k
  unfold past
  split_ifs <;> omega

theorem faithful_past (h : c₀.count ≤ c₁.count) : (Names.renumber (c₀.past c₁)).Faithful :=
  ⟨Names.same_faithful, strictMono_past h⟩

end Checker

/-- A table that only got new entries, behind which numbers go on. -/
theorem Aligned.grown {α : Type} {R R' : α → α → Prop} {σ : ℕ → ℕ} {xs ys : Array α} (h : Aligned σ R xs xs)
    (hfix : ∀ i, i < xs.size → σ i = i) (hpast : ∀ i, xs.size ≤ i → ys.size ≤ σ i)
    (hold : ∀ (i : ℕ) a, xs[i]? = some a → ∃ b, ys[i]? = some b ∧ (R a a → R' a b)) : Aligned σ R' xs ys := by
  intro i
  by_cases hi : i < xs.size
  · have hrel := h i
    rw [hfix i hi, Array.getElem?_eq_getElem hi] at hrel ⊢
    obtain ⟨b, hb, hR⟩ := hold i _ (Array.getElem?_eq_getElem hi)
    rw [hb]
    cases hrel with
    | some hrel => exact .some (hR hrel)
  · rw [Array.getElem?_eq_none (Nat.le_of_not_lt hi), Array.getElem?_eq_none (hpast i (Nat.le_of_not_lt hi))]
    exact .none

/-- **The state before a check and that behind it** are the same, if numbers go on behind what is new. Reports may be
different. -/
theorem Stage.Match.past {c₀ c₁ : Checker} {S T : Stage (Names.renumber (c₀.past c₁))} (h : S.Match c₀ c₀)
    (hw : c₀.Walked c₁) {fault : Fault} {loc : Location} (hexact : ¬ T.exact)
    (hbase : (c₀.reported fault loc).diagnostics.entries.toList = T.base)
    (hbase' : c₁.diagnostics.entries.toList = T.base') : T.Match (c₀.reported fault loc) c₁ := by
  have hpast (k : Handle) (i : ℕ) (hi : c₀.count k ≤ i) : c₁.count k ≤ c₀.past c₁ k i := by
    obtain ⟨t, rfl⟩ := Nat.exists_eq_add_of_le hi
    exact (c₀.past_add c₁ k t).symm ▸ Nat.le_add_right _ _
  have hfix (k : Handle) (i : ℕ) (hi : i < c₀.count k) : c₀.past c₁ k i = i := Checker.past_of_lt hi
  obtain ⟨hvalues, htypeNames, hfunctions⟩ := hw.scopes
  have hg := hw.grown
  exact {
    records := h.records.grown (hfix .record) (hpast .record) fun i a ha => ⟨a, hg.record ha, id⟩
    arrays := h.arrays.grown (hfix .array) (hpast .array) fun i a ha => ⟨a, hg.array ha, id⟩
    namedTypes := h.namedTypes.grown (hfix .typeName) (hpast .typeName) fun i a ha => ⟨a, hg.status ⟨i⟩ a ha, id⟩
    functions := h.functions.grown (hfix .function) (hpast .function) fun i a ha =>
      ⟨a, hg.frames.function ⟨i⟩ a ha, id⟩
    vars := h.vars.grown (hfix .var) (hpast .var) fun i a ha =>
      ⟨a, hg.frames.slot ⟨i⟩ a ha, fun hlike => ⟨hlike.ty_eq, fun hex => absurd hex hexact⟩⟩
    frames := h.frames.grown (hfix .frame) (hpast .frame) fun i a ha => by
      obtain ⟨b, hb, -⟩ := hg.frames.frame ⟨i⟩ a ha
      exact ⟨b, hb, fun _ => ⟨(absurd · hexact), (absurd · hexact), (absurd · hexact), (absurd · hexact)⟩⟩
    values_eq := hvalues.trans h.values_eq
    typeNames_eq := htypeNames.trans h.typeNames_eq
    functionNames_eq := hfunctions.trans h.functionNames_eq
    next := fun k t _ => c₀.past_add c₁ k t
    diagnostics := ⟨[], [], by rw [hbase, List.append_nil], by rw [hbase', List.append_nil], .nil⟩ }

/-! ## The stub -/

/-- A comparison of `nil` with `nil`: it fails wherever it stands, and allocates nothing. -/
def stub (loc : Location) : Exp := .binary { loc } .eq (.nil {}) (.nil {})

/-- The checked stub. -/
def stubChecked (loc : Location) : Exp := .binary { loc } .eq (.nil { ty := some .nil }) (.nil { ty := some .nil })

theorem run_checkExp_stub (loc : Location) (ctx : Context) (c : Checker) :
    (checkExp ctx (stub loc)).run c = .ok (stubChecked loc, c.reported .nilComparedToNil loc) := by
  rw [stub, checkExp, checkExp]
  rfl

theorem Exp.loc_blank (e : Exp) : e.blank.loc = e.loc := by
  cases e
  case cond m test thenPart elsePart => cases elsePart <;> rfl
  all_goals rfl

/-- A failing expression and the stub look the same from outside. -/
theorem ExpHole.Fails.mark_eq {h : ExpHole} {x x' : Exp} {c₀ c₁ : Checker} (hf : h.Fails x c₀ x' c₁) :
    x'.mark = (stubChecked x.loc).mark := by
  obtain ⟨s, hvisit, hx, hnone⟩ := hf
  have hfair := fair_visit hvisit
  have hloc := congrArg Exp.loc (expKept x hfair.sound hfair.sits hx).blank
  rw [Exp.loc_blank, Exp.loc_blank] at hloc
  exact congrArg₂ Mark.mk hloc hnone

/-- No table gets smaller in a check. -/
theorem count_le_of_run {ctx : Context} {e e' : Exp} {c c' : Checker}
    (hrun : (checkExp ctx e).run c = .ok (e', c')) : c.count ≤ c'.count := by
  have hfaithful : (Names.renumber fun _ i => i).Faithful := ⟨Names.same_faithful, fun _ => strictMono_id⟩
  exact (Stage.carries_exp (S := ⟨hfaithful, fun _ => 0, False, [], []⟩) e ctx c e' c' hrun).1

/-- If no name is new, the same was reported. -/
theorem Diagnostic.eq_of_renamed {ds ds' : List Diagnostic} (h : List.Forall₂ (Renamed Names.same) ds ds') :
    ds' = ds := by
  induction h with
  | nil => rfl
  | cons h _ ih => exact congrArg₂ List.cons (congrArg₂ Diagnostic.mk h.1 h.2.eq) ih

theorem Diagnostics.Adds.exists_append {ds ds' : Diagnostics} (h : ds.Adds ds') :
    ∃ l, ds'.entries.toList = ds.entries.toList ++ l := by
  induction h with
  | refl => exact ⟨[], (List.append_nil _).symm⟩
  | report fault loc _ ih =>
    obtain ⟨l, hl⟩ := ih
    exact ⟨l ++ [⟨loc, fault⟩], by simp [Diagnostics.report, hl]⟩

/-! ## Two programs -/

/-- **A program with a failing expression, beside the program with the stub.** Behind the place both walks do the
same, under other numbers. -/
theorem ExpHole.Fails.beside_stub {h : ExpHole} {x x' e e' : Exp} {c₀ c₁ c₂ c₂' : Checker}
    (hf : h.Fails x c₀ x' c₁) (hblank : (h.plug x).blank = h.plug x)
    (hstub : (checkExp ⟨0, Checker.initial.mainFrame, 0⟩ (h.plug (stub x.loc))).run
      (Checker.initial.note .started) = .ok (e, c₂))
    (hrun : (checkExp ⟨0, Checker.initial.mainFrame, 0⟩ (h.plug x)).run (Checker.initial.note .started) =
      .ok (e', c₂')) :
    e' = h.put x' (e.relabel (Names.renumber (c₀.past c₁))) ∧ ∃ after,
      c₂.diagnostics.entries.toList =
        (c₀.reported .nilComparedToNil x.loc).diagnostics.entries.toList ++ after ∧
      c₂'.diagnostics.entries.toList = c₁.diagnostics.entries.toList ++ after := by
  have hmark := hf.mark_eq
  obtain ⟨s, hvisit, hx, hnone⟩ := hf
  have hfair := fair_visit hvisit
  have hle := count_le_of_run hx
  -- the walk as far as the place is the same on both sides
  let S : Stage (Names.renumber (c₀.past c₁)) := ⟨Checker.faithful_past hle, c₀.count, True, [], []⟩
  have hpasses := h.passes (S := S) (x := x) hmark rfl ⟨0, Checker.initial.mainFrame, 0⟩
  obtain ⟨hle₀, hstop⟩ := hpasses _ s c₀ hvisit
  have hfix (k : Handle) (i : ℕ) (hi : i < Checker.initial.count k ∨ i < c₀.count k) : c₀.past c₁ k i = i :=
    Checker.past_of_lt (hi.elim (fun hi => lt_of_lt_of_le hi (hle₀ k)) id)
  have hstill : h.Still (Names.renumber (c₀.past c₁)) x ⟨0, Checker.initial.mainFrame, 0⟩ := by
    refine ⟨congrArg (Context.mk 0 · 0) (congrArg FrameId.mk (hfix .frame _ (.inl ?_))), ?_⟩
    · exact Nat.lt_of_lt_of_eq Nat.zero_lt_one rfl
    · exact hblank ▸ Exp.relabel_blank _ _
  obtain ⟨hM₀, hctx, hnext⟩ := hstop hstill (S.match_initial Names.same_keepsBuiltins hfix rfl rfl) le_rfl
  -- behind the place the walks go on from states that are the same but for what is new
  rw [(h.splits x _).goes_on _ s c₀ hvisit] at hrun
  obtain ⟨y, c, hy, hrun⟩ := exists_of_run_bind hrun
  obtain ⟨rfl, rfl⟩ := Prod.mk.inj (Except.ok.inj (hx.symm.trans hy))
  rw [(h.splits (stub x.loc) _).goes_on _ s c₀ (h.enter_eq x _ _ ▸ hvisit)] at hstub
  obtain ⟨y₀, c, hy₀, hstub⟩ := exists_of_run_bind hstub
  obtain ⟨rfl, rfl⟩ := Prod.mk.inj (Except.ok.inj ((run_checkExp_stub _ _ _).symm.trans hy₀))
  let T : Stage (Names.renumber (c₀.past c₁)) := ⟨Checker.faithful_past hle, c₂.count, False,
    (c₀.reported .nilComparedToNil x.loc).diagnostics.entries.toList, c₁.diagnostics.entries.toList⟩
  have hM₁ : T.Match (c₀.reported .nilComparedToNil x.loc) c₁ :=
    hM₀.past (walked_exp hfair.sound hfair.sits hx).1 id rfl rfl
  obtain ⟨rfl, hM₂⟩ := (hnext T _ e c₂ hstub).2 _ e' c₂' hrun hM₁ le_rfl
  obtain ⟨after, after', hc₂, hc₂', hafter⟩ := hM₂.diagnostics
  exact ⟨rfl, after, hc₂, hc₂'.trans (congrArg (_ ++ ·) (Diagnostic.eq_of_renamed hafter))⟩

/-- What the analyses of two programs share that differ at a place: the reports before and behind the checks at the
place, and the types and bindings around it. These are those of one tree, under the numbers of either program; the
numbers are in the same order, and what was there before the place has the same numbers. -/
structure SameAround (h : ExpHole) (c₀ c₁ d₁ : Checker) (x' y' : Exp) (p q : Program) (a b : Analysis) : Prop where
  reports : ∃ before within within' after, c₀.diagnostics.entries.toList = before ∧
    c₁.diagnostics.entries.toList = before ++ within ∧ d₁.diagnostics.entries.toList = before ++ within' ∧
    a.diagnostics.entries.toList = before ++ within ++ after ∧
    b.diagnostics.entries.toList = before ++ within' ++ after
  ordered : (∀ k, StrictMono (c₀.past c₁ k)) ∧ ∀ k, StrictMono (c₀.past d₁ k)
  cells : ∃ e : Exp, p.body = h.put x' (e.relabel (Names.renumber (c₀.past c₁))) ∧
    q.body = h.put y' (e.relabel (Names.renumber (c₀.past d₁)))

/-- **Errors do not cascade.** Two programs differ in one expression, at a place that is not passed over, and neither
expression gets a type. Then the checks of both begin in the same state, and the analyses share what is around the
place. -/
theorem analyze_contained (h : ExpHole) (x y : Exp) (hloc : y.loc = x.loc) (hx : (h.plug x).blank = h.plug x)
    (hy : (h.plug y).blank = h.plug y) {c₀ c₁ d₀ d₁ : Checker} {x' y' : Exp} (hfx : h.Fails x c₀ x' c₁)
    (hfy : h.Fails y d₀ y' d₁) :
    d₀ = c₀ ∧ ((∃ p a q b, analyze ⟨h.plug x⟩ = .ok (p, a) ∧ analyze ⟨h.plug y⟩ = .ok (q, b) ∧
      SameAround h c₀ c₁ d₁ x' y' p q a b) ∨
    maxLevel < (h.plug x).nesting ∨ maxLevel < (h.plug y).nesting) := by
  have hstart : d₀ = c₀ := by
    obtain ⟨s, hvisit, -⟩ := hfx
    obtain ⟨t, hvisit', -⟩ := hfy
    rw [ExpHole.visit, h.enter_eq y x] at hvisit'
    exact (Prod.mk.inj (Except.ok.inj (hvisit'.symm.trans hvisit))).2
  subst hstart
  refine ⟨rfl, ?_⟩
  have hnesting : (h.plug (stub x.loc)).nesting ≤ (h.plug x).nesting := h.nesting_plug_le (Nat.zero_le _)
  rcases analyze_ends ⟨h.plug x⟩ with ⟨p, a, c, ha, hrun, -, -, -, hreports, -⟩ | ⟨hdeep, -⟩
  swap
  · exact .inr (.inl hdeep)
  rcases analyze_ends ⟨h.plug y⟩ with ⟨q, b, d, hb, hrun', -, -, -, hreports', -⟩ | ⟨hdeep, -⟩
  swap
  · exact .inr (.inr hdeep)
  rcases analyze_ends ⟨h.plug (stub x.loc)⟩ with ⟨r, _, _, -, hrun₀, -⟩ | ⟨hdeep, -⟩
  swap
  · exact .inr (.inl (lt_of_lt_of_le hdeep hnesting))
  obtain ⟨e, c₂, _, hstub, -, -, -⟩ := exists_of_run_checkFromStart hrun₀
  obtain ⟨e₁, c₃, _, hexp, -, rfl, rfl⟩ := exists_of_run_checkFromStart hrun
  obtain ⟨e₂, d₃, _, hexp', -, rfl, rfl⟩ := exists_of_run_checkFromStart hrun'
  obtain ⟨hbody, after, hc₂, hc₃⟩ := hfx.beside_stub hx hstub hexp
  obtain ⟨hbody', after', hc₂', hd₃⟩ := hfy.beside_stub hy (hloc ▸ hstub) hexp'
  rw [hloc, hc₂] at hc₂'
  obtain rfl := List.append_cancel_left hc₂'
  obtain ⟨s, -, hcheck, -⟩ := hfx
  obtain ⟨t, -, hcheck', -⟩ := hfy
  obtain ⟨within, hc₁⟩ := ((expTame x s.ctx).changes _ _ _ hcheck).exists_append
  obtain ⟨within', hd₁⟩ := ((expTame y t.ctx).changes _ _ _ hcheck').exists_append
  refine .inl ⟨_, a, _, b, ha, hb, ?_, ?_, e, hbody, hbody'⟩
  · refine ⟨_, within, within', after, rfl, hc₁, hd₁, ?_, ?_⟩
    · rw [hreports, ← hc₁]
      exact hc₃
    · rw [hreports', ← hd₁]
      exact hd₃
  · exact ⟨Checker.strictMono_past (count_le_of_run hcheck), Checker.strictMono_past (count_le_of_run hcheck')⟩

/-- The initializer of a variable is missing; the variable is used, and another one is declared, behind it. -/
def initializer : ExpHole :=
  .letDec {} [Build.varDec "n" none (Build.int 1)] (.var (Build.ident "v") none .here .unknown none)
    [Build.varDec "w" none (Build.binary .add (Build.named "n") (Build.int 1))]
    (Build.seq [Build.named "v", Build.named "gone", Build.named "w"])

/-- A record gets a string for an integer: a block that fails after a type, a record and a slot were allocated. -/
def badRecord : Exp :=
  Build.letIn [Build.typeDec "t" (Build.recordOf [("a", "int")]),
      Build.varDec "r" none (Build.record "t" [("a", Build.string "")])] (Build.named "r")

theorem ExpHole.exists_fails {h : ExpHole} {x : Exp}
    (hnone : ((h.visit x).toOption.bind fun r => ((checkExp r.1.ctx x).run r.2).toOption.map (·.1.ty)) = some none) :
    ∃ c₀ x' c₁, h.Fails x c₀ x' c₁ := by
  cases hvisit : h.visit x with
  | error =>
    rw [hvisit] at hnone
    cases hnone
  | ok r =>
    rw [hvisit] at hnone
    change ((checkExp r.1.ctx x).run r.2).toOption.map (·.1.ty) = some none at hnone
    cases hcheck : (checkExp r.1.ctx x).run r.2 with
    | error =>
      rw [hcheck] at hnone
      cases hnone
    | ok r' =>
      rw [hcheck] at hnone
      exact ⟨_, _, _, r.1, hvisit, hcheck, Option.some.inj hnone⟩

/-- The variable has no type, whether a record was built wrongly or a name is unknown. -/
theorem analyze_contained_initializer : ∃ c₀ c₁ d₁ x' y', initializer.Fails badRecord c₀ x' c₁ ∧
    initializer.Fails (Build.named "x") c₀ y' d₁ ∧ ∃ p a q b, analyze ⟨initializer.plug badRecord⟩ = .ok (p, a) ∧
      analyze ⟨initializer.plug (Build.named "x")⟩ = .ok (q, b) ∧
      SameAround initializer c₀ c₁ d₁ x' y' p q a b := by
  obtain ⟨c₀, x', c₁, hx⟩ := ExpHole.exists_fails (h := initializer) (x := badRecord) (by decide +kernel)
  obtain ⟨d₀, y', d₁, hy⟩ := ExpHole.exists_fails (h := initializer) (x := Build.named "x") (by decide +kernel)
  obtain ⟨rfl, hends | hdeep | hdeep⟩ := analyze_contained initializer badRecord (Build.named "x") rfl rfl rfl hx hy
  · exact ⟨d₀, c₁, d₁, x', y', hx, hy, hends⟩
  · exact absurd hdeep (by decide +kernel)
  · exact absurd hdeep (by decide +kernel)

/-- Only the unknown name is reported outside. -/
example : (analyze ⟨initializer.plug (Build.named "x")⟩).toOption.map
    (fun r => r.2.diagnostics.entries.toList.map (·.fault)) =
      some [.undefinedVariable "x", .undefinedVariable "gone"] := by
  decide +kernel

end TigerCheck
