import TigerCheck.Proofs.Failure
import TigerCheck.Proofs.Twin.Decs
import TigerCheck.Tree.Build

/-!
# Requests do not depend on earlier ones

A checker that has answered requests finds out about an expression what a new one finds out. Only the
handles are others: records and arrays get numbers behind those that exist already.

* `Ty.shift`: a type behind some records and arrays.
* `Checker.Pristine`: names mean what they mean to a new checker. **`Checker.Reachable.pristine`**: between
  two requests.
* **`Checker.Reachable.twin`**: the state after some requests, beside the initial one.
* **`checkExp_isolated`**: the reports and the types of an expression.
-/

namespace TigerCheck

open Check

/-- The type with its handle moved behind some records and arrays. -/
def Ty.shift (records arrays : ℕ) : Ty → Ty
  | .record id => .record ⟨records + id.index⟩
  | .array id => .array ⟨arrays + id.index⟩
  | t => t

/-! ## Levels -/

/-- An action that ended goes in the same way at other levels. -/
theorem Check.Guarded.run_levelled {α : Type} {R : Checker → Checker → Prop} {ok : Prop} {m : Check α}
    {good : α → Prop} {c c' : Checker} {a : α} (hm : Guarded R ok m good) (hrun : m.run c = .ok (a, c'))
    (n : ℕ) : ∃ d, m.run (c.levelled n) = .ok (a, d) ∧ c'.levelled 0 = d.levelled 0 :=
  hm.run_of_levelled_eq (Checker.levelled_levelled 0 n c).symm hrun

/-! ## Names between two requests -/

namespace Checker

variable {c c' d : Checker} {n : ℕ}

/-- The names in scope, and what is known of the types and functions that they stand for, are those of a
new checker. -/
structure Pristine (c : Checker) : Prop where
  typeNames_eq : c.typeNames = initial.typeNames
  functions_eq : c.functions = initial.functions
  status : ∀ id s, initial.status id = some s → c.status id = some s
  prototype : ∀ (f : FunctionId) p, initial.frames.functions[f.index]? = some p →
    c.frames.functions[f.index]? = some p

/-- After a walk that went in the same way at other levels names mean what they meant. -/
theorem Pristine.of_walked (h : c.Pristine) (hw : (c.levelled n).Walked d) (heq : c'.levelled 0 = d.levelled 0) :
    c'.Pristine := by
  unfold levelled at heq
  injection heq with _ hframes _ _ htypeNames hfunctions hnamed _ _
  refine ⟨htypeNames.trans (hw.scopes.typeNames_eq.trans h.typeNames_eq),
    hfunctions.trans (hw.scopes.functions_eq.trans h.functions_eq), fun id s hs => ?_, fun f p hp => ?_⟩
  · rw [Checker.status, hnamed]
    exact hw.grown.status id s (h.status id s hs)
  · change (c'.frames.levelled 0).functions[f.index]? = some p
    rw [hframes]
    exact hw.grown.frames.function f p (h.prototype f p hp)

/-- **Between two requests names mean what they mean to a new checker.** -/
theorem Reachable.pristine (h : c.Reachable) : c.Pristine := by
  induction h with
  | initial => exact ⟨rfl, rfl, fun _ _ h => h, fun _ _ h => h⟩
  | @exp c c' ctx e e' hc hf hrun ih =>
    obtain ⟨d, hd, heq⟩ := (expTame e ctx).run_levelled hrun ctx.level
    exact ih.of_walked (walked_exp (hc.idle.sound_levelled _) (hc.idle.sits hf) hd).1 heq
  | @program c c' p p' hc hrun ih =>
    obtain ⟨_, _, hget, hrun⟩ := exists_of_run_bind hrun
    cases hget
    obtain ⟨body, c₁, hbody, hrun⟩ := exists_of_run_bind hrun
    obtain ⟨_, c₂, hfin, hrun⟩ := exists_of_run_bind hrun
    cases hrun
    obtain ⟨d, hd, heq⟩ := (expTame p.body ⟨0, c.mainFrame, 0⟩).run_levelled hbody 0
    have h₁ := ih.of_walked (walked_exp (hc.idle.sound_levelled _) (hc.idle.sits hc.idle.main) hd).1 heq
    obtain ⟨hidle₁, hmain, -⟩ := (hc.idle.checkExp ⟨0, c.mainFrame, 0⟩ hc.idle.main p.body).of_run hbody
    obtain ⟨frames, hframes, rfl⟩ := exists_of_run_finalize hfin
    have hlt := hidle₁.main
    rw [hmain] at hlt
    obtain ⟨-, hfunctions, -⟩ := FrameTable.finalize_eq (Array.getElem?_eq_getElem hlt) hframes
    exact ⟨h₁.typeNames_eq, h₁.functions_eq, h₁.status, fun f p hp => by
      dsimp only
      rw [hfunctions]
      exact h₁.prototype f p hp⟩

theorem Pristine.typeNamed_eq (h : c.Pristine) (name : String) : c.typeNamed name = initial.typeNamed name := by
  unfold typeNamed
  rw [h.typeNames_eq]
  cases hl : initial.typeNames.lookup name with
  | none => rfl
  | some id =>
    obtain ⟨s, hs⟩ := initial_atRest.known name id hl
    dsimp only
    rw [hs, h.status id s hs]

theorem Pristine.signed_eq (h : c.Pristine) (name : String) : c.signed name = initial.signed name := by
  unfold signed
  rw [h.functions_eq]
  cases hl : initial.functions.lookup name with
  | none => rfl
  | some id =>
    obtain ⟨p, hp⟩ := initial_sound.functions name id hl
    simp only [bind, Option.bind_some, hp, h.prototype id p hp]

end Checker

/-! ## Beside the initial state -/

/-- Types without a handle stand for themselves. -/
inductive Pairing.plain : Pairing where
  | int : plain .int .int
  | string : plain .string .string
  | nil : plain .nil .nil
  | void : plain .void .void

theorem Arena.mirrors_plain (a b : Arena) : a.Mirrors Pairing.plain b where
  int := .int
  string := .string
  nil := .nil
  void := .void
  has s t h := by cases h <;> exact ⟨trivial, trivial⟩
  shape s t h := by cases h <;> exact .none
  unique s t s' t' h h' := by cases h <;> cases h' <;> simp

theorem Intrinsic.signature_paired {i : Intrinsic} (hi : i ∈ Intrinsic.all) :
    i.signature.Paired Pairing.plain i.signature := by
  simp only [Intrinsic.all, List.mem_cons, List.not_mem_nil, or_false] at hi
  rcases hi with rfl | rfl | rfl | rfl | rfl | rfl | rfl | rfl | rfl | rfl | rfl <;>
    exact ⟨by repeat constructor, by constructor⟩

/-- A type name means the same to a new checker, which has no type with a handle yet. -/
theorem Checker.initial_typesAlike : initial.TypesAlike Pairing.plain initial := by
  intro name
  refine ⟨rfl, ?_⟩
  rw [initial_typeNamed]
  unfold Env.initial
  dsimp only
  split_ifs
  · exact .some .int
  · exact .some .string
  · exact .none

/-- **The state after some requests, beside the initial one**: every name means the same. -/
theorem Checker.Reachable.twin {c : Checker} (h : c.Reachable) {frame : FrameId}
    (hf : frame.index < c.frames.frames.size) (n m loops : ℕ) : Twin Pairing.plain ⟨n, frame, loops⟩
      ⟨m, Checker.initial.mainFrame, loops⟩ (c.levelled n) (Checker.initial.levelled m) where
  alike :=
    { sound := h.idle.sound_levelled n
      sound' := Checker.initial_idle.sound_levelled m
      mirrors := Arena.mirrors_plain _ _
      types := fun name => by
        have htypes := Checker.initial_typesAlike name
        refine ⟨congrArg (fun s => (s.lookup name).isSome) h.pristine.typeNames_eq, ?_⟩
        change Option.Rel _ (c.typeNamed name) (Checker.initial.typeNamed name)
        rw [h.pristine.typeNamed_eq]
        exact htypes.2
      values := fun name => by
        simp only [Checker.valueTy, Checker.levelled_values, h.idle.values]
        exact ⟨rfl, .none⟩
      functions := fun name => by
        refine ⟨congrArg (fun s => (s.lookup name).isSome) h.pristine.functions_eq, ?_⟩
        change Option.Rel _ (c.signed name) (Checker.initial.signed name)
        rw [h.pristine.signed_eq, Checker.initial_signed]
        cases hi : Intrinsic.find? name with
        | none => exact .none
        | some i => exact .some (Intrinsic.signature_paired (List.mem_of_find?_eq_some hi)) }
  sits := h.idle.sits hf
  sits' := Checker.initial_idle.sits Checker.initial_idle.main
  inLoop_eq := rfl

/-- Beside an arena that is still empty, types are those of the other side moved behind its entries. -/
theorem Arena.eq_shift_of_shifted {a b : Arena} {s t : Ty} (hr : b.records.size = 0) (ha : b.arrays.size = 0)
    (h : a.Shifted Pairing.plain b s t) : s = t.shift a.records.size a.arrays.size := by
  cases h with
  | old h => cases h <;> rfl
  | record i => simp [Ty.shift, hr]
  | array i => simp [Ty.shift, ha]

theorem eq_map_of_cells {a b : Arena} (hr : b.records.size = 0) (ha : b.arrays.size = 0)
    {xs ys : List (Option Ty)} (h : List.Forall₂ (Option.Rel (a.Shifted Pairing.plain b)) xs ys) :
    xs = ys.map (Option.map (Ty.shift a.records.size a.arrays.size)) := by
  induction h with
  | nil => rfl
  | @cons x y xs ys hxy _ ih =>
    have hhead : x = y.map (Ty.shift a.records.size a.arrays.size) := by
      cases hxy with
      | none => rfl
      | some h => exact congrArg some (Arena.eq_shift_of_shifted hr ha h)
    rw [List.map_cons, ← hhead, ← ih]

/-! ## The check of an expression -/

/-- **Requests do not depend on earlier ones.** A checker that has answered any requests, and a new one, are
asked to check the same expression, each at some level of the main frame, in as many loops. Neither breaks
off. The one adds the reports that the other makes, the type of the expression and all types in its live
cells are those that the other finds, with their handles behind the records and the arrays that exist
already, and neither looks at what is dropped. -/
theorem checkExp_isolated {c : Checker} (hc : c.Reachable) (e : Exp) (n m loops : ℕ)
    (hn : n + e.nesting ≤ maxLevel) (hm : m + e.nesting ≤ maxLevel) :
    ∃ e₁ c₁ e₂ c₂, (checkExp ⟨n, c.mainFrame, loops⟩ e).run c = .ok (e₁, c₁) ∧
      (checkExp ⟨m, Checker.initial.mainFrame, loops⟩ e).run .initial = .ok (e₂, c₂) ∧
      c₁.diagnostics.entries.toList = c.diagnostics.entries.toList ++ c₂.diagnostics.entries.toList ∧
      e₁.ty = e₂.ty.map (.shift c.types.records.size c.types.arrays.size) ∧
      e₁.live.tys = e₂.live.tys.map (Option.map (.shift c.types.records.size c.types.arrays.size)) ∧
      e.Keeps e₁ ∧ e.Keeps e₂ := by
  rcases hc.idle.checkExp ⟨n, c.mainFrame, loops⟩ hc.idle.main e with ⟨e₁, c₁, h₁, -⟩ | ⟨hdeep, -⟩
  swap
  · exact absurd hdeep (Nat.not_lt_of_le hn)
  rcases Checker.initial_idle.checkExp ⟨m, Checker.initial.mainFrame, loops⟩ Checker.initial_idle.main e with
    ⟨e₂, c₂, h₂, -⟩ | ⟨hdeep, -⟩
  swap
  · exact absurd hdeep (Nat.not_lt_of_le hm)
  refine ⟨e₁, c₁, e₂, c₂, h₁, h₂, ?_⟩
  -- both go in the same way where all frames are at the level of the request
  obtain ⟨d₁, k₁, heq₁⟩ := (expTame e _).run_levelled h₁ n
  obtain ⟨d₂, k₂, heq₂⟩ := (expTame e _).run_levelled h₂ m
  have htwin := hc.twin hc.idle.main n m loops
  obtain ⟨ρ, hst, hmark⟩ := expTwinned False e (e.reordered_refl False) htwin _ _ _ _ k₁ k₂
  obtain ⟨g, k, hg, hk, halike⟩ := hst.grows.gains
  have hcells := hst.cells not_false
  refine ⟨?_, ?_, eq_map_of_cells rfl rfl hcells, expKept e htwin.alike.sound htwin.sits k₁,
    expKept e htwin.alike.sound' htwin.sits' k₂⟩
  · rw [(Checker.eq_of_levelled_eq heq₁).1, (Checker.eq_of_levelled_eq heq₂).1, hg.reports, hk.reports,
      halike.reports_eq not_false]
    rfl
  · have hty : Option.Rel ((c.levelled n).types.Shifted Pairing.plain (Checker.initial.levelled m).types)
        e₁.ty e₂.ty := rel_imp hmark.ty hst.grows.shifted
    generalize e₁.ty = x at hty
    generalize e₂.ty = y at hty
    cases hty with
    | none => rfl
    | some h => exact congrArg some (Arena.eq_shift_of_shifted rfl rfl h)

/-- A block with a type of its own, in which a name stands that nothing binds. -/
def unboundInBlock : Exp :=
  Build.letIn [Build.typeDec "list" (Build.recordOf [("head", "int"), ("tail", "list")])] (Build.named "x")

/-- A block with a type that contains itself. Its variable has no field of the name that is looked for. -/
def strangeField : Exp :=
  Build.letIn [Build.typeDec "list" (Build.recordOf [("rest", "list")]),
      Build.varDec "l" (some "list") Build.nil]
    (Build.seq [Build.var (Build.field (Build.simple "l") "tail"), Build.named "l"])

/-- The first request fails and leaves a record type behind, of the name that the second one declares. -/
theorem checkExp_isolated_strangeField : ∃ e c,
    (checkExp ⟨3, Checker.initial.mainFrame, 0⟩ unboundInBlock).run .initial = .ok (e, c) ∧ c.Reachable ∧
    5 + strangeField.nesting ≤ maxLevel ∧ 0 + strangeField.nesting ≤ maxLevel ∧
    ∃ e₁ c₁ e₂ c₂, (checkExp ⟨5, c.mainFrame, 0⟩ strangeField).run c = .ok (e₁, c₁) ∧
      (checkExp ⟨0, Checker.initial.mainFrame, 0⟩ strangeField).run .initial = .ok (e₂, c₂) ∧
      c₁.diagnostics.entries.toList = c.diagnostics.entries.toList ++ c₂.diagnostics.entries.toList ∧
      e₁.ty = e₂.ty.map (.shift c.types.records.size c.types.arrays.size) ∧
      e₁.live.tys = e₂.live.tys.map (Option.map (.shift c.types.records.size c.types.arrays.size)) ∧
      strangeField.Keeps e₁ ∧ strangeField.Keeps e₂ := by
  have hmain := Checker.initial_idle.main
  have hn : 5 + strangeField.nesting ≤ maxLevel := by decide
  have hm : 0 + strangeField.nesting ≤ maxLevel := by decide
  rcases Checker.initial_idle.checkExp ⟨3, Checker.initial.mainFrame, 0⟩ hmain unboundInBlock with
    ⟨e, c, hrun, -⟩ | ⟨hdeep, -⟩
  · have hc : c.Reachable := .exp .initial hmain hrun
    exact ⟨e, c, hrun, hc, hn, hm, checkExp_isolated hc strangeField 5 0 0 hn hm⟩
  · exact absurd hdeep (by decide : ¬ maxLevel < 3 + unboundInBlock.nesting)

/-- The record type is the first one of a new checker, and the second one of this. -/
example : ((checkExp ⟨3, Checker.initial.mainFrame, 0⟩ unboundInBlock >>= fun _ =>
      checkExp ⟨5, Checker.initial.mainFrame, 0⟩ strangeField).run .initial).toOption.map
    (fun r => r.1.live.tys) =
    some [none, some .nil, none, none, none, some (.record ⟨1⟩), some (.record ⟨1⟩), some (.record ⟨1⟩)] := by
  decide +kernel

end TigerCheck
