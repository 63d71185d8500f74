import TigerCheck.Analysis
import TigerCheck.Proofs.Walk.Dec

/-!
# Whole programs

A program is checked outside every function, in a state in which `int`, `string` and the intrinsics are
bound.

* **`Checker.initial_sound`**, `Checker.initial_sits`: the invariant holds before anything is checked.
* **`yieldsOr_checkFromStart`**: the walk over a program ends as it should.
* `exists_of_run_checkFromStart`: the steps of that walk.
* **`analyze_of_yieldsOr`**, `analyze_ends`: an analysis is what such a walk leaves behind.
-/

namespace TigerCheck

open Check

/-! ## The initial state -/

/-- The function that an intrinsic is in the table of functions. -/
def Intrinsic.prototype (i : Intrinsic) : Prototype :=
  ⟨i.name, some i.signature, .intrinsic i.symbol⟩

/-- Adding intrinsics appends them to the functions and binds their names. -/
theorem foldl_addIntrinsic (is : List Intrinsic) : ∀ s : Scopes FunctionId × FrameTable,
    (∀ name f, s.1.lookup name = some f → f.index < s.2.functions.size) →
    (is.foldl Checker.addIntrinsic s).2.frames = s.2.frames ∧
      (is.foldl Checker.addIntrinsic s).2.vars = s.2.vars ∧
      (is.foldl Checker.addIntrinsic s).2.functions =
        s.2.functions ++ (is.map Intrinsic.prototype).toArray ∧
      ∀ name f, (is.foldl Checker.addIntrinsic s).1.lookup name = some f →
        f.index < (is.foldl Checker.addIntrinsic s).2.functions.size := by
  induction is with
  | nil => exact fun s hs => ⟨rfl, rfl, by simp, hs⟩
  | cons i is ih =>
    intro s hs
    rw [List.foldl_cons]
    obtain ⟨hframes, hvars, hfunctions, hlookup⟩ := ih (Checker.addIntrinsic s i) (by
      intro name f hf
      simp only [Checker.addIntrinsic, FrameTable.addFunction, Scopes.lookup_bind,
        Array.size_push] at hf ⊢
      split at hf
      · cases hf
        exact Nat.lt_succ_self _
      · exact Nat.lt_succ_of_lt (hs name f hf))
    refine ⟨hframes, hvars, ?_, hlookup⟩
    rw [hfunctions]
    simp [Checker.addIntrinsic, FrameTable.addFunction, Intrinsic.prototype]

namespace Checker

/-- The main frame before anything is checked. -/
def mainOnly : Frame := { name := "main", level := 0, parent := none }

theorem initial_tables : initial.frames.frames = #[mainOnly] ∧ initial.frames.vars = #[] ∧
    initial.frames.functions = (Intrinsic.all.map Intrinsic.prototype).toArray ∧
    ∀ name f, initial.functions.lookup name = some f → f.index < initial.frames.functions.size := by
  obtain ⟨hframes, hvars, hfunctions, hlookup⟩ := foldl_addIntrinsic Intrinsic.all
    (Scopes.empty, (({} : FrameTable).newFrame "main" 0 none).2) (fun name f hf => by cases hf)
  refine ⟨hframes, hvars, ?_, hlookup⟩
  refine hfunctions.trans ?_
  rw [show (({} : FrameTable).newFrame "main" 0 none).2.functions = #[] from rfl, Array.empty_append]

/-- The type names that are bound before anything is checked. -/
theorem initial_status (id : NamedTypeId) : initial.status id =
    if id.index = 0 then some (.resolved .int) else if id.index = 1 then some (.resolved .string)
    else none := by
  obtain ⟨i⟩ := id
  change (#[NamedType.resolved .int, .resolved .string])[i]? = _
  match i with
  | 0 => rfl
  | 1 => rfl
  | i + 2 => rfl

theorem initial_lookup (name : String) : initial.typeNames.lookup name =
    if name = "string" then some ⟨1⟩ else if name = "int" then some ⟨0⟩ else none := by
  change ((Scopes.empty.bind "int" ⟨0⟩).bind "string" (⟨1⟩ : NamedTypeId)).lookup name = _
  rw [Scopes.lookup_bind, Scopes.lookup_bind]
  rfl

theorem initial_atRest : initial.AtRest where
  closed t s h := by
    cases t with
    | record id => simp [show initial.types = {} from rfl] at h
    | array id => simp [show initial.types = {} from rfl] at h
    | _ => cases h
  known name id h := by
    rw [initial_lookup] at h
    split at h
    · cases h
      exact ⟨_, initial_status _⟩
    · split at h
      · cases h
        exact ⟨_, initial_status _⟩
      · cases h
  has id t h := by
    rw [initial_status] at h
    split at h
    · cases h
      trivial
    · split at h
      · cases h
        trivial
      · cases h
  settled id dec o h := by
    rw [initial_status] at h
    split at h
    · cases h
    · split at h <;> cases h

/-- **The invariant holds before anything is checked.** -/
theorem initial_sound : initial.Sound := by
  obtain ⟨hframes, hvars, hfunctions, hlookup⟩ := initial_tables
  refine ⟨initial_atRest, ⟨fun v s h => ?_, fun f p fr h hp => ?_, fun f fr h k v hv => ?_⟩,
    fun v s t h => ?_, fun f p sig hp hsig => ?_, fun name f hf => ?_⟩
  · rw [hvars] at h
    cases h
  · rw [hframes] at h
    have hmem := Array.mem_of_getElem? h
    rw [Array.mem_singleton] at hmem
    subst hmem
    cases hp
  · rw [hframes] at h
    have hmem := Array.mem_of_getElem? h
    rw [Array.mem_singleton] at hmem
    subst hmem
    simp [mainOnly] at hv
  · rw [hvars] at h
    cases h
  · rw [hfunctions] at hp
    have hmem := Array.mem_of_getElem? hp
    rw [List.mem_toArray, List.mem_map] at hmem
    obtain ⟨i, hi, rfl⟩ := hmem
    cases hsig
    have hplain : ∀ j ∈ Intrinsic.all, (∀ t ∈ j.params, initial.types.Has t) ∧
        initial.types.Has j.result := by simp [Intrinsic.all, Arena.Has]
    exact ⟨Nat.zero_le _, hplain i hi⟩
  · exact ⟨_, Array.getElem?_eq_getElem (hlookup name f hf)⟩

theorem initial_sits : Context.Sits ⟨0, initial.mainFrame, 0⟩ initial where
  frame := ⟨mainOnly, by rw [initial_tables.1]; rfl, rfl⟩
  values name v h := by cases h

end Checker

/-! ## The walk over a program -/

/-- What a finished walk over a program leaves behind. -/
structure ProgramEnds (p p' : Program) (c : Checker) : Prop where
  sound : c.Sound
  mainFrame_eq : c.mainFrame = Checker.initial.mainFrame
  reaches : p.body.Unbound → ∀ u ∈ p'.body.uses c.frames c.mainFrame 0, c.frames.Reaches u

/-- **The walk over a program ends as it should, unless functions are nested too deeply.** -/
theorem yieldsOr_checkFromStart (p : Program) :
    YieldsOr (maxLevel < p.body.nesting) (checkFromStart p) .initial (ProgramEnds p) := by
  unfold checkFromStart checkProgram
  refine Yields.bindOr (yields_log.mpr (Yields.bindOr (yields_get.mpr ?_)))
  have hw := Checker.walked_note Checker.initial_sound .started
  have hs := Checker.initial_sits.walked hw
  have hdeep : Context.Deep ⟨0, Checker.initial.mainFrame, 0⟩ p.body.nesting →
      maxLevel < p.body.nesting := by
    unfold Context.Deep
    dsimp only
    omega
  refine YieldsOr.bind ((expWalks p.body _ _ hw.sound hs).mono hdeep fun _ _ h => h)
    fun body c₁ h₁ => ?_
  obtain ⟨fr, hfr, -⟩ := (hs.walked h₁.walked).frame
  refine Yields.bindOr ((h₁.walked.sound.finalize hfr).mono fun _ c₂ h₂ => yieldsOr_pure ?_)
  obtain ⟨hw₂, -⟩ := h₂
  have hmain : c₂.mainFrame = Checker.initial.mainFrame :=
    ((hw.trans h₁.walked).trans hw₂).grown.mainFrame_eq
  refine ⟨hw₂.sound, hmain, fun hf => ?_⟩
  rw [hmain]
  exact h₁.reaches hf c₂.frames hw₂.sound.linked hw₂.grown.frames

/-- **The steps of the walk over a program**: its expression, outside every function, and the layout of the
main frame. -/
theorem exists_of_run_checkFromStart {p p' : Program} {c : Checker}
    (h : (checkFromStart p).run .initial = .ok (p', c)) :
    ∃ body c₁ frames, (checkExp ⟨0, Checker.initial.mainFrame, 0⟩ p.body).run (Checker.initial.note .started) =
        .ok (body, c₁) ∧
      c₁.frames.finalize Checker.initial.mainFrame = .ok frames ∧ p' = ⟨body⟩ ∧ c = { c₁ with frames } := by
  unfold checkFromStart checkProgram at h
  obtain ⟨_, c₀, h₀, h⟩ := exists_of_run_bind h
  obtain rfl := eq_of_run_log h₀
  obtain ⟨_, _, h₁, h⟩ := exists_of_run_bind h
  cases h₁
  obtain ⟨body, c₁, h₁, h⟩ := exists_of_run_bind h
  obtain ⟨_, c₂, h₂, h⟩ := exists_of_run_bind h
  cases h
  obtain ⟨frames, hfin, rfl⟩ := exists_of_run_finalize h₂
  exact ⟨body, c₁, frames, h₁, hfin, rfl, rfl⟩

/-- **What holds at the end of the walk over a program holds of its analysis.** -/
theorem analyze_of_yieldsOr {P : Prop} {p : Program} {Q : Program → Checker → Prop}
    (h : YieldsOr P (checkFromStart p) .initial Q) :
    (∃ p' a c, analyze p = .ok (p', a) ∧ Q p' c ∧ a.result = p'.body.ty ∧ a.types = c.types ∧
      a.frames = c.frames ∧ a.diagnostics = c.diagnostics ∧ a.mainFrame = c.mainFrame) ∨
      (P ∧ analyze p = .error .levelOverflow) := by
  unfold analyze
  rcases h with ⟨p', c, hrun, hq⟩ | ⟨hp, hrun⟩
  · rw [hrun]
    exact Or.inl ⟨p', _, c, rfl, hq, rfl, rfl, rfl, rfl, rfl⟩
  · rw [hrun]
    exact Or.inr ⟨hp, rfl⟩

/-- **Every program has an analysis**, unless functions are nested too deeply. -/
theorem analyze_ends (p : Program) :
    (∃ p' a c, analyze p = .ok (p', a) ∧ (checkFromStart p).run .initial = .ok (p', c) ∧
      a.result = p'.body.ty ∧ a.types = c.types ∧ a.frames = c.frames ∧ a.diagnostics = c.diagnostics ∧
      a.mainFrame = c.mainFrame) ∨
      (maxLevel < p.body.nesting ∧ analyze p = .error .levelOverflow) := by
  have hrun : YieldsOr (maxLevel < p.body.nesting) (checkFromStart p) .initial fun p' c =>
      (checkFromStart p).run .initial = .ok (p', c) := by
    rcases yieldsOr_checkFromStart p with ⟨p', c, hrun, -⟩ | h
    · exact .inl ⟨p', c, hrun, hrun⟩
    · exact .inr h
  exact analyze_of_yieldsOr hrun

end TigerCheck
