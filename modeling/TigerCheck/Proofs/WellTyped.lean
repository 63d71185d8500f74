import TigerCheck.Proofs.Typing.Block
import TigerCheck.Proofs.Typing.Lists
import TigerCheck.Proofs.Walk.Program

/-!
# Programs without faults are the well-typed programs

The analysis of a program reports nothing exactly if the program is well typed, that is, if the typing
rules give its body a type under some table of declared types.

* `judges`: the check of every expression decides its typing.
* `Checker.initial_env`: at the beginning of a program the environment is the initial one.
* `Program.WellTyped`: the program has a type.
* **`analyze_isEmpty_iff`**: nothing is reported exactly if the program is well typed.
-/

namespace TigerCheck

open Check

theorem judges : Tree.Cases ExpJudged VarJudged (Dec.Parts ExpJudged) where
  var _ _ h := ExpJudged.var h
  nil _ := ExpJudged.nil
  int _ _ := ExpJudged.int
  string _ _ := ExpJudged.string
  call _ _ _ _ h := ExpJudged.call h
  binary _ _ _ _ hl hr := ExpJudged.binary hl hr
  record _ _ _ h := ExpJudged.record h
  seq _ _ h := ExpJudged.seq h
  assign _ _ _ ht hv := ExpJudged.assign ht hv
  condNone _ _ _ ht hp := ExpJudged.condNone ht hp
  condSome _ _ _ _ ht hp he := ExpJudged.condSome ht hp he
  whileLoop _ _ _ ht hb := ExpJudged.whileLoop ht hb
  doWhile _ _ _ hb ht := ExpJudged.doWhile hb ht
  forLoop _ _ _ _ _ _ hl hh hb := ExpJudged.forLoop hl hh hb
  breakLoop _ := ExpJudged.breakLoop
  letIn _ _ _ hd hb := ExpJudged.letIn hd hb
  array _ _ _ _ hz hi := ExpJudged.array hz hi
  simple _ _ _ := VarJudged.simple
  field _ _ _ _ hb := VarJudged.field hb
  element _ _ _ hb hi := VarJudged.element hb hi
  type _ := trivial
  function _ _ _ _ hb := hb
  varDec _ _ _ _ _ hi := hi

/-- **The check of every expression decides its typing.** -/
theorem expJudged (e : Exp) : ExpJudged e := judges.all.1 e

/-! ## The initial environment -/

/-- The function that a name stands for in a table of functions. -/
def prototypeNamed (s : Scopes FunctionId × FrameTable) (name : String) : Option Prototype :=
  (s.1.lookup name).bind fun f => s.2.functions[f.index]?

theorem prototypeNamed_addIntrinsic {s : Scopes FunctionId × FrameTable} {name : String}
    (hs : ∀ f, s.1.lookup name = some f → f.index < s.2.functions.size) (i : Intrinsic) :
    prototypeNamed (Checker.addIntrinsic s i) name =
      if name = i.name then some i.prototype else prototypeNamed s name := by
  simp only [prototypeNamed, Checker.addIntrinsic, FrameTable.addFunction, Scopes.lookup_bind]
  split
  · exact Array.getElem?_push_size
  · cases hl : s.1.lookup name with
    | none => rfl
    | some f =>
      rw [Option.bind_some, Option.bind_some, Array.getElem?_push, if_neg (hs f hl).ne]

/-- After intrinsics are added their names stand for them. -/
theorem prototypeNamed_foldl {name : String} (is : List Intrinsic) :
    ∀ s : Scopes FunctionId × FrameTable, (is.map (·.name)).Nodup →
      (∀ name f, s.1.lookup name = some f → f.index < s.2.functions.size) →
      prototypeNamed (is.foldl Checker.addIntrinsic s) name =
        ((is.find? (·.name == name)).map Intrinsic.prototype).or (prototypeNamed s name) := by
  induction is with
  | nil => exact fun s _ _ => rfl
  | cons i is ih =>
    intro s hnd hs
    rw [List.map_cons, List.nodup_cons] at hnd
    have hbound : ∀ name f, (Checker.addIntrinsic s i).1.lookup name = some f →
        f.index < (Checker.addIntrinsic s i).2.functions.size := (foldl_addIntrinsic [i] s hs).2.2.2
    rw [List.foldl_cons, ih _ hnd.2 hbound, prototypeNamed_addIntrinsic (hs name), List.find?_cons]
    by_cases heq : name = i.name
    · have hnone : is.find? (·.name == name) = none := by
        rw [List.find?_eq_none]
        rintro j hj hname
        exact hnd.1 (heq ▸ beq_iff_eq.mp hname ▸ List.mem_map_of_mem hj)
      rw [if_pos heq, hnone, heq]
      simp
    · have hne : (i.name == name) = false := beq_eq_false_iff_ne.mpr (Ne.symm heq)
      rw [if_neg heq, hne]

namespace Checker

theorem signed_eq_bind (c : Checker) (name : String) :
    c.signed name = (prototypeNamed (c.functions, c.frames) name).bind fun p =>
      p.signature.map fun s => ⟨s.params.drop p.hiddenParams, s.result⟩ := by
  rw [signed, prototypeNamed, Option.bind_assoc]
  simp only [bind, Option.map_eq_bind, pure, Function.comp_def]

/-- At the beginning the functions are the intrinsics. -/
theorem initial_signed (name : String) :
    initial.signed name = (Intrinsic.find? name).map (·.signature) := by
  have hnamed : prototypeNamed (initial.functions, initial.frames) name =
      ((Intrinsic.all.find? (·.name == name)).map Intrinsic.prototype).or none :=
    prototypeNamed_foldl Intrinsic.all (.empty, (({} : FrameTable).newFrame "main" 0 none).2)
      (by decide) fun name f hf => by cases hf
  rw [signed_eq_bind, hnamed, Option.or_none, Intrinsic.find?]
  cases Intrinsic.all.find? (·.name == name) with
  | none => rfl
  | some i => rfl

theorem initial_typeNamed (name : String) :
    initial.typeNamed name = Env.initial.types name := by
  rw [typeNamed, initial_lookup]
  by_cases hs : name = "string"
  · subst hs
    rfl
  · by_cases hi : name = "int"
    · subst hi
      rfl
    · rw [if_neg hs, if_neg hi]
      simp [Env.initial, hs, hi]

/-- **At the beginning of a program the environment is the initial one.** -/
theorem initial_env (ν : Renaming) : initial.env ν = Env.initial := by
  have hfunctions : (initial.env ν).functions = Env.initial.functions := by
    funext name
    have hplain : ∀ i ∈ Intrinsic.all, i.signature.rename ν = i.signature := by
      simp [Intrinsic.all, Intrinsic.signature, Signature.rename, Ty.rename]
    rw [env_functions, initial_signed, Option.map_map]
    exact Option.map_congr fun i hi => hplain i (List.mem_of_find?_eq_some hi)
  have htypes : (initial.env ν).types = Env.initial.types := by
    funext name
    rw [env_types, initial_typeNamed]
    simp only [Env.initial]
    split_ifs <;> rfl
  exact Env.ext rfl hfunctions htypes

/-- No type is declared before anything is checked. -/
theorem initial_shape (t : Ty) : initial.types.shape t = none := by
  cases t with
  | record id => simp [show initial.types = {} from rfl]
  | array id => simp [show initial.types = {} from rfl]
  | _ => rfl

/-- Nothing is reported before anything is checked. -/
theorem initial_fine (ν : Renaming) : initial.Fine ν 0 where
  clean id h := by
    rw [initial_status] at h
    split at h
    · cases h
    · split at h <;> cases h
  elements t e h := by
    rw [initial_shape] at h
    cases h
  fits := ⟨fun _ h => absurd h (Nat.not_lt_zero _), fun _ h => absurd h (Nat.not_lt_zero _),
    fun _ h => absurd h (Nat.not_lt_zero _), fun _ h => absurd h (Nat.not_lt_zero _)⟩
  values name v h := by cases h
  functions name f h := by
    obtain ⟨-, -, hfunctions, hbound⟩ := initial_tables
    obtain ⟨p, hp⟩ : ∃ p, initial.frames.functions[f.index]? = some p :=
      ⟨_, Array.getElem?_eq_getElem (hbound name f h)⟩
    have hmem := Array.mem_of_getElem? hp
    rw [hfunctions, List.mem_toArray, List.mem_map] at hmem
    obtain ⟨i, -, hi⟩ := hmem
    exact ⟨_, signed_eq_some_iff.mpr ⟨f, _, i.signature, h, hp, by rw [← hi]; rfl, rfl⟩⟩

end Checker

/-! ## Programs -/

/-- A program is well typed if its body has a type, outside every function and every loop, under some
table of the types that it declares. -/
def Program.WellTyped (p : Program) : Prop :=
  ∃ table t, p.body.Typed table .initial 0 false t

/-- The walk over a program reports nothing exactly if the program is well typed. -/
theorem size_eq_zero_iff_of_run {p p' : Program} {c : Checker}
    (h : (checkFromStart p).run .initial = .ok (p', c)) :
    c.diagnostics.size = 0 ↔ p.WellTyped := by
  obtain ⟨body, c₁, frames, h₁, -, -, rfl⟩ := exists_of_run_checkFromStart h
  have hw := Checker.walked_note Checker.initial_sound .started
  have hs := Checker.initial_sits.walked hw
  have hf : (Checker.initial.note .started).Fine ⟨id, id⟩ 0 := by
    have hf := Checker.initial_fine ⟨id, id⟩
    exact ⟨hf.clean, hf.elements, hf.fits, hf.values, hf.functions⟩
  have hempty : ∀ b, (Checker.initial.note .started).types.Embeds ⟨id, id⟩ b := by
    intro b t e he
    change Checker.initial.types.shape t = some e at he
    rw [Checker.initial_shape] at he
    cases he
  have hjudged := expJudged p.body hw.sound hs hf h₁
  rw [show (Checker.initial.note .started).env ⟨id, id⟩ = Env.initial from Checker.initial_env _]
    at hjudged
  cases hjudged with
  | wrong hlt hno =>
    refine iff_of_false (Nat.ne_of_gt (Nat.zero_lt_of_lt hlt)) ?_
    rintro ⟨b, t, ht⟩
    exact hno b (hempty b) t ht
  | right hq _ hf' _ hiff =>
    obtain ⟨b, hb⟩ := Arena.exists_embeds hf'.fits
    exact iff_of_true hq ⟨b, _, (hiff b (hempty b) _).mpr ⟨hb, rfl⟩⟩

/-- **Nothing is reported exactly if the program is well typed.** A program has an analysis, unless
functions are nested deeper than levels count. -/
theorem analyze_isEmpty_iff (p : Program) :
    (∃ p' a, analyze p = .ok (p', a) ∧ (a.diagnostics.isEmpty = true ↔ p.WellTyped)) ∨
    (maxLevel < p.body.nesting ∧ analyze p = .error .levelOverflow) := by
  have hends : YieldsOr (maxLevel < p.body.nesting) (checkFromStart p) .initial
      fun _ c => c.diagnostics.size = 0 ↔ p.WellTyped := by
    rcases yieldsOr_checkFromStart p with ⟨p', c, hrun, -⟩ | h
    · exact Or.inl ⟨p', c, hrun, size_eq_zero_iff_of_run hrun⟩
    · exact Or.inr h
  rcases analyze_of_yieldsOr hends with ⟨p', a, c, ha, hiff, -, -, -, hdiag, -⟩ | h
  · refine Or.inl ⟨p', a, ha, ?_⟩
    rw [hdiag, ← hiff, Diagnostics.isEmpty, Array.isEmpty_iff_size_eq_zero, Diagnostics.size]
  · exact Or.inr h

end TigerCheck
