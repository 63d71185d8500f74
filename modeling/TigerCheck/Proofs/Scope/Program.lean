import TigerCheck.Proofs.Scope.Decs
import TigerCheck.Proofs.Walk.Program

/-!
# The sites of a program

What the analysis of a program leaves behind agrees with the sites of the checked program, from the first
slot to the last and for right and wrong programs alike.

* `Checker.initial_place`: the names in scope before anything is checked.
* `ProgramSurveyed`: how the tables agree with the sites.
* **`surveyed_of_run`**, `analyze_surveyed`: every program is surveyed.
-/

namespace TigerCheck

open Check

/-! ## The initial scopes -/

/-- Intrinsics are bound to the next handles, in their order. -/
theorem lookup_foldl_addIntrinsic (is : List Intrinsic) (hnd : (is.map (·.name)).Nodup) :
    ∀ (s : Scopes FunctionId × FrameTable) (name : String),
    (is.foldl Checker.addIntrinsic s).1.lookup name =
      match is.findIdx? (·.name == name) with
      | some i => some ⟨s.2.functions.size + i⟩
      | none => s.1.lookup name := by
  induction is with
  | nil => exact fun _ _ => rfl
  | cons i is ih =>
    intro s name
    rw [List.map_cons, List.nodup_cons] at hnd
    rw [List.foldl_cons, ih hnd.2, List.findIdx?_cons]
    have hsize : (Checker.addIntrinsic s i).2.functions.size = s.2.functions.size + 1 := Array.size_push _
    have hlookup : (Checker.addIntrinsic s i).1.lookup name =
        if name = i.name then some ⟨s.2.functions.size⟩ else s.1.lookup name := Scopes.lookup_bind ..
    rw [hsize, hlookup]
    by_cases hname : i.name = name
    · have hnone : is.findIdx? (·.name == name) = none := by
        refine List.findIdx?_eq_none_iff.mpr fun j hj => beq_false_of_ne fun h => hnd.1 ?_
        rw [hname, ← h]
        exact List.mem_map_of_mem hj
      rw [hnone, if_pos (beq_iff_eq.mpr hname), if_pos hname.symm]
      rfl
    · have hbeq : ¬ (i.name == name) = true := by simpa using hname
      rw [if_neg (Ne.symm hname), if_neg hbeq]
      cases is.findIdx? (·.name == name) with
      | none => rfl
      | some k =>
        dsimp only [Option.map_some]
        rw [Nat.add_assoc, Nat.add_comm 1 k]

namespace Checker

/-- Before anything is checked, intrinsics and two types are in scope. -/
theorem initial_place : Context.place ⟨0, initial.mainFrame, 0⟩ initial = .initial := by
  have hfunctions : initial.functions.lookup = Place.initial.functions := by
    funext name
    refine (lookup_foldl_addIntrinsic Intrinsic.all (by decide) _ name).trans ?_
    change _ = (Intrinsic.all.findIdx? (·.name == name)).map FunctionId.mk
    cases Intrinsic.all.findIdx? (·.name == name) with
    | none => rfl
    | some i => exact congrArg (fun k => some (FunctionId.mk k)) (Nat.zero_add i)
  have htypes : initial.typeNames.lookup = Place.initial.types := funext initial_lookup
  have hmain : initial.mainFrame = ⟨0⟩ := rfl
  unfold Context.place
  rw [hfunctions, htypes, hmain]
  rfl

theorem initial_stands : Context.Stands ⟨0, initial.mainFrame, 0⟩ .initial 2 initial where
  sound := initial_sound
  sits := initial_sits
  calls name id h := by
    obtain ⟨p, hp⟩ := initial_sound.functions name id h
    refine ⟨p, hp, fun level frame link params ho => ?_⟩
    rw [initial_tables.2.2.1] at hp
    have hmem := Array.mem_of_getElem? hp
    rw [List.mem_toArray, List.mem_map] at hmem
    obtain ⟨i, -, rfl⟩ := hmem
    cases ho
  stood := initial_place
  count := rfl

end Checker

/-! ## Programs -/

/-- How the tables that the analysis of a program leaves behind agree with the sites of the checked
program. -/
structure ProgramSurveyed (p p' : Program) (c : Checker) : Prop where
  blank : p'.body.blank = p.body.blank
  dropped : p'.body.dropped = p.body.dropped
  grown : Checker.initial.frames.Grows c.frames
  linked : c.frames.Linked
  holds : ∀ s ∈ p'.sites c.frames, s.Holds c
  slots : (p'.sites c.frames).flatMap (Site.slots c.frames) =
    handles (fun i => some (VarId.mk i)) 0 c.frames.vars.size
  functions : (p'.sites c.frames).flatMap Site.functions =
    handles (fun i => some (FunctionId.mk i)) Intrinsic.all.length c.frames.functions.size
  frames : (p'.sites c.frames).flatMap (Site.frames c.frames) =
    handles FrameId.mk 1 c.frames.frames.size
  undefined : c.diagnostics.undefined.Perm ((p'.sites c.frames).filterMap Site.unbound)
  mainFrame : c.mainFrame = ⟨0⟩
  main : ∃ fr, c.frames.frames[c.mainFrame.index]? = some fr ∧ fr.level = 0 ∧ fr.parent = none ∧
    fr.slots.toList.map some = p'.body.live.ownSlots ∧ c.frames.LaidOut fr

/-- **Every program is surveyed.** -/
theorem surveyed_of_run {p p' : Program} {c : Checker} (hfresh : p.body.blank = p.body)
    (h : (checkFromStart p).run .initial = .ok (p', c)) : ProgramSurveyed p p' c := by
  obtain ⟨body, c₁, frames, h₁, hfin, rfl, rfl⟩ := exists_of_run_checkFromStart h
  have hst := Checker.initial_stands.note .started
  obtain ⟨⟨⟨htallies, ⟨vs, hvs, happ⟩, hholds⟩, hend⟩, hblank, hdropped⟩ := expSurveyed p.body hst hfresh h₁
  obtain ⟨hframes₀, hvars₀, hfunctions₀, -⟩ := Checker.initial_tables
  have hmain := happ.frame Checker.mainOnly (by
    change Checker.initial.frames.frames[0]? = _
    rw [hframes₀]
    rfl)
  obtain ⟨hvars, hfunctions, hsize, hothers, tys, hlaid, hlayout⟩ := FrameTable.finalize_eq hmain hfin
  obtain ⟨frames', hfin', -, -, hgrows, hlinked⟩ := hend.sound.linked.finalize hmain
  obtain rfl := Except.ok.inj (hfin.symm.trans hfin')
  have hg : c₁.Extends { c₁ with frames } :=
    ⟨fun _ _ h => h, fun _ _ h => h, hgrows, Nat.le_refl _, rfl⟩
  have hsize₀ : (Checker.initial.note .started).frames.frames.size = 1 := congrArg Array.size hframes₀
  have hvarsSize : (Checker.initial.note .started).frames.vars.size = 0 := congrArg Array.size hvars₀
  have hfunctionsSize : (Checker.initial.note .started).frames.functions.size = Intrinsic.all.length := by
    refine (congrArg Array.size hfunctions₀).trans ?_
    rw [List.size_toArray, List.length_map]
  have hlater : (Checker.initial.note .started).Later c₁ { c₁ with frames } := by
    refine ⟨hg, hlinked, fun g hle _ => hothers g fun hg => ?_⟩
    rw [hsize₀, hg] at hle
    exact Nat.not_succ_le_zero _ hle
  have hmainFrame : c₁.mainFrame = Checker.initial.mainFrame := htallies.grown.mainFrame_eq
  refine ⟨hblank, hdropped, htallies.grown.frames.trans hgrows, hlinked, hholds _ hlater, ?_, ?_, ?_, htallies.unbound _ hgrows, hmainFrame, ?_⟩
  · refine (htallies.slots _ hgrows).trans ?_
    rw [hvarsSize, ← hvars]
  · refine (htallies.functions _ hgrows).trans ?_
    rw [hfunctionsSize, ← hfunctions]
  · refine (htallies.frames _ hgrows).trans ?_
    rw [hsize₀, ← hsize]
  · dsimp only
    rw [hmainFrame]
    exact ⟨_, hlaid, rfl, rfl, by simp [hvs, Checker.mainOnly], hlayout⟩

namespace ProgramSurveyed

variable {p p' : Program} {c : Checker}

theorem slots_distinct (h : ProgramSurveyed p p' c) :
    AllDistinct ((p'.sites c.frames).flatMap (Site.slots c.frames)) := by
  rw [h.slots]
  exact allDistinct_handles fun _ _ => VarId.mk.inj

theorem functions_distinct (h : ProgramSurveyed p p' c) :
    AllDistinct ((p'.sites c.frames).flatMap Site.functions) := by
  rw [h.functions]
  exact allDistinct_handles fun _ _ => FunctionId.mk.inj

end ProgramSurveyed

/-- **The analysis of a program is surveyed**, unless functions are nested too deeply. -/
theorem analyze_surveyed {p : Program} (hfresh : p.body.blank = p.body) :
    (∃ p' a c, analyze p = .ok (p', a) ∧ ProgramSurveyed p p' c ∧
      (checkFromStart p).run .initial = .ok (p', c) ∧ a.frames = c.frames ∧
      a.diagnostics = c.diagnostics ∧ a.mainFrame = c.mainFrame) ∨
    (maxLevel < p.body.nesting ∧ analyze p = .error .levelOverflow) := by
  have hwalk : YieldsOr (maxLevel < p.body.nesting) (checkFromStart p) .initial fun p' c =>
      ProgramSurveyed p p' c ∧ (checkFromStart p).run .initial = .ok (p', c) := by
    rcases yieldsOr_checkFromStart p with ⟨p', c, hrun, -⟩ | h
    · exact .inl ⟨p', c, hrun, surveyed_of_run hfresh hrun, hrun⟩
    · exact .inr h
  rcases analyze_of_yieldsOr hwalk with ⟨p', a, c, ha, ⟨hs, hrun⟩, -, -, hframes, hdiag, hmain⟩ | h
  · exact .inl ⟨p', a, c, ha, hs, hrun, hframes, hdiag, hmain⟩
  · exact .inr h

end TigerCheck
