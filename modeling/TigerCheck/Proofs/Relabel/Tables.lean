import TigerCheck.Proofs.Frame
import TigerCheck.Proofs.Relabel.State
import TigerCheck.Proofs.Ty.Same

/-!
# Actions on tables under a relabelling

New entries get numbers that belong to each other, and old entries are found under their new numbers. Two types
are the same, or match, if and only if the relabelled types do, since a comparison only looks at entries and
at whether handles are equal.

* `Stage.carries_alloc`, `Stage.carries_newFrame`, `Stage.carries_addFunction`, `Stage.carries_finalize`: frames.
* `Stage.carries_newRecord`, `Stage.carries_setFields`, …, `Stage.carries_setNamedType`: types and type names.
* **`Stage.Match.sameType`**, **`Stage.Match.isMatch`**: comparing types.
-/

namespace TigerCheck

open Check

namespace Arena

variable {a a' : Arena}

theorem setFields_eq {id : RecordId} {fields : List Field} (h : a.setFields id fields = .ok a') :
    ∃ hlt : id.index < a.records.size, a' =
      { a with records := a.records.set id.index { a.records[id.index] with fields := fields } } := by
  unfold setFields at h
  split at h
  · rename_i hlt
    cases h
    exact ⟨hlt, rfl⟩
  · cases h

theorem setElement_eq {id : ArrayId} {element : Ty} (h : a.setElement id element = .ok a') :
    ∃ hlt : id.index < a.arrays.size, a' =
      { a with arrays := a.arrays.set id.index (a.arrays[id.index].offer element) } := by
  unfold setElement at h
  split at h
  · rename_i hlt
    cases h
    exact ⟨hlt, rfl⟩
  · cases h

end Arena

/-! ## Growing tables -/

namespace Checker

variable {c : Checker}

theorem count_alloc {frame : FrameId} {name : String} {ty : Option Ty} {kind : SlotKind} {v : VarId}
    {frames : FrameTable} (h : c.frames.alloc frame name ty kind = .ok (v, frames)) (j : Handle) :
    count { c with frames } j = c.count j + if j = .var then 1 else 0 := by
  obtain ⟨_, -, rfl⟩ := FrameTable.alloc_eq h
  cases j <;> simp [count]

theorem count_finalize {frame : FrameId} {frames : FrameTable} (h : c.frames.finalize frame = .ok frames)
    (j : Handle) : count { c with frames } j = c.count j + 0 := by
  obtain ⟨_, _, -, rfl⟩ := FrameTable.finalize_spec h
  cases j <;> simp [count]

theorem count_newFrame (name : String) (level : ℕ) (parent : Option FrameId) (j : Handle) :
    count { c with frames := (c.frames.newFrame name level parent).2 } j =
      c.count j + if j = .frame then 1 else 0 := by
  cases j <;> simp [count, FrameTable.newFrame]

theorem count_addFunction (p : Prototype) (functions : Scopes FunctionId) (j : Handle) :
    count { c with frames := (c.frames.addFunction p).2, functions } j =
      c.count j + if j = .function then 1 else 0 := by
  cases j <;> simp [count, FrameTable.addFunction]

theorem count_newRecord (name : String) (fields : List Field) (j : Handle) :
    count { c with types := (c.types.newRecord name fields).2 } j = c.count j + if j = .record then 1 else 0 := by
  cases j <;> simp [count, Arena.newRecord]

theorem count_newArray (name : String) (element : Option Ty) (j : Handle) :
    count { c with types := (c.types.newArray name element).2 } j = c.count j + if j = .array then 1 else 0 := by
  cases j <;> simp [count, Arena.newArray]

theorem count_setFields {id : RecordId} {fields : List Field} {types : Arena}
    (h : c.types.setFields id fields = .ok types) (j : Handle) :
    count { c with types } j = c.count j + 0 := by
  obtain ⟨_, rfl⟩ := Arena.setFields_eq h
  cases j <;> simp [count]

theorem count_setElement {id : ArrayId} {element : Ty} {types : Arena}
    (h : c.types.setElement id element = .ok types) (j : Handle) :
    count { c with types } j = c.count j + 0 := by
  obtain ⟨_, rfl⟩ := Arena.setElement_eq h
  cases j <;> simp [count]

theorem count_setNamedType (i : ℕ) (t : NamedType) (j : Handle) :
    count { c with namedTypes := c.namedTypes.setIfInBounds i t } j = c.count j + 0 := by
  cases j <;> simp [count]

end Checker

namespace Stage

variable {ρ : Relabelling} {S : Stage ρ} {c c' d d' : Checker}

theorem count_le_of_add {k : Handle} (h : ∀ j, c'.count j = c.count j + if j = k then 1 else 0) :
    c.count ≤ c'.count := fun j => by
  rw [h]
  exact Nat.le_add_right _ _

theorem lt_limit_of_add {k : Handle} (h : ∀ j, c'.count j = c.count j + if j = k then 1 else 0)
    (hlim : c'.count ≤ S.limit) : c.count k < S.limit k := by
  have hk := hlim k
  rw [h, if_pos rfl] at hk
  exact hk

/-! ## Frames -/

theorem carries_alloc (frame : FrameId) (name name' : String) (ty : Option Ty) (kind : SlotKind) :
    S.Carries (·.relabel ρ) (alloc frame name ty kind)
      (alloc (frame.relabel ρ) name' (ty.map (·.relabel ρ)) kind) := by
  intro c v c' hrun
  obtain ⟨_, _, halloc, rfl, rfl⟩ := yields_alloc.mp (yields_of_run hrun)
  have hadd := Checker.count_alloc halloc
  refine ⟨count_le_of_add hadd, fun d w d' hrun' hM hlim => ?_⟩
  obtain ⟨_, _, halloc', rfl, rfl⟩ := yields_alloc.mp (yields_of_run hrun')
  have hadd' := Checker.count_alloc halloc'
  have hnext := next_add hM hadd hadd'
  have hnew := hM.handle_count (lt_limit_of_add hadd hlim)
  obtain ⟨hlt, rfl, rfl⟩ := FrameTable.alloc_eq halloc
  obtain ⟨hlt', rfl, rfl⟩ := FrameTable.alloc_eq halloc'
  have hframe := hM.frames.getElem hlt hlt'
  have hid : VarId.mk d.frames.vars.size = VarId.relabel ρ ⟨c.frames.vars.size⟩ :=
    congrArg VarId.mk hnew.symm
  refine ⟨hid, { hM with
    vars := hM.vars.push (S.faithful.handle _) hnew
      ⟨rfl, fun hexact => ⟨hframe.level_eq hexact, ?_, rfl, rfl⟩⟩
    frames := hM.frames.set (S.faithful.handle _) hlt hlt'
      ⟨hframe.level_eq, hframe.parent_eq, fun hexact => ?_, hframe.layout_eq⟩
    next := hnext }⟩
  · exact (congrArg Array.size (hframe.slots_eq hexact)).trans Array.size_map
  · exact (congrArg₂ Array.push (hframe.slots_eq hexact) hid).trans Array.map_push.symm

theorem carries_newFrame (name name' : String) (level : ℕ) (parent : FrameId) :
    S.Carries (·.relabel ρ) (newFrame name level parent) (newFrame name' level (parent.relabel ρ)) := by
  intro c _ _ hrun
  obtain ⟨rfl, rfl⟩ := yields_newFrame.mp (yields_of_run hrun)
  have hadd : ∀ j, _ := Checker.count_newFrame (c := c) name level (some parent)
  refine ⟨count_le_of_add hadd, fun d _ _ hrun' hM hlim => ?_⟩
  obtain ⟨rfl, rfl⟩ := yields_newFrame.mp (yields_of_run hrun')
  have hnew := hM.handle_count (lt_limit_of_add hadd hlim)
  exact ⟨congrArg FrameId.mk hnew.symm, { hM with
    frames := hM.frames.push (S.faithful.handle _) hnew ⟨fun _ => rfl, fun _ => rfl, fun _ => Array.map_empty.symm, fun _ => rfl⟩
    next := next_add hM hadd (Checker.count_newFrame _ _ _) }⟩

theorem carries_addFunction {p p' : Prototype} (h : p.Like ρ p') (hname : p'.name = ρ.function p.name) :
    S.Carries (·.relabel ρ) (addFunction p) (addFunction p') := by
  intro c _ _ hrun
  obtain ⟨rfl, rfl⟩ := yields_addFunction.mp (yields_of_run hrun)
  have hadd := Checker.count_addFunction (c := c) p (c.functions.bind p.name (c.frames.addFunction p).1)
  refine ⟨count_le_of_add hadd, fun d _ _ hrun' hM hlim => ?_⟩
  obtain ⟨rfl, rfl⟩ := yields_addFunction.mp (yields_of_run hrun')
  have hnew := hM.handle_count (lt_limit_of_add hadd hlim)
  have hid : FunctionId.mk d.frames.functions.size = FunctionId.relabel ρ ⟨c.frames.functions.size⟩ :=
    congrArg FunctionId.mk hnew.symm
  refine ⟨hid, { hM with
    functions := hM.functions.push (S.faithful.handle _) hnew h
    functionNames_eq := ?_
    next := next_add hM hadd (Checker.count_addFunction _ _) }⟩
  rw [Scopes.relabel_bind, ← hM.functionNames_eq, hname]
  exact congrArg (d.functions.bind (ρ.function p.name)) hid

/-- Slots that belong to each other have types that do. -/
theorem Match.slotTypes (hM : S.Match c d) (vs : List VarId) : Agree (List.map (Option.map (·.relabel ρ)))
    (vs.mapM fun v => (·.ty) <$> c.frames.var v)
    ((vs.map (·.relabel ρ)).mapM fun v => (·.ty) <$> d.frames.var v) := by
  induction vs with
  | nil => exact .ok []
  | cons v vs ih =>
    rw [List.map_cons, List.mapM_cons, List.mapM_cons]
    refine Agree.bind ?_ fun ty => ih.bind fun tys => .ok (ty :: tys)
    intro ty ty' hty hty'
    cases hs : c.frames.var v with
    | error e =>
      rw [hs] at hty
      cases hty
    | ok s =>
      cases hs' : d.frames.var (v.relabel ρ) with
      | error e =>
        rw [hs'] at hty'
        cases hty'
      | ok s' =>
        rw [hs] at hty
        rw [hs'] at hty'
        cases hty
        cases hty'
        exact (hM.vars.entry hs hs').ty_eq

theorem carries_finalize (frame : FrameId) :
    S.Carries id (finalize frame) (finalize (frame.relabel ρ)) := by
  intro c _ _ hrun
  obtain ⟨_, hfin, -, rfl⟩ := yields_finalize.mp (yields_of_run hrun)
  have hadd := Checker.count_finalize hfin
  refine ⟨fun j => (hadd j).ge, fun d _ _ hrun' hM hlim => ?_⟩
  obtain ⟨_, hfin', -, rfl⟩ := yields_finalize.mp (yields_of_run hrun')
  have hnext := next_add hM hadd (Checker.count_finalize hfin')
  obtain ⟨hlt, layout, hlayout, rfl⟩ := FrameTable.finalize_spec hfin
  obtain ⟨hlt', layout', hlayout', rfl⟩ := FrameTable.finalize_spec hfin'
  have hframe := hM.frames.getElem hlt hlt'
  refine ⟨rfl, { hM with
    frames := hM.frames.set (S.faithful.handle _) hlt hlt'
      ⟨hframe.level_eq, hframe.parent_eq, hframe.slots_eq, fun hexact => ?_⟩
    next := hnext }⟩
  have hslots : d.frames.frames[ρ.handle .frame frame.index].slots.toList =
      c.frames.frames[frame.index].slots.toList.map (·.relabel ρ) := by
    rw [hframe.slots_eq hexact, Array.toList_map]
  have hagree := hM.slotTypes c.frames.frames[frame.index].slots.toList
  rw [← hslots] at hagree
  exact congrArg some (hagree _ _ hlayout hlayout')

/-! ## Records and arrays -/

theorem carries_newRecord (name : String) (fields : List Field) :
    S.Carries (·.relabel ρ) (newRecord name fields)
      (newRecord (ρ.typeName name) (fields.map (·.relabel ρ))) := by
  intro c _ _ hrun
  obtain ⟨rfl, rfl⟩ := yields_newRecord.mp (yields_of_run hrun)
  have hadd := Checker.count_newRecord (c := c) name fields
  refine ⟨count_le_of_add hadd, fun d _ _ hrun' hM hlim => ?_⟩
  obtain ⟨rfl, rfl⟩ := yields_newRecord.mp (yields_of_run hrun')
  have hnew := hM.handle_count (lt_limit_of_add hadd hlim)
  exact ⟨congrArg (Ty.record ∘ RecordId.mk) hnew.symm, { hM with
    records := hM.records.push (S.faithful.handle _) hnew rfl
    next := next_add hM hadd (Checker.count_newRecord _ _) }⟩

theorem carries_newArray (name : String) (element : Option Ty) :
    S.Carries (·.relabel ρ) (newArray name element)
      (newArray (ρ.typeName name) (element.map (·.relabel ρ))) := by
  intro c _ _ hrun
  obtain ⟨rfl, rfl⟩ := yields_newArray.mp (yields_of_run hrun)
  have hadd := Checker.count_newArray (c := c) name element
  refine ⟨count_le_of_add hadd, fun d _ _ hrun' hM hlim => ?_⟩
  obtain ⟨rfl, rfl⟩ := yields_newArray.mp (yields_of_run hrun')
  have hnew := hM.handle_count (lt_limit_of_add hadd hlim)
  exact ⟨congrArg (Ty.array ∘ ArrayId.mk) hnew.symm, { hM with
    arrays := hM.arrays.push (S.faithful.handle _) hnew rfl
    next := next_add hM hadd (Checker.count_newArray _ _) }⟩

theorem carries_setFields (id : RecordId) (fields : List Field) : S.Carries (fun u => u) (setFields id fields)
    (setFields (id.relabel ρ) (fields.map (·.relabel ρ))) := by
  intro c _ _ hrun
  obtain ⟨_, hset, -, rfl⟩ := yields_setFields.mp (yields_of_run hrun)
  have hadd := Checker.count_setFields hset
  refine ⟨fun j => (hadd j).ge, fun d _ _ hrun' hM _ => ?_⟩
  obtain ⟨_, hset', -, rfl⟩ := yields_setFields.mp (yields_of_run hrun')
  have hnext := next_add hM hadd (Checker.count_setFields hset')
  obtain ⟨hlt, rfl⟩ := Arena.setFields_eq hset
  obtain ⟨hlt', rfl⟩ := Arena.setFields_eq hset'
  have hentry := hM.records.getElem hlt hlt'
  refine ⟨rfl, { hM with
    records := hM.records.set (S.faithful.handle _) hlt hlt' ?_
    next := hnext }⟩
  exact congrArg (fun e : RecordEntry => RecordEntry.mk e.name (fields.map (·.relabel ρ))) hentry

theorem offer_relabel (e : ArrayEntry) (t : Ty) :
    (e.relabel ρ).offer (t.relabel ρ) = (e.offer t).relabel ρ := by
  obtain ⟨name, _ | _⟩ := e <;> rfl

theorem carries_setElement (id : ArrayId) (element : Ty) : S.Carries (fun u => u) (setElement id element)
    (setElement (id.relabel ρ) (element.relabel ρ)) := by
  intro c _ _ hrun
  obtain ⟨_, hset, -, rfl⟩ := yields_setElement.mp (yields_of_run hrun)
  have hadd := Checker.count_setElement hset
  refine ⟨fun j => (hadd j).ge, fun d _ _ hrun' hM _ => ?_⟩
  obtain ⟨_, hset', -, rfl⟩ := yields_setElement.mp (yields_of_run hrun')
  have hnext := next_add hM hadd (Checker.count_setElement hset')
  obtain ⟨hlt, rfl⟩ := Arena.setElement_eq hset
  obtain ⟨hlt', rfl⟩ := Arena.setElement_eq hset'
  have hentry := hM.arrays.getElem hlt hlt'
  refine ⟨rfl, { hM with
    arrays := hM.arrays.set (S.faithful.handle _) hlt hlt' ?_
    next := hnext }⟩
  exact (congrArg (ArrayEntry.offer · (element.relabel ρ)) hentry).trans (offer_relabel _ _)

/-! ## Type names -/

theorem carries_namedType (id : NamedTypeId) :
    S.Carries (·.relabel ρ) (namedType id) (namedType (id.relabel ρ)) :=
  relates_read _ _ fun _ _ hM => hM.namedTypes.agree id.index

theorem carries_setNamedType (id : NamedTypeId) (t : NamedType) : S.Carries (fun u => u) (setNamedType id t)
    (setNamedType (id.relabel ρ) (t.relabel ρ)) := by
  intro c _ _ hrun
  obtain ⟨hlt, -, rfl⟩ := yields_setNamedType.mp (yields_of_run hrun)
  have hadd := Checker.count_setNamedType (c := c) id.index t
  refine ⟨fun j => (hadd j).ge, fun d _ _ hrun' hM _ => ?_⟩
  obtain ⟨hlt', -, rfl⟩ := yields_setNamedType.mp (yields_of_run hrun')
  refine ⟨rfl, { hM with namedTypes := ?_, next := next_add hM hadd (Checker.count_setNamedType _ _) }⟩
  simp only [Array.setIfInBounds, dif_pos hlt, dif_pos hlt']
  exact hM.namedTypes.set (S.faithful.handle _) hlt hlt' rfl

/-! ## Comparing types -/

/-- Comparisons under assumptions agree. They end after the same number of steps, but nothing is said about
whether they are given enough of them. -/
theorem Match.sameTypeUnder (hM : S.Match c d) : ∀ (steps steps' : ℕ) (assumed : List (ArrayId × ArrayId)) (s t : Ty),
    Agree id (c.types.sameTypeUnder steps assumed s t) (d.types.sameTypeUnder steps'
      (assumed.map (Prod.map (·.relabel ρ) (·.relabel ρ))) (s.relabel ρ) (t.relabel ρ))
  | 0, _, _, _, _ => fun _ _ h _ => nomatch h
  | _ + 1, 0, _, _, _ => fun _ _ _ h => nomatch h
  | steps + 1, steps' + 1, assumed, s, t => by
    by_cases harr : s.isArray = true ∧ t.isArray = true
    · obtain ⟨⟨x, rfl⟩, y, rfl⟩ := harr.imp Ty.isArray_iff.mp Ty.isArray_iff.mp
      have hcond : (x.relabel ρ = y.relabel ρ ∨ (x.relabel ρ, y.relabel ρ) ∈
          assumed.map (Prod.map (·.relabel ρ) (·.relabel ρ))) ↔ (x = y ∨ (x, y) ∈ assumed) := by
        have hpair : Function.Injective (Prod.map (ArrayId.relabel ρ) (ArrayId.relabel ρ)) :=
          Function.Injective.prodMap (fun _ _ => S.faithful.arrayId_inj.mp) (fun _ _ => S.faithful.arrayId_inj.mp)
        rw [S.faithful.arrayId_inj]
        have hmem : Prod.map (ArrayId.relabel ρ) (ArrayId.relabel ρ) (x, y) ∈
            assumed.map (Prod.map (·.relabel ρ) (·.relabel ρ)) ↔ (x, y) ∈ assumed :=
          List.mem_map_of_injective hpair
        exact or_congr_right hmem
      rw [Arena.sameTypeUnder_array]
      simp only [Ty.relabel]
      rw [Arena.sameTypeUnder_array]
      by_cases h : x = y ∨ (x, y) ∈ assumed
      · rw [if_pos h, if_pos (hcond.mpr h)]
        exact .ok true
      · rw [if_neg h, if_neg (mt hcond.mp h)]
        refine (hM.arrays.agree x.index).bind fun left => (hM.arrays.agree y.index).bind fun right => ?_
        obtain ⟨_, el⟩ := left
        obtain ⟨_, er⟩ := right
        cases el with
        | none => exact .ok false
        | some s =>
          cases er with
          | none => exact .ok false
          | some t => exact hM.sameTypeUnder steps steps' ((x, y) :: assumed) s t
    · rw [Arena.sameTypeUnder_of_not_array _ _ harr, Arena.sameTypeUnder_of_not_array _ _ (by simpa using harr)]
      have heq : (s.relabel ρ == t.relabel ρ) = (s == t) := by
        rw [Bool.eq_iff_iff, beq_iff_eq, beq_iff_eq, S.faithful.ty_inj]
      rw [heq]
      exact .ok _

/-- **Two types are the same if and only if the relabelled ones are.** -/
theorem Match.sameType (hM : S.Match c d) (s t : Ty) :
    Agree id (c.types.sameType s t) (d.types.sameType (s.relabel ρ) (t.relabel ρ)) :=
  hM.sameTypeUnder _ _ [] s t

theorem Match.sameFieldTypes (hM : S.Match c d) : ∀ fs gs : List Field, Agree id (c.types.sameFieldTypes fs gs)
    (d.types.sameFieldTypes (fs.map (·.relabel ρ)) (gs.map (·.relabel ρ)))
  | f :: fs, g :: gs => (hM.sameType f.ty g.ty).bind fun b => by
    cases b with
    | true => exact hM.sameFieldTypes fs gs
    | false => exact .ok false
  | [], [] => .ok true
  | [], _ :: _ => .ok true
  | _ :: _, [] => .ok true

theorem Match.sameLayout (hM : S.Match c d) (x y : RecordId) :
    Agree id (c.types.sameLayout x y) (d.types.sameLayout (x.relabel ρ) (y.relabel ρ)) := by
  refine (hM.records.agree x.index).bind fun left => (hM.records.agree y.index).bind fun right => ?_
  simp only [RecordEntry.relabel, List.length_map]
  split_ifs
  · exact hM.sameFieldTypes left.fields right.fields
  · exact .ok false

theorem Match.matchDistinct (hM : S.Match c d) (s t : Ty) :
    Agree id (c.types.matchDistinct s t) (d.types.matchDistinct (s.relabel ρ) (t.relabel ρ)) := by
  cases s with
  | record x =>
    cases t with
    | record y => exact hM.sameLayout x y
    | _ => exact .ok _
  | _ => cases t <;> exact .ok _

/-- **A type matches another if and only if the relabelled types match.** -/
theorem Match.isMatch (hM : S.Match c d) (s t : Ty) : Agree id (c.types.isMatch (some s) (some t))
    (d.types.isMatch (some (s.relabel ρ)) (some (t.relabel ρ))) := by
  simp only [Arena.isMatch, Ty.isNil_relabel]
  split_ifs
  · exact .ok false
  · refine (hM.sameType s t).bind fun b => ?_
    cases b with
    | true => exact .ok true
    | false => exact hM.matchDistinct s t

theorem carries_sameType (s t : Ty) :
    S.Carries id (sameType s t) (sameType (s.relabel ρ) (t.relabel ρ)) :=
  relates_read _ _ fun _ _ hM => hM.sameType s t

theorem carries_isMatch (s t : Ty) :
    S.Carries id (isMatch s t) (isMatch (s.relabel ρ) (t.relabel ρ)) :=
  relates_read _ _ fun _ _ hM => hM.isMatch s t

/-! ## Reading the arena -/

theorem Match.asRecord (hM : S.Match c d) : ∀ t : Ty,
    Agree (Option.map (·.relabel ρ)) (c.types.asRecord t) (d.types.asRecord (t.relabel ρ))
  | .record id => (hM.records.agree id.index).map fun _ => rfl
  | .int | .string | .nil | .void | .array _ | .frame _ => .ok none

theorem Match.elementOf (hM : S.Match c d) : ∀ t : Ty,
    Agree (Option.map (·.relabel ρ)) (c.types.elementOf t) (d.types.elementOf (t.relabel ρ))
  | .array id => (hM.arrays.agree id.index).map fun _ => rfl
  | .int | .string | .nil | .void | .record _ | .frame _ => .ok none

end Stage

end TigerCheck
