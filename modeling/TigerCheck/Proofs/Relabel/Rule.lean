import TigerCheck.Proofs.Relabel.TypeName

/-!
# Typing rules under a relabelling

A rule looks at the types of its parts, at the tables and at names that are to be equal. So it gives the
relabelled type for relabelled parts, and reports the same faults with the new names.

* `Stage.carries_binary`, `Stage.carries_assign`, `Stage.carries_cond`, …: expressions.
* `Stage.carries_target`, `Stage.carries_arg`, `Stage.carries_call`: calls.
* `Stage.carries_recordFields`, `Stage.carries_place`, `Stage.carries_init`: record literals.
* `Stage.carries_simple`, `Stage.carries_field`, `Stage.carries_element`: variables.
* `Stage.carries_declared`, `Stage.carries_body`: declarations.
-/

namespace TigerCheck

open Check

namespace Stage

variable {ρ : Relabelling} {S : Stage ρ}

/-! ## Expressions -/

theorem carries_binary (op : BinOp) (loc : Location) : ∀ left right : Option Ty,
    S.Carries (Option.map (·.relabel ρ)) (Rule.binary op loc left right)
      (Rule.binary op loc (left.map (·.relabel ρ)) (right.map (·.relabel ρ)))
  | some left, some right => by
    simp only [Rule.binary, Option.map_some, Ty.isNil_relabel, Ty.isInt_relabel]
    refine relates_ite Iff.rfl (relates_ite Iff.rfl (carries_fail rfl) ?_)
      (relates_ite Iff.rfl (carries_pure (some Ty.int)) (carries_fail rfl))
    exact (carries_isMatch left right).bind fun _ =>
      relates_ite Iff.rfl (carries_pure (some Ty.int)) (carries_fail rfl)
  | none, _ => carries_pure none
  | some _, none => carries_pure none

theorem carries_assign (target value : Mark) : S.Carries (Option.map (·.relabel ρ))
    (Rule.assign target value) (Rule.assign (target.relabel ρ) (value.relabel ρ)) := by
  obtain ⟨_, _ | t⟩ := target
  · exact carries_pure none
  obtain ⟨_, _ | v⟩ := value
  · exact carries_pure none
  exact (carries_isMatch t v).bind fun _ =>
    relates_ite Iff.rfl (carries_pure (some Ty.void)) (carries_fail rfl)

theorem carries_branches (thenTy : Ty) (elsePart : Mark) : S.Carries (Option.map (·.relabel ρ))
    (Rule.branches thenTy elsePart) (Rule.branches (thenTy.relabel ρ) (elsePart.relabel ρ)) := by
  obtain ⟨_, _ | elseTy⟩ := elsePart
  · exact carries_pure none
  refine (carries_isMatch thenTy elseTy).bind fun _ => relates_ite Iff.rfl ?_ (carries_fail rfl)
  rw [Ty.isNil_relabel]
  split_ifs
  · exact carries_pure (some elseTy)
  · exact carries_pure (some thenTy)

theorem carries_cond (loc : Location) (test thenPart : Mark) (elsePart : Option Mark) :
    S.Carries (Option.map (·.relabel ρ)) (Rule.cond loc test thenPart elsePart)
      (Rule.cond loc (test.relabel ρ) (thenPart.relabel ρ) (elsePart.map (·.relabel ρ))) := by
  obtain ⟨_, _ | testTy⟩ := test
  · exact carries_pure none
  refine relates_ite (by rw [Ty.isInt_relabel]) ?_ (carries_fail rfl)
  obtain ⟨_, _ | thenTy⟩ := thenPart
  · exact carries_pure none
  cases elsePart with
  | none =>
    exact relates_ite (by rw [Ty.isVoid_relabel]) (carries_pure (some Ty.void)) (carries_fail rfl)
  | some elsePart => exact carries_branches thenTy elsePart

theorem carries_require (part : Mark) {ok : Ty → Bool} (hok : ∀ t : Ty, ok (t.relabel ρ) = ok t)
    {fault : Fault} (hfault : fault.Renamed ρ.toNames fault) :
    S.Carries id (Rule.require part ok fault) (Rule.require (part.relabel ρ) ok fault) := by
  obtain ⟨_, _ | t⟩ := part
  · exact carries_pure false
  · exact relates_ite (by rw [hok]) (carries_pure true) (carries_refuse hfault)

theorem carries_loop (test body : Mark) : S.Carries (Option.map (·.relabel ρ))
    (Rule.loop test body) (Rule.loop (test.relabel ρ) (body.relabel ρ)) := by
  refine Relates.bind (carries_require test Ty.isInt_relabel rfl) fun testOk =>
    Relates.bind (carries_require body Ty.isVoid_relabel rfl) fun bodyOk => ?_
  cases testOk
  · exact carries_pure none
  · cases bodyOk
    · exact carries_pure none
    · exact carries_pure (some Ty.void)

theorem carries_bounds (loc : Location) : ∀ low high : Option Ty,
    S.Carries id (Rule.bounds loc low high)
      (Rule.bounds loc (low.map (·.relabel ρ)) (high.map (·.relabel ρ)))
  | some low, some high => by
    simp only [Rule.bounds, Option.map_some, Ty.isInt_relabel]
    exact relates_ite Iff.rfl (carries_pure true) (carries_refuse rfl)
  | none, _ => carries_pure false
  | some _, none => carries_pure false

theorem carries_array (typeName : Ident) (ty : Option Ty) (size init : Mark) :
    S.Carries (Option.map (·.relabel ρ)) (Rule.array typeName ty size init)
      (Rule.array (typeName.rename ρ.typeName) (ty.map (·.relabel ρ)) (size.relabel ρ)
        (init.relabel ρ)) := by
  obtain _ | ty := ty
  · exact carries_pure none
  refine relates_ite (by rw [Ty.isArray_relabel]) ?_ (carries_fail rfl)
  refine carries_read (fun c => c.types.elementOf ty) (fun d => d.types.elementOf (ty.relabel ρ))
    (fun _ _ hM => hM.elementOf ty) fun element => ?_
  obtain _ | element := element
  · exact carries_pure none
  obtain ⟨_, _ | sizeTy⟩ := size
  · exact carries_pure none
  obtain ⟨_, _ | initTy⟩ := init
  · exact carries_pure none
  refine relates_ite (by rw [Ty.isInt_relabel]) ?_ (carries_fail rfl)
  exact (carries_sameType initTy element).bind fun _ =>
    relates_ite Iff.rfl (carries_pure (some ty)) (carries_fail rfl)

/-! ## Calls -/

theorem hiddenParams_eq_of_like {p p' : Prototype} (h : p.Like ρ p') : p'.hiddenParams = p.hiddenParams := by
  rw [Prototype.hiddenParams, Prototype.hiddenParams, h.origin_eq]
  cases p.origin <;> rfl

theorem agree_visible {p p' : Prototype} (h : p.Like ρ p') :
    Agree (Option.map (·.relabel ρ)) (Rule.visible p) (Rule.visible p') := by
  unfold Rule.visible
  rw [hiddenParams_eq_of_like h, h.signature_eq]
  cases p.signature with
  | none => exact .ok none
  | some s =>
    simp only [Option.map_some, Signature.relabel, List.length_map]
    split_ifs
    · rw [← List.map_drop]
      exact .ok (some (Signature.mk (s.params.drop p.hiddenParams) s.result))
    · intro _ _ h
      cases h

theorem exists_like (p : Prototype) : ∃ p', p.Like ρ p' :=
  ⟨⟨p.name, p.signature.map (·.relabel ρ), p.origin.relabel ρ⟩, rfl, rfl⟩

theorem carries_target (name : String) : S.Carries (Option.map (·.relabel ρ)) (Rule.target? name)
    (Rule.target? (ρ.function name)) := by
  have hfound : ∀ id : FunctionId, S.Carries (Option.map (·.relabel ρ))
      (do
        let prototype ← (← get).frames.function id
        let signature ← Rule.visible prototype
        return some (Rule.Target.mk id signature))
      (do
        let prototype ← (← get).frames.function (id.relabel ρ)
        let signature ← Rule.visible prototype
        return some (Rule.Target.mk (id.relabel ρ) signature)) := fun id =>
    relates_read_bind (Prototype.Like ρ) (fun c => c.frames.function id)
      (fun d => d.frames.function (id.relabel ρ)) (fun _ _ hM _ _ => hM.functions.entry) exists_like
      fun _ _ hlike => (carries_lift (agree_visible hlike)).bind fun signature =>
        carries_pure (some (Rule.Target.mk id signature))
  refine relates_lookup (·.relabel ρ) (fun c => c.functions.lookup name)
    (fun d => d.functions.lookup (ρ.function name)) (fun c => by cases c.functions.lookup name <;> rfl)
    (fun d => by cases d.functions.lookup (ρ.function name) <;> rfl) (fun c d hM => ?_) (carries_pure none) hfound
  rw [hM.functionNames_eq]
  exact Scopes.lookup_relabel S.faithful.names.function c.functions name

theorem expects_relabel (t : Option Rule.Target) (args : ℕ) :
    Rule.Target.expects (t.map (·.relabel ρ)) args =
      (Rule.Target.expects t args).map (·.relabel ρ) := by
  obtain _ | ⟨id, _ | s⟩ := t
  · rfl
  · rfl
  · simp only [Option.map_some, Rule.Target.relabel, Rule.Target.expects, Signature.relabel, List.length_map]
    split_ifs <;> rfl

theorem carries_arg (param : Option Ty) (value : Mark) : S.Carries id (Rule.arg param value)
    (Rule.arg (param.map (·.relabel ρ)) (value.relabel ρ)) := by
  obtain ⟨_, _ | t⟩ := value
  · exact carries_pure false
  obtain _ | p := param
  · exact carries_pure true
  exact (carries_sameType t p).bind fun _ => relates_ite Iff.rfl (carries_pure true) (carries_refuse rfl)

theorem carries_call (loc : Location) (callee : Ident) (target : Option Rule.Target) (args : ℕ) (fit : Bool) :
    S.Carries (Option.map (·.relabel ρ)) (Rule.call loc callee target args fit)
      (Rule.call loc (callee.rename ρ.function) (target.map (·.relabel ρ)) args fit) := by
  obtain _ | ⟨id, _ | s⟩ := target
  · exact carries_fail rfl
  · exact carries_pure none
  · simp only [Option.map_some, Rule.Target.relabel, Rule.call, Signature.relabel, List.length_map]
    refine relates_ite Iff.rfl ?_ (carries_fail rfl)
    cases fit
    · exact carries_pure none
    · exact carries_pure (some s.result)

/-! ## Record literals -/

theorem carries_recordFields (loc : Location) (typeName : Ident) (inits : ℕ) (ty : Option Ty) :
    S.Carries (Option.map (List.map (·.relabel ρ))) (Rule.recordFields loc typeName inits ty)
      (Rule.recordFields loc (typeName.rename ρ.typeName) inits (ty.map (·.relabel ρ))) := by
  obtain _ | ty := ty
  · exact carries_pure none
  refine carries_read (fun c => c.types.asRecord ty) (fun d => d.types.asRecord (ty.relabel ρ))
    (fun _ _ hM => hM.asRecord ty) fun r => ?_
  obtain _ | r := r
  · exact carries_fail rfl
  · simp only [Option.map_some, RecordEntry.relabel, List.length_map]
    exact relates_ite Iff.rfl (carries_pure (some r.fields)) (carries_fail rfl)

theorem carries_place (loc : Location) (typeName : String) (name : Ident) : ∀ fields : Option (List Field),
    S.Carries (Option.map (List.map (·.relabel ρ))) (Rule.place loc typeName name fields)
      (Rule.place loc (ρ.typeName typeName) (name.rename ρ.field)
        (fields.map (List.map (·.relabel ρ))))
  | some (f :: fs) =>
    relates_ite S.faithful.names.field.eq_iff (carries_pure (some (f :: fs))) (carries_fail rfl)
  | some [] => carries_pure (some [])
  | none => carries_pure none

theorem carries_init (field : Option Field) (value : Mark) : S.Carries id (Rule.init field value)
    (Rule.init (field.map (·.relabel ρ)) (value.relabel ρ)) := by
  obtain ⟨_, _ | t⟩ := value
  · exact carries_pure false
  obtain _ | f := field
  · exact carries_pure true
  exact (carries_isMatch t f.ty).bind fun _ => relates_ite Iff.rfl (carries_pure true) (carries_refuse rfl)

/-! ## Variables -/

theorem exists_slot_like (exact : Prop) (s : Slot) : ∃ s', s.Like ρ exact s' :=
  ⟨{ s with ty := s.ty.map (·.relabel ρ), frame := s.frame.relabel ρ }, rfl,
    fun _ => ⟨rfl, rfl, rfl, rfl⟩⟩

theorem carries_simple (loc : Location) (name : String) :
    S.Carries (Prod.map (Option.map (·.relabel ρ)) (Option.map (·.relabel ρ)))
      (Rule.simple loc name) (Rule.simple loc (ρ.value name)) := by
  have hfound : ∀ id : VarId,
      S.Carries (Prod.map (Option.map (·.relabel ρ)) (Option.map (·.relabel ρ)))
      (do
        let slot ← (← get).frames.var id
        return (some id, slot.ty))
      (do
        let slot ← (← get).frames.var (id.relabel ρ)
        return (some (id.relabel ρ), slot.ty)) := fun id =>
    relates_read_bind (Slot.Like ρ S.exact) (fun c => c.frames.var id)
      (fun d => d.frames.var (id.relabel ρ)) (fun _ _ hM _ _ => hM.vars.entry) (exists_slot_like S.exact)
      fun s _ hlike => by
        rw [hlike.ty_eq]
        exact carries_pure (some id, s.ty)
  refine relates_lookup (·.relabel ρ) (fun c => c.values.lookup name) (fun d => d.values.lookup (ρ.value name))
    (fun c => by cases c.values.lookup name <;> rfl) (fun d => by cases d.values.lookup (ρ.value name) <;> rfl)
    (fun c d hM => ?_) ?_ hfound
  · rw [hM.values_eq]
    exact Scopes.lookup_relabel S.faithful.names.value c.values name
  · exact Relates.bind (carries_fail rfl) fun ty => carries_pure (none, ty)

theorem fieldIndex_relabel (hρ : ρ.Faithful) (r : RecordEntry) (name : String) :
    (r.relabel ρ).fieldIndex (ρ.field name) = r.fieldIndex name := by
  have hname : (fun f : Field => f.name == ρ.field name) ∘ (·.relabel ρ) =
      fun f : Field => f.name == name := by
    funext f
    simp only [Function.comp_apply, Field.relabel]
    rw [Bool.eq_iff_iff, beq_iff_eq, beq_iff_eq, hρ.names.field.eq_iff]
  simp only [RecordEntry.fieldIndex, RecordEntry.relabel, List.findIdx?_map, hname]

theorem carries_field (loc : Location) (base : Mark) (name : Ident) :
    S.Carries (Prod.map id (Option.map (·.relabel ρ))) (Rule.field loc base name)
      (Rule.field loc (base.relabel ρ) (name.rename ρ.field)) := by
  obtain ⟨_, _ | baseTy⟩ := base
  · exact carries_pure (none, none)
  refine carries_read (fun c => c.types.asRecord baseTy) (fun d => d.types.asRecord (baseTy.relabel ρ))
    (fun _ _ hM => hM.asRecord baseTy) fun r => ?_
  obtain _ | r := r
  · exact Relates.bind (carries_fail rfl) fun ty => carries_pure (none, ty)
  · simp only [Option.map_some, Ident.rename, fieldIndex_relabel S.faithful]
    cases r.fieldIndex name.name with
    | none => exact Relates.bind (carries_fail rfl) fun ty => carries_pure (none, ty)
    | some i =>
      simp only [RecordEntry.relabel, List.getElem?_map]
      cases r.fields[i]? with
      | none => exact relates_throw
      | some f => exact carries_pure (some i, some f.ty)

theorem carries_element (base index : Mark) : S.Carries (Option.map (·.relabel ρ))
    (Rule.element base index) (Rule.element (base.relabel ρ) (index.relabel ρ)) := by
  obtain ⟨_, _ | baseTy⟩ := base
  · exact carries_pure none
  refine relates_ite (by rw [Ty.isArray_relabel]) ?_ (carries_fail rfl)
  obtain ⟨_, _ | indexTy⟩ := index
  · exact carries_pure none
  refine relates_ite (by rw [Ty.isInt_relabel]) ?_ (carries_fail rfl)
  exact relates_read _ _ fun _ _ hM => hM.elementOf baseTy

/-! ## Declarations -/

theorem carries_inferred (init : Mark) : S.Carries (Prod.map (Option.map (·.relabel ρ)) id)
    (Rule.inferred init) (Rule.inferred (init.relabel ρ)) := by
  obtain ⟨loc, ty⟩ := init
  rcases ty with _ | (_ | _ | _ | _ | _ | _ | _)
  case some.nil => exact Relates.bind (carries_fail rfl) fun ty => carries_pure (ty, false)
  all_goals exact carries_pure (_, _)

theorem carries_annotated (typeName : Ident) (init : Mark) (literal : Bool) :
    S.Carries (Prod.map (Option.map (·.relabel ρ)) id) (Rule.annotated typeName init literal)
      (Rule.annotated (typeName.rename ρ.typeName) (init.relabel ρ) literal) := by
  refine (carries_typeOf typeName).bind fun declared => ?_
  obtain _ | ty := declared
  · exact carries_pure (none, false)
  obtain ⟨loc, _ | i⟩ := init
  · exact carries_pure (some ty, false)
  refine (carries_isMatch ty i).bind fun b => relates_ite ?_ (carries_pure (some ty, true))
    (Relates.bind (carries_refuse rfl) fun ok => carries_pure (some ty, ok))
  simp [S.faithful.ty_inj]

theorem carries_declared (typeName : Option Ident) (init : Mark) (literal : Bool) :
    S.Carries (Prod.map (Option.map (·.relabel ρ)) id) (Rule.declared typeName init literal)
      (Rule.declared (typeName.map (·.rename ρ.typeName)) (init.relabel ρ) literal) := by
  cases typeName with
  | none => exact carries_inferred init
  | some typeName => exact carries_annotated typeName init literal

theorem carries_body (result : Option Ty) (body : Mark) : S.Carries id (Rule.body result body)
    (Rule.body (result.map (·.relabel ρ)) (body.relabel ρ)) := by
  obtain _ | r := result
  · exact carries_pure false
  obtain ⟨_, _ | b⟩ := body
  · exact carries_pure false
  refine relates_ite (by rw [Ty.isVoid_relabel])
    (relates_ite (by rw [Ty.isVoid_relabel]) (carries_pure true) (carries_refuse rfl)) ?_
  exact (carries_sameType r b).bind fun _ => relates_ite Iff.rfl (carries_pure true) (carries_refuse rfl)

end Stage

end TigerCheck
