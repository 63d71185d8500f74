import TigerCheck.Checker.Rule
import TigerCheck.Proofs.Flow.TypeName

/-!
# Where the types of nodes come from

The type that a rule gives is a fixed one, or it was read off a part, a slot, a field, an element or a
signature. None of these is a pointer to a frame.

* `Check.Typed`: an answer, if there is one, is the type of an expression.
* **`Check.upholds_binary`**, **`Check.upholds_simple`**, …: the rules.
-/

namespace TigerCheck

namespace Check

variable {c : Checker} {loc : Location}

/-- An answer, if there is one, is the type of an expression. -/
abbrev Typed (ty : Option Ty) (c : Checker) : Prop := ∀ t ∈ ty, c.types.Types t

theorem typed_none (c : Checker) : Typed none c := fun _ h => absurd h (Option.not_mem_none _)

theorem typed_some {c : Checker} {t : Ty} (h : c.types.Types t) : Typed (some t) c := by
  rintro u ⟨⟩
  exact h

theorem Stored.typed {ty : Option Ty} (h : Stored ty c) : Typed ty c := fun t ht => (h t ht).types

theorem Typed.widen {c' : Checker} {ty : Option Ty} (hw : c.Widens c') (h : Typed ty c) : Typed ty c' :=
  fun t ht => hw.types (h t ht)

theorem Stored.widen {c' : Checker} {ty : Option Ty} (hw : c.Widens c') (h : Stored ty c) : Stored ty c' :=
  fun t ht => hw.stores t (h t ht)

theorem upholds_fault (hc : c.Proper) (fault : Fault) (loc : Location) : Upholds (fail fault loc) c Typed :=
  (upholds_fail hc fault loc).mono fun _ c' _ h => h ▸ typed_none c'

theorem upholds_refuse (hc : c.Proper) (fault : Fault) (loc : Location) :
    Upholds (refuse fault loc) c fun _ _ => True :=
  (upholds_report hc fault loc).bind fun _ _ hc' _ _ => .pure hc' trivial

theorem upholds_sameType (hc : c.Proper) (s t : Ty) : Upholds (sameType s t) c fun _ _ => True :=
  .get ((Upholds.lift hc).mono fun _ _ _ _ => trivial)

theorem upholds_isMatch (hc : c.Proper) (s t : Ty) : Upholds (isMatch s t) c fun _ _ => True :=
  .get ((Upholds.lift hc).mono fun _ _ _ _ => trivial)

/-! ## Expressions -/

theorem upholds_binary (hc : c.Proper) (op : BinOp) (left right : Option Ty) :
    Upholds (Rule.binary op loc left right) c Typed := by
  have hint : ∀ {c : Checker}, c.Proper → Upholds (pure (some Ty.int)) c Typed := fun hc =>
    .pure hc (typed_some Arena.stores_int.types)
  unfold Rule.binary
  split
  · refine .ite (fun _ => .ite (fun _ => upholds_fault hc _ _) fun _ => ?_)
      fun _ => .ite (fun _ => hint hc) fun _ => upholds_fault hc _ _
    exact (upholds_isMatch hc _ _).bind fun _ _ hc₁ _ _ => .ite (fun _ => hint hc₁) fun _ => upholds_fault hc₁ _ _
  · exact .pure hc (typed_none c)

theorem upholds_assign (hc : c.Proper) (target value : Mark) : Upholds (Rule.assign target value) c Typed := by
  unfold Rule.assign
  split
  · exact (upholds_isMatch hc _ _).bind fun _ _ hc₁ _ _ =>
      .ite (fun _ => .pure hc₁ (typed_some Arena.types_void)) fun _ => upholds_fault hc₁ _ _
  · exact .pure hc (typed_none c)

theorem upholds_branches (hc : c.Proper) {thenTy : Ty} (h : c.types.Types thenTy) {elsePart : Mark}
    (helse : Typed elsePart.ty c) : Upholds (Rule.branches thenTy elsePart) c Typed := by
  unfold Rule.branches
  split
  · exact .pure hc (typed_none c)
  · next elseTy he =>
    refine (upholds_isMatch hc _ _).bind fun _ _ hc₁ hw₁ _ => .ite (fun _ => .pure hc₁ (typed_some ?_))
      fun _ => upholds_fault hc₁ _ _
    split
    · exact hw₁.types (helse elseTy he)
    · exact hw₁.types h

theorem upholds_cond (hc : c.Proper) (test : Mark) {thenPart : Mark} {elsePart : Option Mark}
    (hthen : Typed thenPart.ty c) (helse : ∀ e ∈ elsePart, Typed e.ty c) :
    Upholds (Rule.cond loc test thenPart elsePart) c Typed := by
  unfold Rule.cond
  split
  · exact .pure hc (typed_none c)
  · refine .ite (fun _ => ?_) fun _ => upholds_fault hc _ _
    split
    · exact .pure hc (typed_none c)
    · next t e ht => exact upholds_branches hc (hthen t ht) (helse e rfl)
    · exact .ite (fun _ => .pure hc (typed_some Arena.types_void)) fun _ => upholds_fault hc _ _

theorem upholds_require (hc : c.Proper) (part : Mark) (ok : Ty → Bool) (fault : Fault) :
    Upholds (Rule.require part ok fault) c fun _ _ => True := by
  unfold Rule.require
  split
  · exact .pure hc trivial
  · exact .ite (fun _ => .pure hc trivial) fun _ => upholds_refuse hc _ _

theorem upholds_loop (hc : c.Proper) (test body : Mark) : Upholds (Rule.loop test body) c Typed := by
  refine (upholds_require hc _ _ _).bind fun testOk c₁ hc₁ _ _ => ?_
  refine (upholds_require hc₁ _ _ _).bind fun bodyOk c₂ hc₂ _ _ => .pure hc₂ ?_
  split
  · exact typed_some Arena.types_void
  · exact typed_none c₂

theorem upholds_bounds (hc : c.Proper) (low high : Option Ty) :
    Upholds (Rule.bounds loc low high) c fun _ _ => True := by
  unfold Rule.bounds
  split
  · exact .ite (fun _ => .pure hc trivial) fun _ => upholds_refuse hc _ _
  · exact .pure hc trivial

theorem upholds_array (hc : c.Proper) (typeName : Ident) {ty : Option Ty} (h : Stored ty c) (size init : Mark) :
    Upholds (Rule.array typeName ty size init) c Typed := by
  cases ty with
  | none => exact .pure hc (typed_none c)
  | some t =>
    have ht : ∀ {c' : Checker}, c.Widens c' → Typed (some t) c' := fun hw => Typed.widen hw (Stored.typed h)
    refine .ite (fun _ => .get ((Upholds.lift hc).bind fun element c₁ hc₁ hw₁ _ => ?_))
      fun _ => upholds_fault hc _ _
    split
    · refine .ite (fun _ => ?_) fun _ => upholds_fault hc₁ _ _
      exact (upholds_sameType hc₁ _ _).bind fun _ _ hc₂ hw₂ _ =>
        .ite (fun _ => .pure hc₂ (ht (hw₁.trans hw₂))) fun _ => upholds_fault hc₂ _ _
    · exact .pure hc₁ (typed_none c₁)

/-! ## Calls -/

/-- What a call gives was read off a signature. -/
theorem upholds_target (hc : c.Proper) (name : String) :
    Upholds (Rule.target? name) c fun o c' => ∀ t ∈ o, ∀ s ∈ t.signature, c'.types.Gives s.result := by
  unfold Rule.target?
  refine .get ?_
  split
  · exact .pure hc (by simp)
  · next id _ =>
    refine .get ((Upholds.lift hc).bind fun p c₁ hc₁ _ hp => ?_)
    obtain ⟨rfl, hp⟩ := hp
    refine (Upholds.lift hc₁).bind fun signature c₂ hc₂ _ hs => .pure hc₂ ?_
    obtain ⟨rfl, hs⟩ := hs
    rintro t ⟨⟩ s ⟨⟩
    unfold Rule.visible at hs
    split at hs
    · cases hs
    · next sig hsig =>
      split at hs
      · cases hs
        exact (hc₂.functions id p (entry_eq_ok_iff.mp hp) sig hsig).1
      · cases hs

theorem upholds_arg (hc : c.Proper) (param : Option Ty) (value : Mark) :
    Upholds (Rule.arg param value) c fun _ _ => True := by
  unfold Rule.arg
  split
  · exact .pure hc trivial
  · exact .pure hc trivial
  · exact (upholds_sameType hc _ _).bind fun _ _ hc₁ _ _ =>
      .ite (fun _ => .pure hc₁ trivial) fun _ => upholds_refuse hc₁ _ _

theorem upholds_call (hc : c.Proper) (callee : Ident) {target : Option Rule.Target}
    (h : ∀ t ∈ target, ∀ s ∈ t.signature, c.types.Gives s.result) (args : ℕ) (fit : Bool) :
    Upholds (Rule.call loc callee target args fit) c Typed := by
  unfold Rule.call
  split
  · exact upholds_fault hc _ _
  · exact .pure hc (typed_none c)
  · next id s =>
    refine .ite (fun _ => .pure hc ?_) fun _ => upholds_fault hc _ _
    split
    · exact typed_some (h _ rfl s rfl).types
    · exact typed_none c

/-! ## Record literals -/

theorem upholds_recordFields (hc : c.Proper) (typeName : Ident) (inits : ℕ) (ty : Option Ty) :
    Upholds (Rule.recordFields loc typeName inits ty) c fun _ _ => True := by
  cases ty with
  | none => exact .pure hc trivial
  | some ty =>
    refine .get ((Upholds.lift hc).bind fun entry c₁ hc₁ _ _ => ?_)
    split
    · exact (upholds_fail hc₁ _ _).mono fun _ _ _ _ => trivial
    · exact .ite (fun _ => .pure hc₁ trivial) fun _ => (upholds_fail hc₁ _ _).mono fun _ _ _ _ => trivial

theorem upholds_place (hc : c.Proper) (typeName : String) (name : Ident) (fields : Option (List Field)) :
    Upholds (Rule.place loc typeName name fields) c fun _ _ => True := by
  unfold Rule.place
  split
  · exact .ite (fun _ => .pure hc trivial) fun _ => (upholds_fail hc _ _).mono fun _ _ _ _ => trivial
  · exact .pure hc trivial

theorem upholds_init (hc : c.Proper) (field : Option Field) (value : Mark) :
    Upholds (Rule.init field value) c fun _ _ => True := by
  unfold Rule.init
  split
  · exact .pure hc trivial
  · exact .pure hc trivial
  · exact (upholds_isMatch hc _ _).bind fun _ _ hc₁ _ _ =>
      .ite (fun _ => .pure hc₁ trivial) fun _ => upholds_refuse hc₁ _ _

/-! ## Variables -/

/-- **A slot that can be seen has the type of an expression.** -/
theorem typed_of_shows (hc : c.Proper) {v : VarId} {s : Slot} (hv : c.frames.Shows v)
    (hs : c.frames.vars[v.index]? = some s) : Typed s.ty c := by
  obtain ⟨s', hs', hk⟩ := hv
  rw [hs] at hs'
  cases hs'
  have hadm := hc.slots v s hs
  unfold Slot.Proper at hadm
  intro t ht
  cases hkind : s.kind with
  | staticLink => exact absurd hkind hk
  | param =>
    rw [hkind] at hadm
    exact (hadm t ht).types
  | letBound =>
    rw [hkind] at hadm
    exact (hadm t ht).types
  | loopCounter =>
    rw [hkind] at hadm
    rw [show s.ty = some .int from hadm] at ht
    cases ht
    exact Arena.stores_int.types

/-- A name is bound to a slot that can be seen. -/
theorem upholds_simple (hc : c.Proper) (name : String) :
    Upholds (Rule.simple loc name) c fun r c' => (∀ v ∈ r.1, c'.frames.Shows v) ∧ Typed r.2 c' := by
  unfold Rule.simple
  refine .get ?_
  split
  · next id hid =>
    refine .get ((Upholds.lift hc).bind fun s c₁ hc₁ _ hs => .pure hc₁ ?_)
    obtain ⟨rfl, hs⟩ := hs
    have hv := hc₁.values.of_lookup hid
    refine ⟨?_, typed_of_shows hc₁ hv (entry_eq_ok_iff.mp hs)⟩
    rintro _ ⟨⟩
    exact hv
  · exact (upholds_fail hc _ _).bind fun _ c₁ hc₁ _ h => .pure hc₁ ⟨by simp, h ▸ typed_none c₁⟩

/-- A field has the type that its record holds. -/
theorem upholds_field (hc : c.Proper) (base : Mark) (name : Ident) :
    Upholds (Rule.field loc base name) c fun r c' => Typed r.2 c' := by
  have hnone : ∀ {α : Type} (fault : Fault) (loc : Location) {c : Checker}, c.Proper →
      Upholds (do return ((none : Option α), ← fail fault loc)) c fun r c' => Typed r.2 c' :=
    fun _ _ _ hc => (upholds_fail hc _ _).bind fun _ c₁ hc₁ _ h => .pure hc₁ (h ▸ typed_none c₁)
  unfold Rule.field
  split
  · exact .pure hc (typed_none c)
  · next baseTy _ =>
    refine .get ((Upholds.lift hc).bind fun entry c₁ hc₁ _ hentry => ?_)
    obtain ⟨rfl, hentry⟩ := hentry
    split
    · exact hnone _ _ hc₁
    · next r =>
      split
      · split
        · next i f hf =>
          obtain ⟨id, rfl, hr⟩ := Arena.exists_of_asRecord hentry
          have hshape : c₁.types.shape (.record id) = some (.record r) := by simp [hr]
          refine .pure hc₁ (typed_some (hc₁.entries _ _ hshape f.ty ?_).types)
          exact List.mem_map_of_mem (List.mem_of_getElem? hf)
        · exact .throw
      · exact hnone _ _ hc₁

/-- An element has the type that its array holds. -/
theorem upholds_element (hc : c.Proper) (base index : Mark) : Upholds (Rule.element base index) c Typed := by
  unfold Rule.element
  split
  · exact .pure hc (typed_none c)
  · refine .ite (fun _ => ?_) fun _ => upholds_fault hc _ _
    split
    · exact .pure hc (typed_none c)
    · refine .ite (fun _ => .get ((Upholds.lift hc).mono ?_)) fun _ => upholds_fault hc _ _
      rintro _ c₁ - ⟨rfl, helement⟩ u ⟨⟩
      obtain ⟨id, e, rfl, he, hu⟩ := Arena.exists_of_elementOf helement
      have hshape : c₁.types.shape (.array id) = some (.array e) := by simp [he]
      exact (hc.entries _ _ hshape u (by simp [Shape.types, hu])).types

/-! ## Declarations -/

/-- **A variable is never `nil`**: if its type is that of its initializer, `nil` is refused. -/
theorem upholds_inferred (hc : c.Proper) {init : Mark} (h : Typed init.ty c) :
    Upholds (Rule.inferred init) c fun r c' => ∀ t ∈ r.1, c'.types.Gives t := by
  unfold Rule.inferred
  split
  · exact (upholds_fail hc _ _).bind fun _ _ hc₁ _ h => .pure hc₁ (by simp [h])
  · next ty hnil => exact .pure hc fun t ht => (h t ht).resolve_left fun heq => hnil (heq ▸ ht)

theorem upholds_annotated (hc : c.Proper) (typeName : Ident) (init : Mark) (literal : Bool) :
    Upholds (Rule.annotated typeName init literal) c fun r c' => ∀ t ∈ r.1, c'.types.Gives t := by
  refine (upholds_typeOf hc typeName).bind fun ty c₁ hc₁ _ hty => ?_
  have hgives : ∀ {c' : Checker}, c₁.Widens c' → ∀ t ∈ ty, c'.types.Gives t := fun hw t ht =>
    (hw.stores t (hty t ht)).gives
  split
  · refine (upholds_isMatch hc₁ _ _).bind fun _ _ hc₂ hw₂ _ => .ite (fun _ => .pure hc₂ (hgives hw₂)) fun _ => ?_
    exact (upholds_refuse hc₂ _ _).bind fun _ _ hc₃ hw₃ _ => .pure hc₃ (hgives (hw₂.trans hw₃))
  · exact .pure hc₁ (hgives (.refl c₁))

theorem upholds_declared (hc : c.Proper) (typeName : Option Ident) {init : Mark} (h : Typed init.ty c)
    (literal : Bool) :
    Upholds (Rule.declared typeName init literal) c fun r c' => ∀ t ∈ r.1, c'.types.Gives t := by
  cases typeName with
  | none => exact upholds_inferred hc h
  | some typeName => exact upholds_annotated hc typeName init literal

theorem upholds_body (hc : c.Proper) (result : Option Ty) (body : Mark) :
    Upholds (Rule.body result body) c fun _ _ => True := by
  unfold Rule.body
  split
  · refine .ite (fun _ => .ite (fun _ => .pure hc trivial) fun _ => upholds_refuse hc _ _) fun _ => ?_
    exact (upholds_sameType hc _ _).bind fun _ _ hc₁ _ _ =>
      .ite (fun _ => .pure hc₁ trivial) fun _ => upholds_refuse hc₁ _ _
  · exact .pure hc trivial

end Check

end TigerCheck
