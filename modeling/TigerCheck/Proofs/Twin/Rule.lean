import TigerCheck.Proofs.Twin.Scopes

/-!
# Typing rules in two runs

A rule that is given paired types, in states in which names mean the same, reports the same and gives paired
answers. It asks the same questions on both sides, and they have the same answers.

* `Mark.Paired`: two marks at one place, with paired types.
* `Check.both_sameType`, `Check.both_isMatch`, `Check.both_typeOf`: the questions that rules ask.
* `Rule.both_binary`, `Rule.both_assign`, …: the rules.
-/

namespace TigerCheck

open Check

/-- Two marks at one place, with paired types. -/
inductive Mark.Paired (ρ : Pairing) : Mark → Mark → Prop where
  | mk (loc : Location) {ty ty' : Option Ty} : Option.Rel ρ ty ty' → Mark.Paired ρ ⟨loc, ty⟩ ⟨loc, ty'⟩

variable {ρ ρ' : Pairing} {c d c₁ d₁ : Checker} {s t s' t' : Ty} {loc : Location}

theorem Mark.Paired.ty {m m' : Mark} (h : m.Paired ρ m') : Option.Rel ρ m.ty m'.ty := by
  cases h with
  | mk loc h => exact h

theorem Mark.Paired.imp {m m' : Mark} (h : m.Paired ρ m') (hρ : ∀ s t, ρ s t → ρ' s t) :
    m.Paired ρ' m' := by
  cases h with
  | mk loc h => exact .mk loc (rel_imp h hρ)

namespace Check

variable {α β α' β' : Type} {R : α → α' → Prop}

theorem both_quiet {a : α} {b : α'} (h : R a b) : Both (pure a) (pure b) c d (Echoes c d R) :=
  both_pure ⟨.quiet, h⟩

theorem both_fault {fault : Fault} : Both (fail fault loc) (fail fault loc) c d (Echoes c d (Option.Rel R)) :=
  both_fail ⟨.report _ _ .quiet, .none⟩

theorem both_refusal {fault : Fault} : Both (refuse fault loc) (refuse fault loc) c d (Echoes c d Eq) :=
  both_refuse ⟨.report _ _ .quiet, rfl⟩

/-- After the same reports, a rule reports the same. -/
theorem Both.echo {m : Check α} {m' : Check α'} (he : Echo c d c₁ d₁)
    (h : Both m m' c₁ d₁ (Echoes c₁ d₁ R)) : Both m m' c₁ d₁ (Echoes c d R) :=
  h.mono fun _ _ _ _ h => ⟨he.trans h.1, h.2⟩

theorem both_lift {x : Except Breach α} {x' : Except Breach α'}
    {Q : α → α' → Checker → Checker → Prop} (h : ∀ a a', x = .ok a → x' = .ok a' → Q a a' c d) :
    Both (liftM x) (liftM x') c d Q := by
  cases x with
  | error e =>
    intro a c' a' d' hm
    cases hm
  | ok a =>
    cases x' with
    | error e =>
      intro a c' a' d' _ hm
      cases hm
    | ok a' => exact both_pure (h a a' rfl rfl)

/-! ## Questions about types -/

theorem both_sameType (h : c.Alike ρ d) (hs : ρ s t) (hs' : ρ s' t') :
    Both (sameType s s') (sameType t t') c d fun b b' c' d' => b = b' ∧ c' = c ∧ d' = d := by
  obtain ⟨hhas, hhas'⟩ := h.mirrors.has _ _ hs
  obtain ⟨hhas₁, hhas₁'⟩ := h.mirrors.has _ _ hs'
  obtain ⟨b, hb, hiff⟩ := Arena.sameType_spec h.sound.rest.closed hhas hhas₁
  obtain ⟨b', hb', hiff'⟩ := Arena.sameType_spec h.sound'.rest.closed hhas' hhas₁'
  have heq : b = b' := by rw [Bool.eq_iff_iff, hiff, hiff', h.mirrors.same_iff hs hs']
  refine Yields.both (yields_sameType.mpr ⟨b, hb, rfl, rfl⟩ : Yields _ c fun x c' => x = b ∧ c' = c)
    (yields_sameType.mpr ⟨b', hb', rfl, rfl⟩ : Yields _ d fun x d' => x = b' ∧ d' = d) ?_
  rintro _ _ _ _ ⟨rfl, rfl⟩ ⟨rfl, rfl⟩
  exact ⟨heq, rfl, rfl⟩

theorem both_isMatch (h : c.Alike ρ d) (hs : ρ s t) (hs' : ρ s' t') :
    Both (isMatch s s') (isMatch t t') c d fun b b' c' d' => b = b' ∧ c' = c ∧ d' = d := by
  obtain ⟨hhas, hhas'⟩ := h.mirrors.has _ _ hs
  obtain ⟨hhas₁, hhas₁'⟩ := h.mirrors.has _ _ hs'
  obtain ⟨b, hb, hiff⟩ := Arena.isMatch_spec h.sound.rest.closed hhas hhas₁
  obtain ⟨b', hb', hiff'⟩ := Arena.isMatch_spec h.sound'.rest.closed hhas' hhas₁'
  have heq : b = b' := by rw [Bool.eq_iff_iff, hiff, hiff', h.mirrors.matches_iff hs hs']
  refine Yields.both (yields_isMatch.mpr ⟨b, hb, rfl, rfl⟩ : Yields _ c fun x c' => x = b ∧ c' = c)
    (yields_isMatch.mpr ⟨b', hb', rfl, rfl⟩ : Yields _ d fun x d' => x = b' ∧ d' = d) ?_
  rintro _ _ _ _ ⟨rfl, rfl⟩ ⟨rfl, rfl⟩
  exact ⟨heq, rfl, rfl⟩

/-- The same fault where two paired types do not match. -/
theorem both_unless_match {m : Check (Option α)} {m' : Check (Option α')} {fault : Fault}
    (h : c.Alike ρ d) (hs : ρ s t) (hs' : ρ s' t')
    (hm : Both m m' c d (Echoes c d (Option.Rel R))) :
    Both (do if ← isMatch s s' then m else fail fault loc) (do if ← isMatch t t' then m' else fail fault loc)
      c d (Echoes c d (Option.Rel R)) := by
  refine (both_isMatch h hs hs').bind ?_
  rintro b _ _ _ ⟨rfl, rfl, rfl⟩
  exact both_ite Iff.rfl (fun _ _ => hm) fun _ _ => both_fault

theorem both_unless_same {m : Check (Option α)} {m' : Check (Option α')} {fault : Fault}
    (h : c.Alike ρ d) (hs : ρ s t) (hs' : ρ s' t')
    (hm : Both m m' c d (Echoes c d (Option.Rel R))) :
    Both (do if ← sameType s s' then m else fail fault loc)
      (do if ← sameType t t' then m' else fail fault loc) c d (Echoes c d (Option.Rel R)) := by
  refine (both_sameType h hs hs').bind ?_
  rintro b _ _ _ ⟨rfl, rfl, rfl⟩
  exact both_ite Iff.rfl (fun _ _ => hm) fun _ _ => both_fault

/-- **A type name stands for paired types**, or is not bound on both sides, which is reported. -/
theorem both_typeOf (h : c.Alike ρ d) (name : Ident) :
    Both (typeOf name) (typeOf name) c d (Echoes c d (Option.Rel ρ)) := by
  have hsome := (h.types name.name).1
  refine Yields.both (yields_typeOf_lookup h.sound.rest name) (yields_typeOf_lookup h.sound'.rest name) ?_
  rintro _ _ _ _ ⟨rfl, hc⟩ ⟨rfl, hd⟩
  refine ⟨?_, (h.types name.name).2⟩
  rcases hc with ⟨hl, rfl⟩ | ⟨hl, rfl⟩
  · rw [hl] at hsome
    rcases hd with ⟨-, rfl⟩ | ⟨hl', -⟩
    · exact .report _ _ .quiet
    · exact absurd (Option.isSome_eq_false_iff.mp hsome.symm) (by simpa using hl')
  · rcases hd with ⟨hl', -⟩ | ⟨-, rfl⟩
    · rw [hl'] at hsome
      exact absurd (Option.isSome_eq_false_iff.mp hsome) (by simpa using hl)
    · exact .quiet

end Check

namespace Rule

/-! ## Expressions -/

theorem both_binary (h : c.Alike ρ d) (op : BinOp) {l r l' r' : Option Ty} (hl : Option.Rel ρ l l')
    (hr : Option.Rel ρ r r') :
    Both (binary op loc l r) (binary op loc l' r') c d (Echoes c d (Option.Rel ρ)) := by
  cases hl with
  | none => exact both_quiet .none
  | some hl =>
    cases hr with
    | none => exact both_quiet .none
    | some hr =>
      unfold binary
      dsimp only
      rw [h.mirrors.isNil_eq hl, h.mirrors.isNil_eq hr, h.mirrors.isInt_eq hl, h.mirrors.isInt_eq hr]
      refine both_ite Iff.rfl (fun _ _ => ?_) fun _ _ => ?_
      · refine both_ite Iff.rfl (fun _ _ => both_fault) fun _ _ => ?_
        exact both_unless_match h hl hr (both_quiet (.some h.mirrors.int))
      · exact both_ite Iff.rfl (fun _ _ => both_quiet (.some h.mirrors.int)) fun _ _ => both_fault

theorem both_assign (h : c.Alike ρ d) {target value target' value' : Mark}
    (ht : target.Paired ρ target') (hv : value.Paired ρ value') :
    Both (assign target value) (assign target' value') c d (Echoes c d (Option.Rel ρ)) := by
  obtain ⟨_, ht⟩ := ht
  obtain ⟨loc, hv⟩ := hv
  cases ht with
  | none => exact both_quiet .none
  | some ht =>
    cases hv with
    | none => exact both_quiet .none
    | some hv => exact both_unless_match h ht hv (both_quiet (.some h.mirrors.void))

theorem both_branches (h : c.Alike ρ d) {elsePart elsePart' : Mark} (hs : ρ s t)
    (he : elsePart.Paired ρ elsePart') :
    Both (branches s elsePart) (branches t elsePart') c d (Echoes c d (Option.Rel ρ)) := by
  obtain ⟨loc, he⟩ := he
  cases he with
  | none => exact both_quiet .none
  | some he =>
    refine both_unless_match h hs he (both_quiet (.some ?_))
    rw [h.mirrors.isNil_eq hs]
    split
    · exact he
    · exact hs

theorem both_condNone (h : c.Alike ρ d) {test thenPart test' thenPart' : Mark}
    (ht : test.Paired ρ test') (hp : thenPart.Paired ρ thenPart') :
    Both (cond loc test thenPart none) (cond loc test' thenPart' none) c d
      (Echoes c d (Option.Rel ρ)) := by
  obtain ⟨_, ht⟩ := ht
  obtain ⟨_, hp⟩ := hp
  cases ht with
  | none => exact both_quiet .none
  | some ht =>
    unfold cond
    dsimp only
    rw [h.mirrors.isInt_eq ht]
    refine both_ite Iff.rfl (fun _ _ => ?_) fun _ _ => both_fault
    cases hp with
    | none => exact both_quiet .none
    | some hp =>
      dsimp only
      rw [h.mirrors.isVoid_eq hp]
      exact both_ite Iff.rfl (fun _ _ => both_quiet (.some h.mirrors.void)) fun _ _ => both_fault

theorem both_condSome (h : c.Alike ρ d) {test thenPart elsePart test' thenPart' elsePart' : Mark}
    (ht : test.Paired ρ test') (hp : thenPart.Paired ρ thenPart') (he : elsePart.Paired ρ elsePart') :
    Both (cond loc test thenPart (some elsePart)) (cond loc test' thenPart' (some elsePart')) c d
      (Echoes c d (Option.Rel ρ)) := by
  obtain ⟨_, ht⟩ := ht
  obtain ⟨_, hp⟩ := hp
  cases ht with
  | none => exact both_quiet .none
  | some ht =>
    unfold cond
    dsimp only
    rw [h.mirrors.isInt_eq ht]
    refine both_ite Iff.rfl (fun _ _ => ?_) fun _ _ => both_fault
    cases hp with
    | none => exact both_quiet .none
    | some hp => exact both_branches h hp he

theorem both_require {part part' : Mark} (hp : part.Paired ρ part') {ok : Ty → Bool} {fault : Fault}
    (hok : ∀ s t, ρ s t → ok s = ok t) :
    Both (require part ok fault) (require part' ok fault) c d (Echoes c d Eq) := by
  obtain ⟨loc, hp⟩ := hp
  cases hp with
  | none => exact both_quiet rfl
  | some hp =>
    unfold require
    dsimp only
    rw [hok _ _ hp]
    exact both_ite Iff.rfl (fun _ _ => both_quiet rfl) fun _ _ => both_refusal

theorem both_loop (h : c.Alike ρ d) {test body test' body' : Mark} (ht : test.Paired ρ test')
    (hb : body.Paired ρ body') :
    Both (loop test body) (loop test' body') c d (Echoes c d (Option.Rel ρ)) := by
  unfold loop
  refine (both_require ht fun _ _ => h.mirrors.isInt_eq).bind ?_
  rintro testOk _ c₁ d₁ ⟨he₁, rfl⟩
  refine (both_require hb fun _ _ => h.mirrors.isVoid_eq).bind ?_
  rintro bodyOk _ c₂ d₂ ⟨he₂, rfl⟩
  refine both_pure ⟨he₁.trans he₂, ?_⟩
  split
  · exact .some h.mirrors.void
  · exact .none

theorem both_bounds (h : c.Alike ρ d) {low high low' high' : Option Ty} (hl : Option.Rel ρ low low')
    (hh : Option.Rel ρ high high') :
    Both (bounds loc low high) (bounds loc low' high') c d (Echoes c d Eq) := by
  cases hl with
  | none => exact both_quiet rfl
  | some hl =>
    cases hh with
    | none => exact both_quiet rfl
    | some hh =>
      unfold bounds
      dsimp only
      rw [h.mirrors.isInt_eq hl, h.mirrors.isInt_eq hh]
      exact both_ite Iff.rfl (fun _ _ => both_quiet rfl) fun _ _ => both_refusal

/-- The arena is asked on both sides for the element of an array. -/
theorem both_elementOf {α α' : Type} {k : Option Ty → Check α} {l : Option Ty → Check α'}
    {Q : α → α' → Checker → Checker → Prop} (h : c.Alike ρ d) (hs : ρ s t)
    (hk : ∀ o o', Option.Rel ρ o o' → Both (k o) (l o') c d Q) :
    Both (do k (← (← get).types.elementOf s)) (do l (← (← get).types.elementOf t)) c d Q := by
  obtain ⟨hhas, hhas'⟩ := h.mirrors.has _ _ hs
  refine Both.bind (R := fun x y c' d' => x = c ∧ y = d ∧ c' = c ∧ d' = d)
    (both_get ⟨rfl, rfl, rfl, rfl⟩) ?_
  rintro _ _ _ _ ⟨rfl, rfl, rfl, rfl⟩
  rw [Arena.elementOf_eq hhas, Arena.elementOf_eq hhas']
  exact hk _ _ (h.mirrors.element? hs)

/-- The arena is asked on both sides for a record. -/
theorem both_asRecord {α α' : Type} {k : Option RecordEntry → Check α} {k' : Option RecordEntry → Check α'}
    {Q : α → α' → Checker → Checker → Prop} (h : c.Alike ρ d) (hs : ρ s t)
    (hk : ∀ o o', Option.Rel (fun e f : RecordEntry => List.Forall₂ (Field.Paired ρ) e.fields f.fields) o o' →
      Both (k o) (k' o') c d Q) :
    Both (do k (← (← get).types.asRecord s)) (do k' (← (← get).types.asRecord t)) c d Q := by
  obtain ⟨hhas, hhas'⟩ := h.mirrors.has _ _ hs
  refine Both.bind (R := fun x y c' d' => x = c ∧ y = d ∧ c' = c ∧ d' = d)
    (both_get ⟨rfl, rfl, rfl, rfl⟩) ?_
  rintro _ _ _ _ ⟨rfl, rfl, rfl, rfl⟩
  rw [Arena.asRecord_eq hhas, Arena.asRecord_eq hhas']
  exact hk _ _ (h.mirrors.record? hs)

theorem both_array (h : c.Alike ρ d) (typeName : Ident) {ty ty' : Option Ty} {size init size' init' : Mark}
    (ht : Option.Rel ρ ty ty') (hz : size.Paired ρ size') (hi : init.Paired ρ init') :
    Both (array typeName ty size init) (array typeName ty' size' init') c d
      (Echoes c d (Option.Rel ρ)) := by
  obtain ⟨_, hz⟩ := hz
  obtain ⟨_, hi⟩ := hi
  cases ht with
  | none => exact both_quiet .none
  | some ht =>
    unfold array
    dsimp only
    rw [h.mirrors.isArray_eq ht]
    refine both_ite Iff.rfl (fun _ _ => ?_) fun _ _ => both_fault
    refine both_elementOf h ht fun o o' ho => ?_
    cases ho with
    | none => exact both_quiet .none
    | some he =>
      cases hz with
      | none => exact both_quiet .none
      | some hz =>
        cases hi with
        | none => exact both_quiet .none
        | some hi =>
          dsimp only
          rw [h.mirrors.isInt_eq hz]
          refine both_ite Iff.rfl (fun _ _ => ?_) fun _ _ => both_fault
          exact both_unless_same h hi he (both_quiet (.some ht))

/-! ## Calls -/

/-- Two functions that a call may go to, with paired signatures. -/
def Target.Paired (ρ : Pairing) (t t' : Target) : Prop :=
  Option.Rel (Signature.Paired ρ) t.signature t'.signature

theorem signature_of_run {name : String} {t : Target} (hc : c.Sound)
    (hrun : (target? name).run c = .ok (some t, c₁)) : t.signature = c.signed name := by
  have hend := (yields_target? name fun id hid => ?_).of_run hrun
  · obtain ⟨-, -, hsigned⟩ := hend
    refine Option.ext fun s => ?_
    rw [Checker.signed_eq_some_iff, ← hsigned s]
    constructor
    · intro h
      exact ⟨t.id, by rw [← h]⟩
    · rintro ⟨id, h⟩
      cases h
      rfl
  · obtain ⟨p, hp⟩ := hc.functions _ _ hid
    exact ⟨p, hp, fun sig hsig => (hc.signatures id p sig hp hsig).1⟩

theorem both_target? (h : c.Alike ρ d) (name : String) :
    Both (target? name) (target? name) c d (Echoes c d (Option.Rel (Target.Paired ρ))) := by
  have hcallable : ∀ {x : Checker}, x.Sound → ∀ id, x.functions.lookup name = some id →
      ∃ p, x.frames.functions[id.index]? = some p ∧
        ∀ sig, p.signature = some sig → p.hiddenParams ≤ sig.params.length := by
    intro x hx id hid
    obtain ⟨p, hp⟩ := hx.functions _ _ hid
    exact ⟨p, hp, fun sig hsig => (hx.signatures id p sig hp hsig).1⟩
  intro r c' r' d' hr hr'
  obtain ⟨rfl, hid, hsigned⟩ := (yields_target? name (hcallable h.sound)).of_run hr
  obtain ⟨rfl, hid', hsigned'⟩ := (yields_target? name (hcallable h.sound')).of_run hr'
  refine ⟨.quiet, ?_⟩
  have hsome := (h.functions name).1
  rw [← hid, ← hid', Option.isSome_map, Option.isSome_map] at hsome
  cases r with
  | none =>
    cases r' with
    | none => exact .none
    | some t' => cases hsome
  | some t =>
    cases r' with
    | none => cases hsome
    | some t' =>
      refine .some ?_
      rw [Target.Paired, signature_of_run h.sound hr, signature_of_run h.sound' hr']
      exact (h.functions name).2

theorem Target.expects_paired {o o' : Option Target} (h : Option.Rel (Target.Paired ρ) o o') (args : ℕ) :
    List.Forall₂ ρ (Target.expects o args) (Target.expects o' args) := by
  cases h with
  | none => exact .nil
  | @some t t' h =>
    obtain ⟨id, sig⟩ := t
    obtain ⟨id', sig'⟩ := t'
    rw [Target.Paired] at h
    dsimp only at h
    cases h with
    | none => exact .nil
    | some h =>
      unfold Target.expects
      dsimp only
      rw [h.params.length_eq]
      split
      · exact h.params
      · exact .nil

theorem both_arg (h : c.Alike ρ d) {param param' : Option Ty} {value value' : Mark}
    (hp : Option.Rel ρ param param') (hv : value.Paired ρ value') :
    Both (arg param value) (arg param' value') c d (Echoes c d Eq) := by
  obtain ⟨loc, hv⟩ := hv
  cases hv with
  | none => exact both_quiet rfl
  | some hv =>
    cases hp with
    | none => exact both_quiet rfl
    | some hp =>
      refine (both_sameType h hv hp).bind ?_
      rintro b _ _ _ ⟨rfl, rfl, rfl⟩
      exact both_ite Iff.rfl (fun _ _ => both_quiet rfl) fun _ _ => both_refusal

theorem both_call (callee : Ident) {o o' : Option Target}
    (ht : Option.Rel (Target.Paired ρ) o o') (args : ℕ) (fit : Bool) :
    Both (call loc callee o args fit) (call loc callee o' args fit) c d
      (Echoes c d (Option.Rel ρ)) := by
  cases ht with
  | none => exact both_fault
  | @some t t' ht =>
    obtain ⟨id, sig⟩ := t
    obtain ⟨id', sig'⟩ := t'
    rw [Target.Paired] at ht
    dsimp only at ht
    cases ht with
    | none => exact both_quiet .none
    | some ht =>
      unfold call
      dsimp only
      rw [ht.params.length_eq]
      refine both_ite Iff.rfl (fun _ _ => both_quiet ?_) fun _ _ => both_fault
      split
      · exact .some ht.result
      · exact .none

/-! ## Record literals -/

theorem both_recordFields (h : c.Alike ρ d) (typeName : Ident) (inits : ℕ) {ty ty' : Option Ty}
    (ht : Option.Rel ρ ty ty') :
    Both (recordFields loc typeName inits ty) (recordFields loc typeName inits ty') c d
      (Echoes c d (Option.Rel (List.Forall₂ (Field.Paired ρ)))) := by
  cases ht with
  | none => exact both_quiet .none
  | some ht =>
    refine both_asRecord h ht fun o o' ho => ?_
    cases ho with
    | none => exact both_fault
    | some hf =>
      dsimp only
      rw [hf.length_eq]
      exact both_ite Iff.rfl (fun _ _ => both_quiet (.some hf)) fun _ _ => both_fault

theorem both_place (typeName : String) (name : Ident) {o o' : Option (List Field)}
    (hf : Option.Rel (List.Forall₂ (Field.Paired ρ)) o o') :
    Both (place loc typeName name o) (place loc typeName name o') c d
      (Echoes c d (Option.Rel (List.Forall₂ (Field.Paired ρ)))) := by
  cases hf with
  | none => exact both_quiet .none
  | some hf =>
    cases hf with
    | nil => exact both_quiet (.some .nil)
    | cons hx hf =>
      unfold place
      dsimp only
      rw [hx.name_eq]
      exact both_ite Iff.rfl (fun _ _ => both_quiet (.some (.cons hx hf))) fun _ _ => both_fault

theorem both_init (h : c.Alike ρ d) {o o' : Option Field} {value value' : Mark}
    (hf : Option.Rel (Field.Paired ρ) o o') (hv : value.Paired ρ value') :
    Both (init o value) (init o' value') c d (Echoes c d Eq) := by
  obtain ⟨loc, hv⟩ := hv
  cases hv with
  | none => exact both_quiet rfl
  | some hv =>
    cases hf with
    | none => exact both_quiet rfl
    | some hf =>
      refine (both_isMatch h hv hf.ty).bind ?_
      rintro b _ _ _ ⟨rfl, rfl, rfl⟩
      exact both_ite Iff.rfl (fun _ _ => both_quiet rfl) fun _ _ => both_refusal

/-! ## Variables -/

theorem both_simple {ctx ctx' : Context} (h : Twin ρ ctx ctx' c d) (name : String) :
    Both (simple loc name) (simple loc name) c d (Echoes c d fun r r' => Option.Rel ρ r.2 r'.2) := by
  obtain ⟨hsome, hty⟩ := h.alike.values name
  have hslot : ∀ v, c.values.lookup name = some v → ∃ s, c.frames.vars[v.index]? = some s := fun v hv =>
    (h.sits.values name v hv).imp fun _ hs => hs.1
  have hslot' : ∀ v, d.values.lookup name = some v → ∃ s, d.frames.vars[v.index]? = some s := fun v hv =>
    (h.sits'.values name v hv).imp fun _ hs => hs.1
  refine Yields.both (yields_simple name hslot) (yields_simple name hslot') ?_
  rintro r r' c' d' ⟨-, hc⟩ ⟨-, hd⟩
  rcases hc with ⟨v, x, hv, hx, hr, rfl⟩ | ⟨hnone, hr, rfl⟩
  · rcases hd with ⟨v', x', hv', hx', hr', rfl⟩ | ⟨hnone', -, -⟩
    · refine ⟨.quiet, ?_⟩
      simp only [Checker.valueTy, hv, hx, hv', hx', bind, Option.bind_some] at hty
      change Option.Rel ρ r.2 r'.2
      rw [hr, hr']
      exact hty
    · rw [hv, hnone'] at hsome
      cases hsome
  · rcases hd with ⟨v', x', hv', -⟩ | ⟨-, hr', rfl⟩
    · rw [hnone, hv'] at hsome
      cases hsome
    · refine ⟨.report _ _ .quiet, ?_⟩
      change Option.Rel ρ r.2 r'.2
      rw [hr, hr']
      exact .none

theorem fieldIndex_eq_of_paired (name : String) {fs gs : List Field}
    (h : List.Forall₂ (Field.Paired ρ) fs gs) :
    fs.findIdx? (·.name == name) = gs.findIdx? (·.name == name) := by
  induction h with
  | nil => rfl
  | cons hx _ ih => rw [List.findIdx?_cons, List.findIdx?_cons, hx.name_eq, ih]

theorem getElem?_of_paired {fs gs : List Field} (h : List.Forall₂ (Field.Paired ρ) fs gs) (i : ℕ) :
    Option.Rel (Field.Paired ρ) fs[i]? gs[i]? := by
  induction h generalizing i with
  | nil => exact .none
  | cons hx _ ih =>
    cases i with
    | zero => exact .some hx
    | succ i => exact ih i

theorem both_field (h : c.Alike ρ d) {base base' : Mark} (hb : base.Paired ρ base') (name : Ident) :
    Both (field loc base name) (field loc base' name) c d
      (Echoes c d fun r r' => Option.Rel ρ r.2 r'.2) := by
  obtain ⟨_, hb⟩ := hb
  cases hb with
  | none => exact both_quiet .none
  | some hb =>
    refine both_asRecord h hb fun o o' ho => ?_
    cases ho with
    | none => exact (both_fault (R := ρ)).bind fun _ _ _ _ h => both_pure h
    | @some e f hf =>
      dsimp only
      rw [RecordEntry.fieldIndex, RecordEntry.fieldIndex, fieldIndex_eq_of_paired name.name hf]
      cases f.fields.findIdx? (·.name == name.name) with
      | none => exact (both_fault (R := ρ)).bind fun _ _ _ _ h => both_pure h
      | some i =>
        have hi := getElem?_of_paired hf i
        dsimp only
        generalize e.fields[i]? = x at hi
        generalize f.fields[i]? = y at hi
        cases hi with
        | none => exact both_throw
        | some hx => exact both_quiet (.some hx.ty)

theorem both_element (h : c.Alike ρ d) {base index base' index' : Mark} (hb : base.Paired ρ base')
    (hi : index.Paired ρ index') :
    Both (element base index) (element base' index') c d (Echoes c d (Option.Rel ρ)) := by
  obtain ⟨_, hb⟩ := hb
  obtain ⟨_, hi⟩ := hi
  cases hb with
  | none => exact both_quiet .none
  | some hb =>
    unfold element
    dsimp only
    rw [h.mirrors.isArray_eq hb]
    refine both_ite Iff.rfl (fun _ _ => ?_) fun _ _ => both_fault
    cases hi with
    | none => exact both_quiet .none
    | some hi =>
      dsimp only
      rw [h.mirrors.isInt_eq hi]
      refine both_ite Iff.rfl (fun _ _ => ?_) fun _ _ => both_fault
      have hread := both_elementOf (k := pure) (l := pure) h hb fun o o' ho => both_quiet ho
      simpa only [bind_pure] using hread

/-! ## Declarations -/

/-- Two variables with paired types, both declared right or neither. -/
def Declared.Paired (ρ : Pairing) (r r' : Option Ty × Bool) : Prop := Option.Rel ρ r.1 r'.1 ∧ r.2 = r'.2

theorem inferred_of_ne {init : Mark} (h : init.ty ≠ some .nil) :
    inferred init = pure (init.ty, init.ty.isSome) := by
  unfold inferred
  split
  · next hnil => exact absurd hnil h
  · rfl

theorem both_inferred (h : c.Alike ρ d) {init init' : Mark} (hi : init.Paired ρ init') :
    Both (inferred init) (inferred init') c d (Echoes c d (Declared.Paired ρ)) := by
  obtain ⟨loc, hi⟩ := hi
  cases hi with
  | none => exact both_quiet ⟨.none, rfl⟩
  | @some s t hi =>
    by_cases hnil : s = .nil
    · rw [hnil, (h.mirrors.eq_nil_iff hi).mp hnil]
      exact (both_fault (R := ρ)).bind fun _ _ _ _ h => both_pure ⟨h.1, h.2, rfl⟩
    · rw [inferred_of_ne fun heq => hnil (Option.some.inj heq),
        inferred_of_ne fun heq => hnil ((h.mirrors.eq_nil_iff hi).mpr (Option.some.inj heq))]
      exact both_quiet ⟨.some hi, rfl⟩

theorem both_annotated (h : c.Alike ρ d) (typeName : Ident) {init init' : Mark}
    (hi : init.Paired ρ init') (literal : Bool) :
    Both (annotated typeName init literal) (annotated typeName init' literal) c d
      (Echoes c d (Declared.Paired ρ)) := by
  unfold annotated
  refine (both_typeOf h typeName).bind ?_
  rintro o o' c₁ d₁ ⟨he, ho⟩
  refine .echo he ?_
  have h₁ := h.echo he
  obtain ⟨_, hi⟩ := hi
  cases ho with
  | none => exact both_quiet ⟨.none, rfl⟩
  | @some s t hs =>
    cases hi with
    | none => exact both_quiet ⟨.some hs, rfl⟩
    | @some s' t' hi =>
      refine (both_isMatch h₁ hs hi).bind ?_
      rintro b _ _ _ ⟨rfl, rfl, rfl⟩
      have hne : (decide (s ≠ s') : Bool) = decide (t ≠ t') :=
        decide_eq_decide.mpr (not_congr (h₁.mirrors.unique _ _ _ _ hs hi))
      rw [hne]
      refine both_ite Iff.rfl (fun _ _ => both_quiet ⟨.some hs, rfl⟩) fun _ _ => ?_
      exact both_refusal.bind fun _ _ _ _ h => both_pure ⟨h.1, .some hs, h.2⟩

theorem both_declared (h : c.Alike ρ d) (typeName : Option Ident) {init init' : Mark}
    (hi : init.Paired ρ init') (literal : Bool) :
    Both (declared typeName init literal) (declared typeName init' literal) c d
      (Echoes c d (Declared.Paired ρ)) := by
  cases typeName with
  | none => exact both_inferred h hi
  | some typeName => exact both_annotated h typeName hi literal

theorem both_body (h : c.Alike ρ d) {result result' : Option Ty} {value value' : Mark}
    (hr : Option.Rel ρ result result') (hv : value.Paired ρ value') :
    Both (body result value) (body result' value') c d (Echoes c d Eq) := by
  obtain ⟨loc, hv⟩ := hv
  cases hr with
  | none => exact both_quiet rfl
  | some hr =>
    cases hv with
    | none => exact both_quiet rfl
    | some hv =>
      unfold body
      dsimp only
      rw [h.mirrors.isVoid_eq hr, h.mirrors.isVoid_eq hv]
      refine both_ite Iff.rfl (fun _ _ => ?_) fun _ _ => ?_
      · exact both_ite Iff.rfl (fun _ _ => both_quiet rfl) fun _ _ => both_refusal
      · refine (both_sameType h hr hv).bind ?_
        rintro b _ _ _ ⟨rfl, rfl, rfl⟩
        exact both_ite Iff.rfl (fun _ _ => both_quiet rfl) fun _ _ => both_refusal

end Rule

end TigerCheck
