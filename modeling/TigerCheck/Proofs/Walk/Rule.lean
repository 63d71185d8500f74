import TigerCheck.Checker.Rule
import TigerCheck.Proofs.Ty.Same
import TigerCheck.Proofs.TypeName.Run

/-!
# What the typing rules decide

Each rule amounts to one condition on the types of the parts, which is stated beside it.

* `Rule.BinaryTy`, `Rule.AssignTy`, …: the conditions.
* **`Rule.yields_binary`**, **`Rule.yields_assign`**, …: the rules decide their conditions.
-/

namespace TigerCheck

open Check

namespace Rule

variable {c : Checker} {loc : Location}

/-! ## Expressions -/

/-- Matching types are compared; otherwise two integers are needed. -/
def BinaryTy (a : Arena) (op : BinOp) (left right : Option Ty) (u : Ty) : Prop :=
  u = .int ∧ ∃ l r, left = some l ∧ right = some r ∧
    if op.isEquality then a.Matches l r else l = .int ∧ r = .int

theorem yields_binary (ha : c.types.Closed) (op : BinOp) {left right : Option Ty}
    (hl : ∀ t, left = some t → c.types.Has t) (hr : ∀ t, right = some t → c.types.Has t) :
    Yields (binary op loc left right) c
      (Judges c (BinaryTy c.types op left right) (left = none ∨ right = none)) := by
  cases left with
  | none => exact yields_pure.mpr (.missing (Or.inl rfl) (by simp [BinaryTy]))
  | some l =>
    cases right with
    | none => exact yields_pure.mpr (.missing (Or.inr rfl) (by simp [BinaryTy]))
    | some r =>
      unfold binary
      dsimp only
      by_cases heq : op.isEquality = true
      · obtain ⟨b, hb, hiff⟩ := Arena.isMatch_spec ha (hl l rfl) (hr r rfl)
        rw [if_pos heq]
        by_cases hnil : (l.isNil && r.isNil) = true
        · rw [if_pos hnil]
          rw [Bool.and_eq_true, Ty.isNil_iff, Ty.isNil_iff] at hnil
          refine yields_fail.mpr (judges_fault _ _ fun u hu => ?_)
          simp [BinaryTy, heq, Arena.Matches, hnil] at hu
        · rw [if_neg hnil, yields_bind, yields_isMatch]
          refine ⟨b, hb, ?_⟩
          cases b with
          | true => exact yields_pure.mpr (.found (by simp [BinaryTy, heq, hiff.mp rfl]))
          | false =>
            refine yields_fail.mpr (judges_fault _ _ fun u hu => ?_)
            simp [BinaryTy, heq, ← hiff] at hu
      · rw [if_neg heq]
        by_cases hint : (l.isInt && r.isInt) = true
        · rw [if_pos hint]
          rw [Bool.and_eq_true, Ty.isInt_iff, Ty.isInt_iff] at hint
          exact yields_pure.mpr (.found (by simp [BinaryTy, heq, hint]))
        · rw [if_neg hint]
          refine yields_fail.mpr (judges_fault _ _ fun u hu => hint ?_)
          obtain ⟨-, l', r', hl', hr', hcond⟩ := hu
          cases hl'
          cases hr'
          rw [if_neg heq] at hcond
          simp [hcond.1, hcond.2, Ty.isInt]

/-- A value of a matching type can be assigned. -/
def AssignTy (a : Arena) (target value : Option Ty) (u : Ty) : Prop :=
  u = .void ∧ ∃ t v, target = some t ∧ value = some v ∧ a.Matches t v

theorem yields_assign (ha : c.types.Closed) {target value : Mark}
    (ht : ∀ t, target.ty = some t → c.types.Has t) (hv : ∀ t, value.ty = some t → c.types.Has t) :
    Yields (assign target value) c
      (Judges c (AssignTy c.types target.ty value.ty) (target.ty = none ∨ value.ty = none)) := by
  unfold assign
  cases htt : target.ty with
  | none => exact yields_pure.mpr (.missing (Or.inl rfl) (by simp [AssignTy]))
  | some t =>
    cases hvt : value.ty with
    | none => exact yields_pure.mpr (.missing (Or.inr rfl) (by simp [AssignTy]))
    | some v =>
      obtain ⟨b, hb, hiff⟩ := Arena.isMatch_spec ha (ht t htt) (hv v hvt)
      simp only [yields_bind, yields_isMatch]
      refine ⟨b, hb, ?_⟩
      cases b with
      | true => exact yields_pure.mpr (.found (by simp [AssignTy, hiff.mp rfl]))
      | false =>
        refine yields_fail.mpr (judges_fault _ _ fun u hu => ?_)
        simp [AssignTy, ← hiff] at hu

/-- A test without an alternative needs a branch without a value. -/
def CondTy (test thenPart : Option Ty) (u : Ty) : Prop :=
  u = .void ∧ test = some .int ∧ thenPart = some .void

/-- Two branches match, and have the type of the first unless it is just `nil`. -/
def BranchTy (a : Arena) (test thenPart elsePart : Option Ty) (u : Ty) : Prop :=
  test = some .int ∧ ∃ t e, thenPart = some t ∧ elsePart = some e ∧ a.Matches t e ∧
    u = if t.isNil then e else t

theorem yields_condNone {test thenPart : Mark} :
    Yields (cond loc test thenPart none) c
      (Judges c (CondTy test.ty thenPart.ty) (test.ty = none ∨ thenPart.ty = none)) := by
  unfold cond
  cases htest : test.ty with
  | none => exact yields_pure.mpr (.missing (Or.inl rfl) (by simp [CondTy]))
  | some t =>
    dsimp only
    by_cases hint : t.isInt = true
    · rw [if_pos hint]
      rw [Ty.isInt_iff] at hint
      cases hthen : thenPart.ty with
      | none => exact yields_pure.mpr (.missing (Or.inr rfl) (by simp [CondTy]))
      | some u =>
        dsimp only
        by_cases hvoid : u.isVoid = true
        · rw [if_pos hvoid]
          rw [Ty.isVoid_iff] at hvoid
          exact yields_pure.mpr (.found (by simp [CondTy, hint, hvoid]))
        · rw [if_neg hvoid]
          refine yields_fail.mpr (judges_fault _ _ fun v hv => hvoid ?_)
          obtain ⟨-, -, hu⟩ := hv
          cases hu
          rfl
    · rw [if_neg hint]
      refine yields_fail.mpr (judges_fault _ _ fun u hu => hint ?_)
      obtain ⟨-, ht, -⟩ := hu
      cases ht
      rfl

theorem yields_condSome (ha : c.types.Closed) {test thenPart elsePart : Mark}
    (ht : ∀ t, thenPart.ty = some t → c.types.Has t)
    (he : ∀ t, elsePart.ty = some t → c.types.Has t) :
    Yields (cond loc test thenPart (some elsePart)) c
      (Judges c (BranchTy c.types test.ty thenPart.ty elsePart.ty)
        (test.ty = none ∨ thenPart.ty = none ∨ elsePart.ty = none)) := by
  unfold cond
  cases htest : test.ty with
  | none => exact yields_pure.mpr (.missing (Or.inl rfl) (by simp [BranchTy]))
  | some s =>
    dsimp only
    by_cases hint : s.isInt = true
    · rw [if_pos hint]
      rw [Ty.isInt_iff] at hint
      cases hthen : thenPart.ty with
      | none => exact yields_pure.mpr (.missing (Or.inr (Or.inl rfl)) (by simp [BranchTy]))
      | some t =>
        dsimp only
        unfold branches
        cases helse : elsePart.ty with
        | none => exact yields_pure.mpr (.missing (Or.inr (Or.inr rfl)) (by simp [BranchTy]))
        | some e =>
          obtain ⟨b, hb, hiff⟩ := Arena.isMatch_spec ha (ht t hthen) (he e helse)
          dsimp only
          rw [yields_bind, yields_isMatch]
          refine ⟨b, hb, ?_⟩
          cases b with
          | true => exact yields_pure.mpr (.found (by simp [BranchTy, hint, hiff.mp rfl]))
          | false =>
            refine yields_fail.mpr (judges_fault _ _ fun u hu => ?_)
            simp [BranchTy, ← hiff] at hu
    · rw [if_neg hint]
      refine yields_fail.mpr (judges_fault _ _ fun u hu => hint ?_)
      obtain ⟨ht, -⟩ := hu
      cases ht
      rfl

theorem yields_require (part : Mark) (ok : Ty → Bool) (fault : Fault) :
    Yields (require part ok fault) c
      (Decides c (∃ t, part.ty = some t ∧ ok t = true) (part.ty = none)) := by
  unfold require
  cases part.ty with
  | none => exact yields_pure.mpr (.missing rfl (by simp))
  | some t =>
    dsimp only
    by_cases hok : ok t = true
    · rw [if_pos hok]
      exact yields_pure.mpr (.yes ⟨t, rfl, hok⟩)
    · rw [if_neg hok]
      exact yields_refuse.mpr (decides_fault _ _ (by simp [hok]))

/-- A loop has an integer test, and a body without a value. -/
def LoopTy (test body : Option Ty) (u : Ty) : Prop :=
  u = .void ∧ test = some .int ∧ body = some .void

theorem yields_loop {test body : Mark} :
    Yields (loop test body) c
      (Judges c (LoopTy test.ty body.ty) (test.ty = none ∨ body.ty = none)) := by
  unfold loop
  rw [yields_bind]
  refine (yields_require test (·.isInt) .loopTestRequiresInteger).mono fun b c₁ h₁ => ?_
  rw [yields_bind]
  refine (yields_require body (·.isVoid) .loopBodyReturnsValue).mono fun b' c₂ h₂ => ?_
  rw [yields_pure]
  have hP : (b && b') = true ↔ test.ty = some .int ∧ body.ty = some .void := by
    rw [Bool.and_eq_true, h₁.iff, h₂.iff]
    simp
  by_cases hb : (b && b') = true
  · rw [if_pos hb]
    rw [Bool.and_eq_true] at hb
    obtain ⟨rfl, rfl⟩ := hb
    rw [h₂.eq_of_true, h₁.eq_of_true]
    exact .found fun u => by simp [LoopTy, hP.mp rfl]
  · rw [if_neg hb]
    have hnot : ∀ u, ¬ LoopTy test.ty body.ty u := fun u hu => hb (hP.mpr hu.2)
    have hreports := h₁.toSays.trans h₂.toSays
    by_cases hlt : c.diagnostics.size < c₂.diagnostics.size
    · exact .refused hnot hreports hlt
    · -- nothing was reported, so the part that is not right has no type
      have hle := h₁.toSays.le
      have hle' := h₂.toSays.le
      have hmissing : test.ty = none ∨ body.ty = none := by
        by_contra hm
        rw [not_or] at hm
        cases b with
        | false => have := h₁.lt_of_false hm.1; omega
        | true =>
          cases b' with
          | false => have := h₂.lt_of_false hm.2; omega
          | true => exact hb rfl
      have hquiet : c₂ = c := by
        have h₁' : c₁ = c := by
          cases h₁ with
          | yes => rfl
          | missing => rfl
          | refused _ _ h => omega
        have h₂' : c₂ = c₁ := by
          cases h₂ with
          | yes => rfl
          | missing => rfl
          | refused _ _ h => omega
        exact h₂'.trans h₁'
      rw [hquiet]
      exact .missing hmissing hnot

theorem yields_bounds {low high : Option Ty} :
    Yields (bounds loc low high) c
      (Decides c (low = some .int ∧ high = some .int) (low = none ∨ high = none)) := by
  unfold bounds
  cases low with
  | none => exact yields_pure.mpr (.missing (Or.inl rfl) (by simp))
  | some l =>
    cases high with
    | none => exact yields_pure.mpr (.missing (Or.inr rfl) (by simp))
    | some h =>
      dsimp only
      have hint : (l.isInt && h.isInt) = true ↔ some l = some Ty.int ∧ some h = some Ty.int := by
        rw [Bool.and_eq_true, Ty.isInt_iff, Ty.isInt_iff, Option.some.injEq, Option.some.injEq]
      by_cases hb : (l.isInt && h.isInt) = true
      · rw [if_pos hb]
        exact yields_pure.mpr (.yes (hint.mp hb))
      · rw [if_neg hb]
        exact yields_refuse.mpr (decides_fault _ _ fun h => hb (hint.mpr h))

/-- The named type is an array, with an integer as its size and an initial value of its element's
type. -/
def ArrayTy (a : Arena) (ty size init : Option Ty) (u : Ty) : Prop :=
  ty = some u ∧ size = some .int ∧ ∃ i e, init = some i ∧ a.element? u = some e ∧ a.Same i e

/-- A part of an array literal has no type, or the named array has no element. -/
def ArrayMissing (a : Arena) (ty size init : Option Ty) : Prop :=
  ty = none ∨ size = none ∨ init = none ∨
    ∃ u, ty = some u ∧ u.isArray = true ∧ a.element? u = none

theorem isArray_of_element? {a : Arena} {t e : Ty} (h : a.element? t = some e) :
    t.isArray = true := by
  unfold Arena.element? at h
  split at h
  · next entry hs =>
    obtain ⟨id, rfl, -⟩ := Arena.shape_eq_array_iff.mp hs
    rfl
  · cases h

theorem yields_array (ha : c.types.Closed) (typeName : Ident) {ty : Option Ty} {size init : Mark}
    (ht : ∀ t, ty = some t → c.types.Has t) (hi : ∀ t, init.ty = some t → c.types.Has t) :
    Yields (array typeName ty size init) c
      (Judges c (ArrayTy c.types ty size.ty init.ty) (ArrayMissing c.types ty size.ty init.ty)) := by
  unfold array
  cases ty with
  | none => exact yields_pure.mpr (.missing (Or.inl rfl) (by simp [ArrayTy]))
  | some t =>
    dsimp only
    by_cases harr : t.isArray = true
    · rw [if_pos harr]
      simp only [yields_bind, yields_get, yields_lift]
      refine ⟨_, Arena.elementOf_eq (ht t rfl), ?_⟩
      cases hel : c.types.element? t with
      | none =>
        exact yields_pure.mpr (.missing (Or.inr (Or.inr (Or.inr ⟨t, rfl, harr, hel⟩))) fun u hu => by
          obtain ⟨h, -, i, e, -, he, -⟩ := hu
          cases h
          rw [hel] at he
          cases he)
      | some e =>
        cases hsize : size.ty with
        | none => exact yields_pure.mpr (.missing (Or.inr (Or.inl rfl)) (by simp [ArrayTy]))
        | some s =>
          cases hinit : init.ty with
          | none =>
            exact yields_pure.mpr (.missing (Or.inr (Or.inr (Or.inl rfl))) (by simp [ArrayTy]))
          | some i =>
            dsimp only
            by_cases hint : s.isInt = true
            · rw [if_pos hint, yields_bind, yields_sameType]
              rw [Ty.isInt_iff] at hint
              obtain ⟨b, hb, hiff⟩ := Arena.sameType_spec ha (hi i hinit)
                (Arena.has_element? ha hel)
              refine ⟨b, hb, ?_⟩
              cases b with
              | true =>
                refine yields_pure.mpr (.found fun u => ⟨fun hu => ?_, ?_⟩)
                · exact (Option.some.inj hu.1).symm
                · rintro rfl
                  exact ⟨rfl, by rw [hint], i, e, rfl, hel, hiff.mp rfl⟩
              | false =>
                refine yields_fail.mpr (judges_fault _ _ fun u hu => ?_)
                obtain ⟨h, -, i', e', hi', he', hsame⟩ := hu
                cases h
                cases hi'
                rw [hel] at he'
                cases he'
                exact Bool.noConfusion (hiff.mpr hsame)
            · rw [if_neg hint]
              refine yields_fail.mpr (judges_fault _ _ fun u hu => hint ?_)
              obtain ⟨-, hs, -⟩ := hu
              cases hs
              rfl
    · rw [if_neg harr]
      refine yields_fail.mpr (judges_fault _ _ fun u hu => harr ?_)
      obtain ⟨h, -, i, e, -, he, -⟩ := hu
      cases h
      exact isArray_of_element? he

/-! ## Calls -/

/-- The signature that callers of a name see. -/
def Signed (c : Checker) (name : String) (s : Signature) : Prop :=
  ∃ id p sig, c.functions.lookup name = some id ∧ c.frames.functions[id.index]? = some p ∧
    p.signature = some sig ∧ s = ⟨sig.params.drop p.hiddenParams, sig.result⟩

/-- The function that a name denotes is found, with the signature that its callers see. -/
theorem yields_target? (name : String)
    (hf : ∀ id, c.functions.lookup name = some id → ∃ p, c.frames.functions[id.index]? = some p ∧
      ∀ sig, p.signature = some sig → p.hiddenParams ≤ sig.params.length) :
    Yields (target? name) c fun r c' => c' = c ∧ r.map (·.id) = c.functions.lookup name ∧
      ∀ s, (∃ id, r = some ⟨id, some s⟩) ↔ Signed c name s := by
  unfold target?
  rw [yields_bind, yields_get]
  cases hl : c.functions.lookup name with
  | none => exact yields_pure.mpr ⟨rfl, rfl, by simp [Signed, hl]⟩
  | some id =>
    obtain ⟨p, hp, hhidden⟩ := hf id hl
    have hvis : visible p = .ok (p.signature.map fun sig =>
        ⟨sig.params.drop p.hiddenParams, sig.result⟩) := by
      unfold visible
      cases hsig : p.signature with
      | none => rfl
      | some sig => simp [hhidden sig hsig]
    simp only [yields_bind, yields_get, yields_lift, FrameTable.function, entry_eq_ok_iff]
    refine ⟨p, hp, _, hvis, yields_pure.mpr ⟨rfl, rfl, fun s => ?_⟩⟩
    constructor
    · rintro ⟨id', h⟩
      simp only [Option.some.injEq, Target.mk.injEq, Option.map_eq_some_iff] at h
      obtain ⟨-, sig, hsig, rfl⟩ := h
      exact ⟨id, p, sig, hl, hp, hsig, rfl⟩
    · rintro ⟨id', p', sig, hl', hp', hsig, rfl⟩
      rw [hl] at hl'
      cases hl'
      rw [hp] at hp'
      cases hp'
      exact ⟨id, by simp [hsig]⟩

/-- An argument has the type of its parameter, if it has a parameter. -/
def ArgOk (a : Arena) (param value : Option Ty) : Prop :=
  ∃ t, value = some t ∧ ∀ p, param = some p → a.Same t p

theorem yields_arg (ha : c.types.Closed) {param : Option Ty} {value : Mark}
    (hp : ∀ t, param = some t → c.types.Has t) (hv : ∀ t, value.ty = some t → c.types.Has t) :
    Yields (arg param value) c (Decides c (ArgOk c.types param value.ty) (value.ty = none)) := by
  unfold arg
  cases hvt : value.ty with
  | none => exact yields_pure.mpr (.missing rfl (by simp [ArgOk]))
  | some t =>
    cases param with
    | none => exact yields_pure.mpr (.yes ⟨t, rfl, by simp⟩)
    | some p =>
      obtain ⟨b, hb, hiff⟩ := Arena.sameType_spec ha (hv t hvt) (hp p rfl)
      dsimp only
      rw [yields_bind, yields_sameType]
      refine ⟨b, hb, ?_⟩
      cases b with
      | true => exact yields_pure.mpr (.yes ⟨t, rfl, fun q hq => by cases hq; exact hiff.mp rfl⟩)
      | false =>
        refine yields_refuse.mpr (decides_fault _ _ fun h => ?_)
        obtain ⟨u, hu, hsame⟩ := h
        cases hu
        exact Bool.noConfusion (hiff.mpr (hsame p rfl))

/-- The function has as many parameters as there are arguments, and all of these fit. -/
def CallTy (target : Option Target) (args : Nat) (fit : Bool) (u : Ty) : Prop :=
  ∃ id s, target = some ⟨id, some s⟩ ∧ s.params.length = args ∧ fit = true ∧ u = s.result

theorem yields_call (callee : Ident) (target : Option Target) (args : Nat) (fit : Bool) :
    Yields (call loc callee target args fit) c (Judges c (CallTy target args fit)
      (fit = false ∨ ∃ id, target = some ⟨id, none⟩)) := by
  unfold call
  cases target with
  | none => exact yields_fail.mpr (judges_fault _ _ (by simp [CallTy]))
  | some target =>
    obtain ⟨id, signature⟩ := target
    cases signature with
    | none => exact yields_pure.mpr (.missing (Or.inr ⟨id, rfl⟩) (by simp [CallTy]))
    | some s =>
      dsimp only
      by_cases hlen : s.params.length = args
      · rw [if_pos hlen, yields_pure]
        cases fit with
        | true => exact .found fun u => by simp [CallTy, hlen]
        | false => exact .missing (Or.inl rfl) (by simp [CallTy])
      · rw [if_neg hlen]
        refine yields_fail.mpr (judges_fault _ _ fun u hu => hlen ?_)
        obtain ⟨id', s', h, hlen', -⟩ := hu
        cases h
        exact hlen'

/-! ## Record literals -/

/-- The named type is a record with as many fields as there are initializers. -/
def FieldsOf (a : Arena) (ty : Option Ty) (inits : Nat) (fields : List Field) : Prop :=
  ∃ t e, ty = some t ∧ a.record? t = some e ∧ e.fields.length = inits ∧ fields = e.fields

theorem yields_recordFields (typeName : Ident) (inits : Nat) {ty : Option Ty}
    (ht : ∀ t, ty = some t → c.types.Has t) :
    Yields (recordFields loc typeName inits ty) c
      (Judges c (FieldsOf c.types ty inits) (ty = none)) := by
  unfold recordFields
  cases ty with
  | none => exact yields_pure.mpr (.missing rfl (by simp [FieldsOf]))
  | some t =>
    simp only [yields_bind, yields_get, yields_lift]
    refine ⟨_, Arena.asRecord_eq (ht t rfl), ?_⟩
    cases hr : c.types.record? t with
    | none => exact yields_fail.mpr (judges_fault _ _ (by simp [FieldsOf, hr]))
    | some e =>
      dsimp only
      by_cases hlen : e.fields.length = inits
      · rw [if_pos hlen]
        refine yields_pure.mpr (.found fun fields => ?_)
        simp only [FieldsOf, Option.some.injEq]
        constructor
        · rintro ⟨t', e', rfl, he, -, rfl⟩
          rw [hr] at he
          cases he
          rfl
        · rintro rfl
          exact ⟨t, e, rfl, hr, hlen, rfl⟩
      · rw [if_neg hlen]
        refine yields_fail.mpr (judges_fault _ _ fun fields hf => hlen ?_)
        obtain ⟨t', e', h, he, hlen', -⟩ := hf
        cases h
        rw [hr] at he
        cases he
        exact hlen'

/-- The initializer names the first of the fields that are left. -/
def PlaceOk (name : Ident) (fields : Option (List Field)) (left : List Field) : Prop :=
  fields = some left ∧ ∀ f ∈ left.head?, name.name = f.name

theorem yields_place (typeName : String) (name : Ident) (fields : Option (List Field)) :
    Yields (place loc typeName name fields) c
      (Judges c (PlaceOk name fields) (fields = none)) := by
  cases fields with
  | none => exact yields_pure.mpr (.missing rfl (by simp [PlaceOk]))
  | some fs =>
    cases fs with
    | nil =>
      refine yields_pure.mpr (.found fun left => ?_)
      simp only [PlaceOk, Option.some.injEq]
      constructor
      · rintro ⟨rfl, -⟩
        rfl
      · rintro rfl
        exact ⟨rfl, by simp⟩
    | cons f fs =>
      unfold place
      dsimp only
      by_cases hname : name.name = f.name
      · rw [if_pos hname]
        refine yields_pure.mpr (.found fun left => ?_)
        simp only [PlaceOk, Option.some.injEq]
        constructor
        · rintro ⟨rfl, -⟩
          rfl
        · rintro rfl
          exact ⟨rfl, by simp [hname]⟩
      · rw [if_neg hname]
        refine yields_fail.mpr (judges_fault _ _ fun left hl => hname ?_)
        obtain ⟨h, hf⟩ := hl
        cases h
        exact hf f rfl

/-- The value of an initializer matches the type of its field, if it has a field. -/
def InitOk (a : Arena) (field : Option Field) (value : Option Ty) : Prop :=
  ∃ t, value = some t ∧ ∀ f, field = some f → a.Matches t f.ty

theorem yields_init (ha : c.types.Closed) {field : Option Field} {value : Mark}
    (hf : ∀ f, field = some f → c.types.Has f.ty) (hv : ∀ t, value.ty = some t → c.types.Has t) :
    Yields (init field value) c (Decides c (InitOk c.types field value.ty) (value.ty = none)) := by
  unfold init
  cases hvt : value.ty with
  | none => exact yields_pure.mpr (.missing rfl (by simp [InitOk]))
  | some t =>
    cases field with
    | none => exact yields_pure.mpr (.yes ⟨t, rfl, by simp⟩)
    | some f =>
      obtain ⟨b, hb, hiff⟩ := Arena.isMatch_spec ha (hv t hvt) (hf f rfl)
      dsimp only
      rw [yields_bind, yields_isMatch]
      refine ⟨b, hb, ?_⟩
      cases b with
      | true => exact yields_pure.mpr (.yes ⟨t, rfl, fun g hg => by cases hg; exact hiff.mp rfl⟩)
      | false =>
        refine yields_refuse.mpr (decides_fault _ _ fun h => ?_)
        obtain ⟨u, hu, hmatch⟩ := h
        cases hu
        exact Bool.noConfusion (hiff.mpr (hmatch f rfl))

/-! ## Variables -/

/-- The slot that a name is bound to is found, with its type. -/
theorem yields_simple (name : String)
    (hv : ∀ v, c.values.lookup name = some v → ∃ s, c.frames.vars[v.index]? = some s) :
    Yields (simple loc name) c fun r c' => r.1 = c.values.lookup name ∧
      ((∃ v s, c.values.lookup name = some v ∧ c.frames.vars[v.index]? = some s ∧ r.2 = s.ty ∧
          c' = c) ∨
        c.values.lookup name = none ∧ r.2 = none ∧
          c' = c.reported (.undefinedVariable name) loc) := by
  unfold simple
  rw [yields_bind, yields_get]
  cases hl : c.values.lookup name with
  | none =>
    dsimp only
    rw [yields_bind, yields_fail, yields_pure]
    exact ⟨rfl, Or.inr ⟨rfl, rfl, rfl⟩⟩
  | some v =>
    obtain ⟨s, hs⟩ := hv v hl
    simp only [yields_bind, yields_get, yields_lift, FrameTable.var, entry_eq_ok_iff]
    exact ⟨s, hs, yields_pure.mpr ⟨rfl, Or.inl ⟨v, s, rfl, hs, rfl, rfl⟩⟩⟩

/-- The position of the first field of a name is that of the first field of the name. -/
theorem getElem?_fieldIndex {e : RecordEntry} {name : String} {i : Nat}
    (h : e.fieldIndex name = some i) :
    ∃ f, e.fields[i]? = some f ∧ e.fields.find? (·.name == name) = some f := by
  obtain ⟨hlt, hp, hmin⟩ := List.findIdx?_eq_some_iff_getElem.mp h
  refine ⟨e.fields[i], List.getElem?_eq_getElem hlt, ?_⟩
  rw [List.find?_eq_some_iff_getElem]
  exact ⟨hp, i, hlt, rfl, fun j hj => by simpa using hmin j hj⟩

/-- The base is a record, whose first field of the name has the type. -/
def FieldTy (a : Arena) (base : Option Ty) (name : String) (u : Ty) : Prop :=
  ∃ t e f, base = some t ∧ a.record? t = some e ∧ e.fields.find? (·.name == name) = some f ∧
    u = f.ty

theorem yields_field {base : Mark} (hb : ∀ t, base.ty = some t → c.types.Has t) (name : Ident) :
    Yields (field loc base name) c fun r =>
      Judges c (FieldTy c.types base.ty name.name) (base.ty = none) r.2 := by
  unfold field
  cases hbt : base.ty with
  | none => exact yields_pure.mpr (.missing rfl (by simp [FieldTy]))
  | some t =>
    simp only [yields_bind, yields_get, yields_lift]
    refine ⟨_, Arena.asRecord_eq (hb t hbt), ?_⟩
    cases hr : c.types.record? t with
    | none =>
      dsimp only
      rw [yields_bind, yields_fail, yields_pure]
      exact judges_fault _ _ (by simp [FieldTy, hr])
    | some e =>
      dsimp only
      cases hi : e.fieldIndex name.name with
      | none =>
        dsimp only
        rw [yields_bind, yields_fail, yields_pure]
        refine judges_fault _ _ fun u hu => ?_
        obtain ⟨t', e', f, h, he, hf, -⟩ := hu
        cases h
        rw [hr] at he
        cases he
        have hnone := List.findIdx?_eq_none_iff.mp hi f (List.mem_of_find?_eq_some hf)
        rw [List.find?_some hf] at hnone
        cases hnone
      | some i =>
        obtain ⟨f, hf, hfind⟩ := getElem?_fieldIndex hi
        dsimp only
        rw [hf]
        refine yields_pure.mpr (.found fun u => ?_)
        simp only [FieldTy, Option.some.injEq]
        constructor
        · rintro ⟨t', e', f', rfl, he, hf', rfl⟩
          rw [hr] at he
          cases he
          rw [hfind] at hf'
          cases hf'
          rfl
        · rintro rfl
          exact ⟨t, e, f, rfl, hr, hfind, rfl⟩

/-- The base is an array, the index an integer, and the element has the type. -/
def ElementTy (a : Arena) (base index : Option Ty) (u : Ty) : Prop :=
  index = some .int ∧ ∃ t, base = some t ∧ a.element? t = some u

/-- A part of an indexed variable has no type, or the array has no element. -/
def ElementMissing (a : Arena) (base index : Option Ty) : Prop :=
  base = none ∨ index = none ∨ ∃ t, base = some t ∧ t.isArray = true ∧ a.element? t = none

theorem yields_element {base index : Mark} (hb : ∀ t, base.ty = some t → c.types.Has t) :
    Yields (element base index) c
      (Judges c (ElementTy c.types base.ty index.ty) (ElementMissing c.types base.ty index.ty)) := by
  unfold element
  cases hbt : base.ty with
  | none => exact yields_pure.mpr (.missing (Or.inl rfl) (by simp [ElementTy]))
  | some t =>
    dsimp only
    by_cases harr : t.isArray = true
    · rw [if_pos harr]
      cases hit : index.ty with
      | none => exact yields_pure.mpr (.missing (Or.inr (Or.inl rfl)) (by simp [ElementTy]))
      | some i =>
        dsimp only
        by_cases hint : i.isInt = true
        · rw [if_pos hint]
          rw [Ty.isInt_iff] at hint
          simp only [yields_bind, yields_get, yields_lift]
          refine ⟨_, Arena.elementOf_eq (hb t hbt), ?_⟩
          cases hel : c.types.element? t with
          | none => exact .missing (Or.inr (Or.inr ⟨t, rfl, harr, hel⟩)) (by simp [ElementTy, hel])
          | some e => exact .found fun u => by simp [ElementTy, hel, hint, eq_comm]
        · rw [if_neg hint]
          refine yields_fail.mpr (judges_fault _ _ fun u hu => hint ?_)
          obtain ⟨h, -⟩ := hu
          cases h
          rfl
    · rw [if_neg harr]
      refine yields_fail.mpr (judges_fault _ _ fun u hu => harr ?_)
      obtain ⟨-, t', h, he⟩ := hu
      cases h
      exact isArray_of_element? he

/-! ## Declarations -/

/-- The type of an initializer that stands without a declared type. -/
def InferredTy (init : Option Ty) (u : Ty) : Prop := init = some u ∧ u ≠ .nil

theorem yields_inferred (init : Mark) : Yields (inferred init) c fun r c' =>
    Judges c (InferredTy init.ty) (init.ty = none) r.1 c' ∧ r.2 = r.1.isSome := by
  unfold inferred
  cases hi : init.ty with
  | none => exact yields_pure.mpr ⟨.missing rfl (by simp [InferredTy]), rfl⟩
  | some t =>
    cases t with
    | nil =>
      dsimp only
      rw [yields_bind, yields_fail, yields_pure]
      refine ⟨judges_fault _ _ fun u hu => hu.2 ?_, rfl⟩
      exact (Option.some.inj hu.1).symm
    | _ =>
      refine yields_pure.mpr ⟨.found fun u => ⟨fun hu => (Option.some.inj hu.1).symm, ?_⟩, rfl⟩
      rintro rfl
      exact ⟨rfl, by simp⟩

/-- The initializer matches the declared type; a literal has exactly that type. -/
def AnnotatedOk (a : Arena) (declared init : Option Ty) (literal : Bool) : Prop :=
  ∃ d i, declared = some d ∧ init = some i ∧ a.Matches d i ∧ (literal = true → d = i)

/-- A variable that is declared with a type has that type. -/
theorem yields_annotated (hc : c.AtRest) (typeName : Ident) {init : Mark}
    (hi : ∀ t, init.ty = some t → c.types.Has t) (literal : Bool) :
    Yields (annotated typeName init literal) c fun r c' => r.1 = c.typeNamed typeName.name ∧
      Decides c (AnnotatedOk c.types (c.typeNamed typeName.name) init.ty literal)
        (¬ c.Clean ∨ init.ty = none) r.2 c' := by
  unfold annotated
  rw [yields_bind]
  refine (yields_typeOf hc typeName).mono fun declared c₁ h => ?_
  cases h with
  | missing hm hnone =>
    have ht : c.typeNamed typeName.name = none := Option.eq_none_iff_forall_ne_some.mpr hnone
    rw [ht]
    exact yields_pure.mpr ⟨rfl, .missing (Or.inl hm) (by simp [AnnotatedOk])⟩
  | refused hnone hreports hlt =>
    have ht : c.typeNamed typeName.name = none := Option.eq_none_iff_forall_ne_some.mpr hnone
    rw [ht]
    exact yields_pure.mpr ⟨rfl, .refused (by simp [AnnotatedOk]) hreports hlt⟩
  | @found d hd =>
    have ht : c.typeNamed typeName.name = some d := (hd d).mpr rfl
    rw [ht]
    cases hit : init.ty with
    | none => exact yields_pure.mpr ⟨rfl, .missing (Or.inr rfl) (by simp [AnnotatedOk])⟩
    | some i =>
      obtain ⟨b, hb, hiff⟩ := Arena.isMatch_spec hc.closed (hc.has_typeNamed ht) (hi i hit)
      dsimp only
      rw [yields_bind, yields_isMatch]
      refine ⟨b, hb, ?_⟩
      have hok : (b && !(literal && decide (d ≠ i))) = true ↔
          AnnotatedOk c.types (some d) (some i) literal := by
        rw [Bool.and_eq_true, hiff]
        cases literal <;> simp [AnnotatedOk]
      by_cases hcond : (b && !(literal && decide (d ≠ i))) = true
      · rw [if_pos hcond]
        exact yields_pure.mpr ⟨rfl, .yes (hok.mp hcond)⟩
      · rw [if_neg hcond, yields_bind, yields_refuse, yields_pure]
        exact ⟨rfl, decides_fault _ _ fun h => hcond (hok.mpr h)⟩

/-- The body of a procedure gives no value, and that of another function its result. -/
def BodyOk (a : Arena) (result body : Option Ty) : Prop :=
  ∃ r b, result = some r ∧ body = some b ∧ if r = .void then b = .void else a.Same r b

theorem yields_body (ha : c.types.Closed) {result : Option Ty} {value : Mark}
    (hr : ∀ t, result = some t → c.types.Has t) (hv : ∀ t, value.ty = some t → c.types.Has t) :
    Yields (body result value) c
      (Decides c (BodyOk c.types result value.ty) (result = none ∨ value.ty = none)) := by
  unfold body
  cases result with
  | none => exact yields_pure.mpr (.missing (Or.inl rfl) (by simp [BodyOk]))
  | some r =>
    cases hvt : value.ty with
    | none => exact yields_pure.mpr (.missing (Or.inr rfl) (by simp [BodyOk]))
    | some b =>
      dsimp only
      by_cases hvoid : r.isVoid = true
      · rw [if_pos hvoid]
        rw [Ty.isVoid_iff] at hvoid
        by_cases hb : b.isVoid = true
        · rw [if_pos hb]
          rw [Ty.isVoid_iff] at hb
          exact yields_pure.mpr (.yes ⟨r, b, rfl, rfl, by rw [if_pos hvoid, hb]⟩)
        · rw [if_neg hb]
          refine yields_refuse.mpr (decides_fault _ _ fun h => hb ?_)
          obtain ⟨r', b', h₁, h₂, hcond⟩ := h
          cases h₁
          cases h₂
          rw [if_pos hvoid] at hcond
          exact Ty.isVoid_iff.mpr hcond
      · rw [if_neg hvoid, yields_bind, yields_sameType]
        rw [Ty.isVoid_iff] at hvoid
        obtain ⟨s, hs, hiff⟩ := Arena.sameType_spec ha (hr r rfl) (hv b hvt)
        refine ⟨s, hs, ?_⟩
        cases s with
        | true => exact yields_pure.mpr (.yes ⟨r, b, rfl, rfl, by rw [if_neg hvoid]; exact hiff.mp rfl⟩)
        | false =>
          refine yields_refuse.mpr (decides_fault _ _ fun h => ?_)
          obtain ⟨r', b', h₁, h₂, hcond⟩ := h
          cases h₁
          cases h₂
          rw [if_neg hvoid] at hcond
          exact Bool.noConfusion (hiff.mpr hcond)

end Rule

end TigerCheck
