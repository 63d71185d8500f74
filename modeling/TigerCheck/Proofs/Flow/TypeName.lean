import TigerCheck.Checker.Header
import TigerCheck.Proofs.Flow.State

/-!
# Where declared types go

What a declaration stands for can be stored: a synonym for a built-in type, or an entry of the arena, whose
fields and element were found in the same way. So can parameters and results of functions, unless there is
no result.

* `Check.upholds_resolve`, `Check.upholds_typeAt`: the type of a declared name.
* **`Check.upholds_typeOf`**: the type that an occurrence of a name stands for.
* `Plan.Proper`: the parameters of a function can be seen. **`Check.upholds_openRun`**: opening a run.
-/

namespace TigerCheck

namespace Check

variable {c : Checker}

/-- An answer, if there is one, is the type of a stored value. -/
abbrev Stored (ty : Option Ty) (c : Checker) : Prop := ∀ u ∈ ty, c.types.Stores u

theorem stored_none (c : Checker) : Stored none c := fun _ h => absurd h (Option.not_mem_none _)

theorem stored_some {c : Checker} {t : Ty} (h : c.types.Stores t) : Stored (some t) c := by
  rintro u ⟨⟩
  exact h

theorem upholds_handOut (hc : c.Proper) (i : NamedTypeId) (dec : TypeDec) :
    Upholds (handOut i dec) c fun t c' => c'.types.Stores t := by
  refine (upholds_namedType hc i).bind fun s c₁ hc₁ _ hs => ?_
  split
  · next ty => exact .pure hc₁ (hs.2 ty rfl)
  · have hmark : ∀ (t : Ty) {c₂ : Checker}, c₂.Proper → c₂.types.Stores t →
        Upholds (do setNamedType i (.pending dec (some t)); return t) c₂ fun t c' => c'.types.Stores t :=
      fun t _ hc₂ ht => (upholds_setNamedType hc₂ i (s := .pending dec (some t)) (stored_some ht)).bind
        fun _ _ hc₃ hw₃ _ => .pure hc₃ (hw₃.stores t ht)
    dsimp only
    split
    · exact (upholds_newArray hc₁ _ (stored_none c₁)).bind fun t _ hc₂ _ ht => hmark t hc₂ ht
    · exact (upholds_newRecord hc₁ _ (List.forall_mem_nil _)).bind fun t _ hc₂ _ ht => hmark t hc₂ ht

theorem upholds_firstConstructed : ∀ (chain : List NamedTypeId) {c : Checker}, c.Proper →
    Upholds (firstConstructed chain) c fun _ _ => True
  | [], _, hc => .pure hc trivial
  | i :: is, c, hc => by
    refine (upholds_namedType hc i).bind fun s c₁ hc₁ _ _ => ?_
    split
    · split
      · exact upholds_firstConstructed is hc₁
      · exact .pure hc₁ trivial
    · exact upholds_firstConstructed is hc₁

theorem upholds_meetAgain (hc : c.Proper) (i : NamedTypeId) (dec : TypeDec) (chain : List NamedTypeId) :
    Upholds (meetAgain i dec chain) c Stored := by
  unfold meetAgain
  split
  · refine (upholds_firstConstructed _ hc).bind fun target c₁ hc₁ _ _ => ?_
    split
    · exact (upholds_handOut hc₁ _ _).map fun _ _ _ ht => stored_some ht
    · exact (upholds_fail hc₁ _ _).mono fun _ _ _ h => h ▸ stored_none _
  · exact (upholds_handOut hc i dec).map fun _ _ _ ht => stored_some ht

/-- The entry of a declaration gets the fields that were found. -/
theorem upholds_completeRecord (hc : c.Proper) (i : NamedTypeId) (name : String) {fields : List Field}
    (h : ∀ f ∈ fields, c.types.Stores f.ty) :
    Upholds (completeRecord i name fields) c fun t c' => c'.types.Stores t := by
  refine (upholds_namedType hc i).bind fun s c₁ hc₁ hw₁ hs => ?_
  have h₁ := fun f hf => hw₁.stores _ (h f hf)
  split
  · next r =>
    have hr := hs.2 (.record r) rfl
    exact (upholds_setFields hc₁ hr.2 h₁).bind fun _ _ hc₂ hw₂ _ => .pure hc₂ (hw₂.stores _ hr)
  · exact upholds_newRecord hc₁ name h₁

/-- The entry of a declaration gets the element that was found. -/
theorem upholds_completeArray (hc : c.Proper) (i : NamedTypeId) (name : String) {element : Ty}
    (h : c.types.Stores element) : Upholds (completeArray i name element) c fun t c' => c'.types.Stores t := by
  refine (upholds_namedType hc i).bind fun s c₁ hc₁ hw₁ hs => ?_
  have h₁ := hw₁.stores _ h
  split
  · next a =>
    have ha := hs.2 (.array a) rfl
    exact (upholds_setElement hc₁ ha.2 h₁).bind fun _ _ hc₂ hw₂ _ => .pure hc₂ (hw₂.stores _ ha)
  · exact upholds_newArray hc₁ name (stored_some h₁)

section

variable {find : Ident → Check (Option Ty)}
  (hfind : ∀ (m : Ident) {c : Checker}, c.Proper → Upholds (find m) c Stored)
include hfind

theorem upholds_resolveFields : ∀ (fields : List TypedName) {c : Checker}, c.Proper →
    Upholds (resolveFields find fields) c fun o c' => ∀ fs ∈ o, ∀ f ∈ fs, c'.types.Stores f.ty
  | [], _, hc => .pure hc (by simp)
  | f :: fs, c, hc => by
    refine (hfind f.typeName hc).bind fun ty c₁ hc₁ _ hty => ?_
    refine (upholds_resolveFields fs hc₁).bind fun rest c₂ hc₂ hw₂ hrest => .pure hc₂ ?_
    cases ty with
    | none => exact fun _ h => absurd h (Option.not_mem_none _)
    | some t =>
      cases rest with
      | none => exact fun _ h => absurd h (Option.not_mem_none _)
      | some fs =>
        rintro _ ⟨⟩
        exact List.forall_mem_cons.mpr ⟨hw₂.stores _ (hty t rfl), hrest fs rfl⟩

theorem upholds_complete (hc : c.Proper) (i : NamedTypeId) (dec : TypeDec) :
    Upholds (complete find i dec) c Stored := by
  unfold complete
  split
  · exact hfind _ hc
  · refine (upholds_resolveFields hfind _ hc).bind fun fields c₁ hc₁ _ hfields => ?_
    cases fields with
    | none => exact .pure hc₁ (stored_none _)
    | some fs => exact (upholds_completeRecord hc₁ i _ (hfields fs rfl)).map fun _ _ _ ht => stored_some ht
  · refine (hfind _ hc).bind fun element c₁ hc₁ _ helement => ?_
    cases element with
    | none => exact .pure hc₁ (stored_none _)
    | some t => exact (upholds_completeArray hc₁ i _ (helement t rfl)).map fun _ _ _ ht => stored_some ht

end

theorem upholds_settle (hc : c.Proper) (i : NamedTypeId) (name : String) {ty : Option Ty} (h : Stored ty c) :
    Upholds (settle i name ty) c fun _ _ => True := by
  cases ty with
  | none => exact upholds_setNamedType hc i (stored_none c)
  | some t =>
    refine .get ((Upholds.lift hc).bind fun display c₁ hc₁ hw₁ _ => ?_)
    refine (upholds_log hc₁ _).bind fun _ c₂ hc₂ hw₂ _ => ?_
    exact upholds_setNamedType hc₂ i (stored_some ((hw₁.trans hw₂).stores t (h t rfl)))

theorem upholds_findWith {resolve : NamedTypeId → Check (Option Ty)} (hc : c.Proper)
    (h : ∀ i, Upholds (resolve i) c Stored) (name : Ident) : Upholds (findWith resolve name) c Stored := by
  refine .get ?_
  cases c.typeNames.lookup name.name with
  | none => exact (upholds_fail hc _ _).mono fun _ _ _ h => h ▸ stored_none _
  | some i => exact h i

theorem upholds_resolve : ∀ (steps : ℕ) (chain : List NamedTypeId) (i : NamedTypeId) {c : Checker}, c.Proper →
    Upholds (resolve steps chain i) c Stored
  | 0, _, _, _, _ => .throw
  | steps + 1, chain, i, c, hc => by
    refine (upholds_namedType hc i).bind fun s c₁ hc₁ _ hs => ?_
    cases s with
    | resolved ty => exact .pure hc₁ (stored_some (hs.2 ty rfl))
    | poisoned => exact .pure hc₁ (stored_none _)
    | pending dec o =>
      refine .ite (fun _ => upholds_meetAgain hc₁ i dec chain) fun _ => ?_
      have hfind : ∀ (m : Ident) {c : Checker}, c.Proper →
          Upholds (findWith (resolve steps (chain ++ [i])) m) c Stored := fun m _ hc =>
        upholds_findWith hc (fun j => upholds_resolve steps _ j hc) m
      refine (upholds_complete hfind hc₁ i dec).bind fun ty c₂ hc₂ _ hty => ?_
      exact (upholds_settle hc₂ i _ hty).bind fun _ _ hc₃ hw₃ _ => .pure hc₃ fun u hu => hw₃.stores u (hty u hu)

theorem upholds_typeAt (hc : c.Proper) (i : NamedTypeId) : Upholds (typeAt i) c Stored :=
  .get (upholds_resolve _ _ i hc)

/-- **What a type name stands for can be stored.** -/
theorem upholds_typeOf (hc : c.Proper) (name : Ident) : Upholds (typeOf name) c Stored :=
  upholds_findWith hc (upholds_typeAt hc) name

end Check

/-! ## Opening a run -/

/-- The parameters of a function whose body is to be checked can be seen. -/
def Plan.Proper (t : FrameTable) : Plan → Prop
  | .functionBody h => ∀ v ∈ h.params, t.Shows v
  | .dropped | .typeBody _ | .variable _ => True

theorem Plan.Proper.widen {c c' : Checker} (hw : c.Widens c') {p : Plan} (h : p.Proper c.frames) :
    p.Proper c'.frames := by
  cases p with
  | functionBody => exact fun v hv => hw.shows (h v hv)
  | dropped | typeBody | «variable» => trivial

namespace Check

variable {c : Checker} {ctx : Context}

theorem upholds_declareType (hc : c.Proper) (dec : TypeDec) : Upholds (declareType dec) c fun _ _ => True := by
  intro a c' hrun
  obtain ⟨-, rfl⟩ := yields_modifyGet.mp (yields_of_run hrun)
  refine ⟨⟨fun i s hs => ?_, hc.entries, hc.slots, hc.functions, hc.values⟩,
    ⟨fun _ h => h, fun _ _ h => h, fun _ _ h => h⟩, trivial⟩
  have hs' : (c.namedTypes.push (.pending dec none))[i.index]? = some s := hs
  rw [Array.getElem?_push] at hs'
  split at hs'
  · cases hs'
    exact stored_none c
  · exact hc.names i s hs'

/-- Every parameter gets a slot that can be seen, of a type that can be stored. -/
theorem upholds_declareParams (frame : FrameId) : ∀ (ps : List TypedName) {c : Checker}, c.Proper →
    Upholds (declareParams frame ps) c fun r c' => (∀ v ∈ r.1, c'.frames.Shows v) ∧
      ∀ ts ∈ r.2, ∀ t ∈ ts, c'.types.Stores t
  | [], _, hc => .pure hc (by simp)
  | p :: ps, c, hc => by
    refine (upholds_typeOf hc p.typeName).bind fun ty c₁ hc₁ _ hty => ?_
    refine (upholds_alloc hc₁ p.name.name .param hty).bind fun v c₂ hc₂ hw₂ hv => ?_
    refine (upholds_declareParams frame ps hc₂).bind fun r c₃ hc₃ hw₃ hr => .pure hc₃ ⟨?_, ?_⟩
    · obtain ⟨s, hs, hk⟩ := hv
      exact List.forall_mem_cons.mpr ⟨hw₃.shows ⟨s, hs, by rw [hk]; decide⟩, hr.1⟩
    · obtain ⟨vs, tys⟩ := r
      cases ty with
      | none => exact fun _ h => absurd h (Option.not_mem_none _)
      | some t =>
        cases tys with
        | none => exact fun _ h => absurd h (Option.not_mem_none _)
        | some ts =>
          rintro _ ⟨⟩
          exact List.forall_mem_cons.mpr ⟨(hw₂.trans hw₃).stores _ (hty t rfl), hr.2 ts rfl⟩

theorem upholds_declaredResult (hc : c.Proper) (result : Option Ident) :
    Upholds (declaredResult result) c fun o c' => ∀ t ∈ o, c'.types.Gives t := by
  cases result with
  | none => exact .pure hc fun t ht => Or.inl (Option.some.inj ht).symm
  | some r => exact (upholds_typeOf hc r).mono fun _ _ _ h t ht => (h t ht).gives

/-- **A function takes the frame around its own, and then what its callers store.** -/
theorem upholds_declareFunction (hc : c.Proper) (head : FunctionHead) :
    Upholds (declareFunction ctx head) c fun h c' => ∀ v ∈ h.params, c'.frames.Shows v := by
  unfold declareFunction
  refine .ite (fun _ => ?_) fun _ => .throw
  refine (upholds_newFrame hc _ _ _).bind fun frame c₁ hc₁ _ hframe => ?_
  refine (upholds_alloc hc₁ _ .staticLink ⟨_, hframe, rfl⟩).bind fun link c₂ hc₂ hw₂ _ => ?_
  refine (upholds_declareParams frame _ hc₂).bind fun r c₃ hc₃ hw₃ hr => ?_
  refine (upholds_declaredResult hc₃ _).bind fun result c₄ hc₄ hw₄ hresult => ?_
  have hparent := (hw₂.trans (hw₃.trans hw₄)).parent _ _ hframe
  refine (upholds_addFunction hc₄ (fun s hs => ?_)).bind fun id c₅ hc₅ hw₅ _ => ?_
  · obtain ⟨vs, tys⟩ := r
    cases result with
    | none => cases hs
    | some t =>
      cases tys with
      | none => cases hs
      | some ts =>
        cases hs
        exact ⟨hresult t rfl, _, ts, hparent, rfl, fun u hu => hw₄.stores u (hr.2 ts rfl u hu)⟩
  · refine (upholds_log hc₅ _).bind fun _ c₆ hc₆ hw₆ _ => .pure hc₆ fun v hv => ?_
    exact (hw₄.trans (hw₅.trans hw₆)).shows (hr.1 v hv)

theorem upholds_bindHeaders : ∀ (ds : List Dec) (seen : List String) {c : Checker}, c.Proper →
    Upholds (bindHeaders ctx seen ds) c fun plans c' => ∀ p ∈ plans, p.Proper c'.frames
  | [], _, _, hc => .pure hc (List.forall_mem_nil _)
  | d :: ds, seen, c, hc => by
    unfold bindHeaders
    refine .ite (fun _ => ?_) fun _ => ?_
    · refine (upholds_report hc _ _).bind fun _ c₁ hc₁ _ _ => ?_
      exact (upholds_bindHeaders ds seen hc₁).bind fun plans c₂ hc₂ _ hp =>
        .pure hc₂ (List.forall_mem_cons.mpr ⟨trivial, hp⟩)
    · have hrest : ∀ (p : Plan) {c₁ : Checker}, c₁.Proper → p.Proper c₁.frames →
          Upholds (do return p :: (← bindHeaders ctx (d.name.name :: seen) ds)) c₁
            fun plans c' => ∀ p ∈ plans, p.Proper c'.frames := fun p _ hc₁ hp =>
        (upholds_bindHeaders ds _ hc₁).bind fun _ _ hc₂ hw₂ hps =>
          .pure hc₂ (List.forall_mem_cons.mpr ⟨hp.widen hw₂, hps⟩)
      cases d with
      | type dec =>
        refine Upholds.bind (P := fun p c' => p.Proper c'.frames) ?_ fun p _ hc₁ _ hp => hrest p hc₁ hp
        exact (upholds_declareType hc dec).map fun _ _ _ _ => trivial
      | function head =>
        refine Upholds.bind (P := fun p c' => p.Proper c'.frames) ?_ fun p _ hc₁ _ hp => hrest p hc₁ hp
        exact (upholds_declareFunction hc head).map fun _ _ _ h => h
      | var => exact hrest .dropped hc trivial

/-- **Opening a run plans to bind only what can be seen.** -/
theorem upholds_openRun (hc : c.Proper) (run : List Dec) :
    Upholds (openRun ctx run) c fun plans c' => ∀ p ∈ plans, p.Proper c'.frames := by
  unfold openRun
  split
  · exact .pure hc (List.forall_mem_nil _)
  · refine (upholds_log hc _).bind fun _ c₁ hc₁ _ _ => ?_
    refine .ite (fun _ => .get (.pure hc₁ ?_)) fun _ => upholds_bindHeaders _ _ hc₁
    simp [Plan.Proper]

theorem upholds_boundSince (hc : c.Proper) (first : ℕ) (name : String) :
    Upholds (boundSince first name) c fun _ _ => True := by
  refine .get ?_
  split
  · exact .pure hc trivial
  · exact .pure hc trivial

end Check

end TigerCheck
