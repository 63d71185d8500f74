import Mathlib.Data.List.Nodup
import TigerCheck.Proofs.Scope.Sites
import TigerCheck.Proofs.Twin.Slots
import TigerCheck.Proofs.Typing.Functions

/-!
# The heads of functions in two runs

What binding the functions of a run adds, and what their names stand for afterwards, is told by their heads
and the type names in scope. So it does not matter in which order functions with different names are bound.

* `functionHeads`: the heads of a run.
* `Checker.headGains`, **`gains_of_run_bindHeaders`**: what is added.
* `headNamed`, **`BindsFunctions.signature_eq`**: what names stand for.
* `SameHeads`, **`Twin.bindFunctions`**: the functions of a run are bound on both sides.
-/

namespace TigerCheck

open Check

variable {free : Prop} {ρ : Pairing} {ctx ctx' : Context} {c c₁ c' d d₁ d' : Checker} {head : FunctionHead}
  {seen : List String} {heads : List FunctionHead} {ds es : List Dec} {name : String}

/-! ## Heads -/

/-- The head of a function. -/
def Dec.head? : Dec → Option FunctionHead
  | .function head _ _ _ => some head
  | _ => none

/-- The heads of the functions among some declarations. -/
def functionHeads (ds : List Dec) : List FunctionHead := ds.filterMap Dec.head?

/-- The first head with a name. -/
def headNamed (heads : List FunctionHead) (name : String) : Option FunctionHead :=
  heads.find? (·.name.name = name)

theorem headNamed_cons (head : FunctionHead) (heads : List FunctionHead) (name : String) :
    headNamed (head :: heads) name = if head.name.name = name then some head else headNamed heads name := by
  unfold headNamed
  rw [List.find?_cons]
  by_cases h : head.name.name = name <;> simp [h]

/-- Where no name occurs twice, a head has a name exactly if it is one of the heads with this name. -/
theorem headNamed_eq_some_iff (h : (heads.map (·.name.name)).Nodup) :
    headNamed heads name = some head ↔ head ∈ heads ∧ head.name.name = name := by
  induction heads with
  | nil => simp [headNamed]
  | cons x heads ih =>
    obtain ⟨hx, hheads⟩ := List.nodup_cons.mp h
    rw [headNamed_cons, List.mem_cons]
    split
    · next heq =>
      rw [Option.some.injEq]
      constructor
      · rintro rfl
        exact ⟨.inl rfl, heq⟩
      · rintro ⟨rfl | hmem, hname⟩
        · rfl
        · exact absurd (List.mem_map.mpr ⟨head, hmem, hname.trans heq.symm⟩) hx
    · next hne =>
      rw [ih hheads]
      constructor
      · rintro ⟨hmem, hname⟩
        exact ⟨.inr hmem, hname⟩
      · rintro ⟨rfl | hmem, hname⟩
        · exact absurd hname hne
        · exact ⟨hmem, hname⟩

theorem headNamed_perm {heads' : List FunctionHead} (h : (heads.map (·.name.name)).Nodup)
    (hp : heads.Perm heads') (name : String) : headNamed heads name = headNamed heads' name := by
  have h' : (heads'.map (·.name.name)).Nodup := (hp.map _).nodup_iff.mp h
  refine Option.ext fun head => ?_
  rw [headNamed_eq_some_iff h, headNamed_eq_some_iff h', hp.mem_iff]

/-- The same heads; or, where the order is free, heads with different names in another order. -/
inductive SameHeads (free : Prop) (heads : List FunctionHead) : List FunctionHead → Prop where
  | same : SameHeads free heads heads
  | permuted {heads' : List FunctionHead} : free → (heads.map (·.name.name)).Nodup → heads.Perm heads' →
      SameHeads free heads heads'

theorem SameHeads.headNamed_eq {heads' : List FunctionHead} (h : SameHeads free heads heads')
    (name : String) : headNamed heads name = headNamed heads' name := by
  cases h with
  | same => rfl
  | permuted _ hn hp => exact headNamed_perm hn hp name

theorem functionHeads_eq_of_reordered (h : reorderedDecs free ds es) :
    functionHeads es = functionHeads ds := by
  induction ds generalizing es with
  | nil =>
    cases h
    rfl
  | cons d ds ih =>
    obtain ⟨e, es, rfl, he, hes⟩ := h
    have hhead : e.head? = d.head? := by
      cases d <;> simp only [Dec.Reordered] at he
      · rw [he]
      · obtain ⟨_, rfl, -⟩ := he
        rfl
      · obtain ⟨_, rfl, -⟩ := he
        rfl
    unfold functionHeads
    rw [List.filterMap_cons, List.filterMap_cons, hhead]
    split
    · exact ih hes
    · exact congrArg _ (ih hes)

theorem map_name_functionHeads (h : ∀ d ∈ ds, d.kind = .function) :
    (functionHeads ds).map (·.name.name) = ds.map (·.name.name) := by
  induction ds with
  | nil => rfl
  | cons d ds ih =>
    obtain ⟨hd, hds⟩ := List.forall_mem_cons.mp h
    cases d with
    | type => cases hd
    | var => cases hd
    | function head body loc id => exact congrArg (head.name.name :: ·) (ih hds)

/-- A run and the run in another order have the same heads. -/
theorem Dec.RunReordered.sameHeads {run run' : List Dec} (h : Dec.RunReordered free run run') :
    SameHeads free (functionHeads run) (functionHeads run') := by
  cases h with
  | same => exact .same
  | permuted hf hk hn hp =>
    exact .permuted hf (by rw [map_name_functionHeads hk]; exact hn) (hp.filterMap _)

/-! ## What is added -/

namespace Checker

/-- What is reported of a type name if it is not bound. -/
def missing (c : Checker) (m : Ident) : List Diagnostic :=
  if (c.typeNames.lookup m.name).isSome then [] else [⟨m.loc, .undefinedType m.name⟩]

/-- What is added when a function is bound: its unbound type names are reported, and it gets a frame with
slots for the static link and the parameters. -/
def headGain (c : Checker) (head : FunctionHead) : Gain where
  reports := head.mentions.flatMap c.missing
  vars := head.params.length + 1
  functions := 1
  frames := 1

/-- What is added when the functions of a run are bound, given the names that occurred before. -/
def headGains (c : Checker) : List String → List FunctionHead → List Gain
  | _, [] => []
  | seen, head :: heads =>
    if head.name.name ∈ seen then
      { reports := [⟨head.name.loc, .duplicateDefinition head.name.name⟩] } :: c.headGains seen heads
    else c.headGain head :: c.headGains (head.name.name :: seen) heads

theorem missing_congr (h : ∀ name, (c'.typeNames.lookup name).isSome = (c.typeNames.lookup name).isSome) :
    c'.missing = c.missing := by
  funext m
  rw [missing, missing, h]

theorem headGain_congr (h : c'.missing = c.missing) : c'.headGain = c.headGain := by
  funext head
  rw [headGain, headGain, h]

theorem headGains_congr (h : c'.missing = c.missing) (seen : List String) (heads : List FunctionHead) :
    c'.headGains seen heads = c.headGains seen heads := by
  induction heads generalizing seen with
  | nil => rfl
  | cons head heads ih => rw [headGains, headGains, ih, ih, headGain_congr h]

/-- Where no name occurs twice, every function adds what its head says. -/
theorem headGains_eq_map (h : (heads.map (·.name.name)).Nodup)
    (hseen : ∀ head ∈ heads, head.name.name ∉ seen) : c.headGains seen heads = heads.map c.headGain := by
  induction heads generalizing seen with
  | nil => rfl
  | cons head heads ih =>
    obtain ⟨hx, hheads⟩ := List.nodup_cons.mp h
    obtain ⟨hnot, hseen⟩ := List.forall_mem_cons.mp hseen
    rw [headGains, if_neg hnot, List.map_cons, ih hheads fun y hy hmem => ?_]
    rcases List.mem_cons.mp hmem with heq | hmem
    · exact hx (List.mem_map.mpr ⟨y, hy, heq⟩)
    · exact hseen y hy hmem

theorem Gains.cast {g h : Gain} (hc : c.Gains g c') (hg : g = h) : c.Gains h c' := hg ▸ hc

end Checker

/-- Functions that are bound in another order add the same. -/
theorem SameHeads.gains_alike {heads' : List FunctionHead} (h : SameHeads free heads heads') (c : Checker) :
    (Gain.seqAll (c.headGains [] heads)).Alike free (.seqAll (c.headGains [] heads')) := by
  cases h with
  | same => exact .refl free _
  | permuted hf hn hp =>
    rw [Checker.headGains_eq_map hn fun _ _ => List.not_mem_nil,
      Checker.headGains_eq_map ((hp.map _).nodup_iff.mp hn) fun _ _ => List.not_mem_nil]
    exact Gain.alike_seqAll_of_perm hf (hp.map _)

namespace Check

theorem gains_of_run_typeOf {m : Ident} {ty : Option Ty} (hc : c.AtRest)
    (h : (typeOf m).run c = .ok (ty, c')) :
    c.Gains { reports := c.missing m } c' ∧ c'.AtRest ∧ c'.typeNames = c.typeNames := by
  obtain ⟨-, ⟨hl, rfl⟩ | ⟨hl, rfl⟩⟩ := (yields_typeOf_lookup hc m).of_run h
  · refine ⟨(Checker.gains_reported c _ _).cast ?_, hc.congr rfl rfl rfl, rfl⟩
    rw [Checker.missing, hl]
    rfl
  · refine ⟨(Checker.Gains.refl c').cast ?_, hc, rfl⟩
    rw [Checker.missing, if_pos (Option.isSome_iff_ne_none.mpr hl)]

/-- Every parameter adds a slot, and a report if its type name is not bound. -/
theorem gains_of_run_declareParams {frame : FrameId} {ps : List TypedName} :
    ∀ {c c' : Checker} {r : List VarId × Option (List Ty)}, c.AtRest →
      (declareParams frame ps).run c = .ok (r, c') →
      c.Gains { reports := (ps.map (·.typeName)).flatMap c.missing, vars := ps.length } c' ∧ c'.AtRest ∧
        c'.typeNames = c.typeNames := by
  induction ps with
  | nil =>
    intro c c' r hc h
    cases h
    exact ⟨.refl c, hc, rfl⟩
  | cons p ps ih =>
    intro c c' r hc h
    obtain ⟨ty, c₁, v, frames, r', h₁, halloc, h₃, -⟩ := exists_of_run_declareParams h
    obtain ⟨hg₁, hc₁, hn₁⟩ := gains_of_run_typeOf hc h₁
    have hc₂ : Checker.AtRest { c₁ with frames } := hc₁.congr rfl rfl rfl
    obtain ⟨hg₃, hc₃, hn₃⟩ := ih hc₂ h₃
    refine ⟨((hg₁.seq (Checker.gains_alloc halloc c₁.values)).seq hg₃).cast ?_, hc₃, hn₃.trans hn₁⟩
    have hmissing : Checker.missing { c₁ with frames } = c.missing :=
      Checker.missing_congr fun name => by rw [hn₁]
    rw [hmissing]
    simp [Gain.seq, Nat.add_comm]

theorem gains_of_run_declaredResult {result : Option Ident} {ty : Option Ty} (hc : c.AtRest)
    (h : (declaredResult result).run c = .ok (ty, c')) :
    c.Gains { reports := result.toList.flatMap c.missing } c' ∧ c'.AtRest ∧
      c'.typeNames = c.typeNames := by
  cases result with
  | none =>
    cases h
    exact ⟨.refl c, hc, rfl⟩
  | some m =>
    rw [Option.toList_some, List.flatMap_singleton]
    exact gains_of_run_typeOf hc h

/-- **What is added when a function is bound.** -/
theorem gains_of_run_declareFunction {h : Header} (hc : c.AtRest)
    (hrun : (declareFunction ctx head).run c = .ok (h, c')) : c.Gains (c.headGain head) c' := by
  obtain ⟨link, frames₂, r, c₃, result, c₄, signature, hlink, h₃, h₄, -, rfl⟩ :=
    exists_of_run_declareFunction hrun
  have hrest : ∀ frames, Checker.AtRest { c with frames } := fun _ =>
    hc.congr rfl rfl rfl
  have hframe : c.Gains { frames := 1 }
      { c with frames := (c.frames.newFrame (head.name.name ++ "Frame") (ctx.level + 1) ctx.frame).2 } :=
    ⟨(List.append_nil _).symm, rfl, rfl, rfl, rfl, Array.size_push _⟩
  have hslot := Checker.gains_alloc (c := { c with
    frames := (c.frames.newFrame (head.name.name ++ "Frame") (ctx.level + 1) ctx.frame).2 }) hlink c.values
  obtain ⟨hg₃, hc₃, hn₃⟩ := gains_of_run_declareParams (hrest frames₂) h₃
  obtain ⟨hg₄, -, -⟩ := gains_of_run_declaredResult hc₃ h₄
  have hlast : c₄.Gains { functions := 1 } (Checker.note { c₄ with
      frames := (c₄.frames.addFunction ⟨head.name.name, signature,
        .declared (ctx.level + 1) ⟨c.frames.frames.size⟩ link r.1⟩).2
      functions := c₄.functions.bind head.name.name ⟨c₄.frames.functions.size⟩ }
      (.functionDeclared head.name.name (ctx.level + 1))) :=
    ⟨(List.append_nil _).symm, rfl, rfl, rfl, Array.size_push _, rfl⟩
  refine ((hframe.seq hslot).seq ((hg₃.seq hg₄).seq hlast)).cast ?_
  have hmissing : Checker.missing { c with frames := frames₂ } = c.missing := rfl
  have hmissing₃ : c₃.missing = c.missing := Checker.missing_congr fun name => by rw [hn₃]
  simp [Gain.seq, Checker.headGain, FunctionHead.mentions, hmissing, hmissing₃, Nat.add_comm]

/-- **What is added when the functions of a run are bound.** -/
theorem gains_of_run_bindHeaders (hk : ∀ d ∈ ds, d.kind = .function) : ∀ {seen : List String}
    {c c' : Checker} {plans : List Plan}, c.Sound → ctx.Sits c →
      (bindHeaders ctx seen ds).run c = .ok (plans, c') →
      c.Gains (.seqAll (c.headGains seen (functionHeads ds))) c' := by
  induction ds with
  | nil =>
    intro seen c c' plans _ _ h
    cases h
    exact .refl c
  | cons x ds ih =>
    intro seen c c' plans hc hs h
    obtain ⟨hx, hds⟩ := List.forall_mem_cons.mp hk
    cases x with
    | type => cases hx
    | var => cases hx
    | function head body loc id =>
      change c.Gains (.seqAll (c.headGains seen (head :: functionHeads ds))) c'
      rw [Checker.headGains]
      rcases exists_of_run_bindHeaders h with ⟨hseen, plans', -, h₂⟩ | ⟨hseen, plan, c₁, plans', -, hbinds, h₂⟩
      · rw [if_pos (by exact hseen)]
        have hw := Checker.walked_reported hc (.duplicateDefinition head.name.name) head.name.loc
        have hrest := ih hds hw.sound (hs.walked hw) h₂
        have hmissing : (c.reported (.duplicateDefinition head.name.name) head.name.loc).missing = c.missing :=
          rfl
        rw [Checker.headGains_congr hmissing] at hrest
        exact (Checker.gains_reported c _ _).seq hrest
      · rw [if_neg (by exact hseen)]
        cases hbinds with
        | function h₁ =>
        have hdecl := (yieldsOr_declareFunction hc hs head).of_run h₁
        have hrest := ih hds hdecl.declared.sound hdecl.declared.sits h₂
        have hmissing : c₁.missing = c.missing :=
          Checker.missing_congr fun name => by rw [hdecl.typeNames_eq]
        rw [Checker.headGains_congr hmissing] at hrest
        exact (gains_of_run_declareFunction hc.rest h₁).seq hrest

end Check

/-! ## What names stand for -/

/-- The head that a name of a run is bound with, unless it occurred before. -/
def newHead (seen : List String) (heads : List FunctionHead) (name : String) : Option FunctionHead :=
  if name ∈ seen then none else headNamed heads name

/-- **What names stand for when the functions of a run are bound.** -/
theorem BindsFunctions.signature_eq {plans : List Plan} (h : BindsFunctions ctx seen ds c plans c')
    (hk : ∀ d ∈ ds, d.kind = .function) : c.Sound → ctx.Sits c → ∀ name,
      (c'.functions.lookup name).isSome =
          ((newHead seen (functionHeads ds) name).isSome || (c.functions.lookup name).isSome) ∧
        c'.signed name = ((newHead seen (functionHeads ds) name).map c.signatureOf).getD (c.signed name) := by
  induction h with
  | nil =>
    intro _ _ name
    simp [newHead, functionHeads, headNamed]
  | @dropped seen x ds c c' plans hseen _ ih =>
    intro hc hs name
    obtain ⟨hx, hds⟩ := List.forall_mem_cons.mp hk
    have hw := Checker.walked_reported hc (.duplicateDefinition x.name.name) x.name.loc
    have hnew : newHead seen (functionHeads (x :: ds)) name = newHead seen (functionHeads ds) name := by
      cases x with
      | type => cases hx
      | var => cases hx
      | function head body loc id =>
        change newHead seen (head :: functionHeads ds) name = _
        unfold newHead
        split
        · rfl
        · next hnot =>
          rw [headNamed_cons, if_neg]
          rintro rfl
          exact hnot hseen
    rw [hnew]
    exact ih hds hw.sound (hs.walked hw) name
  | @bound seen head body loc id ds c c₁ c' h plans hseen hd _ ih =>
    intro hc hs name
    obtain ⟨-, hds⟩ := List.forall_mem_cons.mp hk
    obtain ⟨hsome, hsigned⟩ := ih hds hd.declared.sound hd.declared.sits name
    have hsigned₁ := hd.signed_eq hc name
    have hlookup₁ := hd.lookup_eq name
    have hsignature : c₁.signatureOf = c.signatureOf :=
      funext (hc.rest.signatureOf_eq hd.declared.grown hd.typeNames_eq)
    rw [hsome, hsigned, hlookup₁, hsigned₁, hsignature]
    change _ = ((newHead seen (head :: functionHeads ds) name).isSome || _) ∧
      _ = ((newHead seen (head :: functionHeads ds) name).map c.signatureOf).getD _
    by_cases heq : head.name.name = name
    · subst heq
      simp [newHead, headNamed_cons, hseen]
    · simp [newHead, headNamed_cons, heq, Ne.symm heq]

/-! ## Both sides -/

/-- Parameters whose types are found one by one on both sides. -/
theorem rel_mapM {α : Type} {f g : α → Option Ty} (l : List α) (h : ∀ a, Option.Rel ρ (f a) (g a)) :
    Option.Rel (List.Forall₂ ρ) (l.mapM f) (l.mapM g) := by
  induction l with
  | nil => exact .some .nil
  | cons a l ih =>
    have ha := h a
    rw [List.mapM_cons, List.mapM_cons]
    generalize f a = o at ha
    generalize g a = o' at ha
    cases ha with
    | none => exact .none
    | some hst =>
      generalize l.mapM f = os at ih
      generalize l.mapM g = os' at ih
      cases ih with
      | none => exact .none
      | some hss => exact .some (.cons hst hss)

/-- **A head declares paired signatures.** -/
theorem Checker.TypesAlike.signatureOf (h : c.TypesAlike ρ d) (hvoid : ρ .void .void) (head : FunctionHead) :
    Option.Rel (Signature.Paired ρ) (c.signatureOf head) (d.signatureOf head) := by
  have hparams := rel_mapM head.params fun p => (h p.typeName.name).2
  have hresult : Option.Rel ρ (c.resultOf head) (d.resultOf head) := by
    unfold Checker.resultOf
    cases head.result with
    | none => exact .some hvoid
    | some m => exact (h m.name).2
  unfold Checker.signatureOf
  generalize head.params.mapM (fun p => c.typeNamed p.typeName.name) = ps at hparams
  generalize head.params.mapM (fun p => d.typeNamed p.typeName.name) = qs at hparams
  generalize c.resultOf head = r at hresult
  generalize d.resultOf head = s at hresult
  cases hparams with
  | none => exact .none
  | some hps =>
    cases hresult with
    | none => exact .none
    | some hrs => exact .some ⟨hps, hrs⟩

/-- **The functions of a run are bound on both sides.** -/
theorem Twin.bindFunctions {plans plans' : List Plan} (h : Twin ρ ctx ctx' c d)
    (hk : ∀ x ∈ ds, x.kind = .function) (hk' : ∀ x ∈ es, x.kind = .function)
    (hheads : SameHeads free (functionHeads ds) (functionHeads es))
    (hrun : (bindHeaders ctx [] ds).run c = .ok (plans, c'))
    (hrun' : (bindHeaders ctx' [] es).run d = .ok (plans', d')) :
    After free ρ ctx ctx' c d ρ c' d' := by
  have hb := (yieldsOr_bindFunctions hk [] c h.alike.sound h.sits).of_run hrun
  have hb' := (yieldsOr_bindFunctions hk' [] d h.alike.sound' h.sits').of_run hrun'
  have hdecl := hb.declared h.alike.sound h.sits
  have hdecl' := hb'.declared h.alike.sound' h.sits'
  have hm : c'.types.Mirrors ρ d'.types := by
    rw [hb.sameTypes.types_eq, hb'.sameTypes.types_eq]
    exact h.alike.mirrors
  have hmissing : d.missing = c.missing := Checker.missing_congr fun name => (h.alike.types name).1.symm
  have hgain : (Gain.seqAll (c.headGains [] (functionHeads ds))).Alike free
      (.seqAll (d.headGains [] (functionHeads es))) := by
    rw [Checker.headGains_congr hmissing]
    exact hheads.gains_alike c
  refine ⟨⟨⟨_, _, gains_of_run_bindHeaders hk h.alike.sound h.sits hrun,
    gains_of_run_bindHeaders hk' h.alike.sound' h.sits' hrun', hgain⟩, hm, fun _ _ hst => hst,
    fun _ _ => .old⟩, ⟨?_, hdecl.sits, hdecl'.sits, h.inLoop_eq⟩⟩
  refine ⟨hdecl.sound, hdecl'.sound, hm, h.alike.types.extends h.alike.sound.rest h.alike.sound'.rest
    hdecl.grown hdecl'.grown hb.scopes_eq.2 hb'.scopes_eq.2 fun _ _ hst => hst,
    h.alike.values.extends h.sits h.sits' hdecl.grown hdecl'.grown hb.scopes_eq.1 hb'.scopes_eq.1
      fun _ _ hst => hst, fun name => ?_⟩
  obtain ⟨hsome, hsigned⟩ := hb.signature_eq hk h.alike.sound h.sits name
  obtain ⟨hsome', hsigned'⟩ := hb'.signature_eq hk' h.alike.sound' h.sits' name
  have hnew : newHead [] (functionHeads es) name = newHead [] (functionHeads ds) name := by
    rw [newHead, newHead, hheads.headNamed_eq]
  rw [hsome, hsigned, hsome', hsigned', hnew, (h.alike.functions name).1]
  refine ⟨rfl, ?_⟩
  cases newHead [] (functionHeads ds) name with
  | none => exact (h.alike.functions name).2
  | some head => exact h.alike.types.signatureOf h.alike.mirrors.void head

end TigerCheck
