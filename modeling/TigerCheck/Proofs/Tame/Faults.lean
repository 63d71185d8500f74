import TigerCheck.Proofs.Tame.Walk

/-!
# Which faults are reported

Type names and the headers of declarations are looked at between the nodes of a program. What is reported
there is the fault of a name, and never that of a node.

* `Fault.OfTypeName`, `Fault.OfName`: the faults of type names, and of declared names as well.
* `Check.ReportsOnly`: an action adds reports of certain faults. **`Check.ReportsOnly.bind`**.
* **`Check.reportsOnly_typeOf`**, **`Check.reportsOnly_openRun`**: type names, and runs of declarations.
-/

namespace TigerCheck

/-- A fault of a type name. -/
def Fault.OfTypeName : Fault → Prop
  | undefinedType _ | endlessTypeLoop _ => True
  | _ => False

/-- A fault of a type name, or of the name of a declaration. -/
def Fault.OfName : Fault → Prop
  | undefinedType _ | duplicateDefinition _ | endlessTypeLoop _ => True
  | _ => False

theorem Fault.OfTypeName.ofName {f : Fault} (h : f.OfTypeName) : f.OfName := by
  cases f <;> first | exact trivial | exact h

theorem Checker.Reports.exists_entries {F : Fault → Prop} {c c' : Checker} (h : c.Reports F c') :
    ∃ rs : List Diagnostic, (∀ r ∈ rs, F r.fault) ∧
      c'.diagnostics.entries.toList = c.diagnostics.entries.toList ++ rs := by
  induction h with
  | refl => exact ⟨[], List.forall_mem_nil _, (List.append_nil _).symm⟩
  | @report c' fault loc _ hf ih =>
    obtain ⟨rs, hrs, heq⟩ := ih
    refine ⟨rs ++ [⟨loc, fault⟩], List.forall_mem_append.mpr ⟨hrs, List.forall_mem_singleton.mpr hf⟩, ?_⟩
    simp [Checker.reported, Diagnostics.report, heq]

namespace Check

variable {α β : Type} {F G : Fault → Prop} {m : Check α} {f : α → Check β}

/-- An action adds reports, all of certain faults. -/
def ReportsOnly (F : Fault → Prop) (m : Check α) : Prop :=
  ∀ c a c', m.run c = .ok (a, c') → ∃ rs, (∀ r ∈ rs, F r.fault) ∧
    c'.diagnostics.entries.toList = c.diagnostics.entries.toList ++ rs

/-! ## Actions in general -/

namespace ReportsOnly

theorem of_eq (h : ∀ c a c', m.run c = .ok (a, c') → c'.diagnostics = c.diagnostics) : ReportsOnly F m :=
  fun c a c' hm => ⟨[], List.forall_mem_nil _, by rw [h c a c' hm, List.append_nil]⟩

/-- An action that is always good reports nothing. -/
theorem of_tame (h : Tame True m fun _ => True) : ReportsOnly F m :=
  of_eq fun c a c' hm => (h.honest c a c' hm trivial).2

theorem mono (h : ReportsOnly F m) (hFG : ∀ f, F f → G f) : ReportsOnly G m := by
  intro c a c' hm
  obtain ⟨rs, hrs, heq⟩ := h c a c' hm
  exact ⟨rs, fun r hr => hFG _ (hrs r hr), heq⟩

theorem of_passive {ok : Prop} {good : α → Prop} (h : Passive F ok m good) : ReportsOnly F m :=
  fun c a c' hm => (h.changes c a c' hm).exists_entries

theorem pure (a : α) : ReportsOnly F (Pure.pure a) :=
  of_eq fun c b c' hm => by
    cases hm
    rfl

theorem bind (h : ReportsOnly F m) (hf : ∀ a, ReportsOnly F (f a)) : ReportsOnly F (m >>= f) := by
  intro c b c' hm
  obtain ⟨a, c₁, h₁, h₂⟩ := exists_of_run_bind hm
  obtain ⟨rs, hrs, heq⟩ := h c a c₁ h₁
  obtain ⟨rs', hrs', heq'⟩ := hf a c₁ b c' h₂
  exact ⟨rs ++ rs', List.forall_mem_append.mpr ⟨hrs, hrs'⟩, by rw [heq', heq, List.append_assoc]⟩

theorem map {g : α → β} (h : ReportsOnly F m) : ReportsOnly F (g <$> m) := by
  rw [map_eq_pure_bind]
  exact h.bind fun a => .pure (g a)

theorem ite {b : Prop} [Decidable b] {m' : Check α} (h : ReportsOnly F m) (h' : ReportsOnly F m') :
    ReportsOnly F (if b then m else m') := by
  split
  · exact h
  · exact h'

theorem get {g : Checker → Check α} (h : ∀ c, ReportsOnly F (g c)) :
    ReportsOnly F (MonadState.get >>= g) := fun c => h c c

theorem throw {e : Breach} : ReportsOnly F (MonadExcept.throw e : Check α) := by
  intro c a c' hm
  cases hm

end ReportsOnly

theorem reportsOnly_fail {fault : Fault} {loc : Location} (hf : F fault) :
    ReportsOnly F (fail fault loc : Check (Option α)) :=
  .of_passive (passive_fail hf : Passive F True _ _)

/-! ## Type names -/

theorem reportsOnly_meetAgain {i : NamedTypeId} {dec : TypeDec} {chain : List NamedTypeId} :
    ReportsOnly Fault.OfTypeName (meetAgain i dec chain) := by
  unfold meetAgain
  split
  · refine .bind (.of_tame (tame_firstConstructed _)) fun target => ?_
    split
    · exact .map (.of_tame tame_handOut)
    · exact reportsOnly_fail trivial
  · exact .map (.of_tame tame_handOut)

section

variable {find : Ident → Check (Option Ty)} (hfind : ∀ m, ReportsOnly Fault.OfTypeName (find m))
include hfind

theorem reportsOnly_resolveFields : ∀ fields : List TypedName,
    ReportsOnly Fault.OfTypeName (resolveFields find fields)
  | [] => .pure _
  | f :: fs => (hfind f.typeName).bind fun _ => (reportsOnly_resolveFields fs).bind fun _ => .pure _

theorem reportsOnly_complete {i : NamedTypeId} {dec : TypeDec} :
    ReportsOnly Fault.OfTypeName (complete find i dec) := by
  unfold complete
  split
  · exact hfind _
  · refine (reportsOnly_resolveFields hfind _).bind fun fields => ?_
    cases fields with
    | none => exact .pure _
    | some fields => exact .map (.of_tame tame_completeRecord)
  · refine (hfind _).bind fun element => ?_
    cases element with
    | none => exact .pure _
    | some element => exact .map (.of_tame tame_completeArray)

end

theorem reportsOnly_findWith {resolve : NamedTypeId → Check (Option Ty)} {name : Ident}
    (h : ∀ i, ReportsOnly Fault.OfTypeName (resolve i)) : ReportsOnly Fault.OfTypeName (findWith resolve name) := by
  refine .get fun c => ?_
  cases c.typeNames.lookup name.name with
  | none => exact reportsOnly_fail trivial
  | some i => exact h i

theorem reportsOnly_resolve : ∀ (steps : ℕ) (chain : List NamedTypeId) (i : NamedTypeId),
    ReportsOnly Fault.OfTypeName (resolve steps chain i)
  | 0, _, _ => .throw
  | steps + 1, chain, i => by
    refine .bind (.of_tame tame_namedType) fun t => ?_
    split
    · exact .pure _
    · exact .pure _
    · split
      · exact reportsOnly_meetAgain
      · refine (reportsOnly_complete fun m => reportsOnly_findWith (reportsOnly_resolve steps _)).bind
          fun ty => ?_
        exact .bind (.of_tame (tame_settle ty)) fun _ => .pure _

theorem reportsOnly_typeAt (i : NamedTypeId) : ReportsOnly Fault.OfTypeName (typeAt i) :=
  .get fun _ => reportsOnly_resolve _ _ _

/-- **At an occurrence of a type name only faults of type names are reported.** -/
theorem reportsOnly_typeOf (name : Ident) : ReportsOnly Fault.OfTypeName (typeOf name) :=
  reportsOnly_findWith reportsOnly_typeAt

/-! ## Runs of declarations -/

theorem reportsOnly_declareParams {frame : FrameId} : ∀ ps : List TypedName,
    ReportsOnly Fault.OfTypeName (declareParams frame ps)
  | [] => .pure _
  | p :: ps => (reportsOnly_typeOf p.typeName).bind fun _ => .bind (.of_tame tame_alloc) fun _ =>
      (reportsOnly_declareParams ps).bind fun _ => .pure _

theorem reportsOnly_declaredResult (result : Option Ident) :
    ReportsOnly Fault.OfTypeName (declaredResult result) := by
  cases result with
  | none => exact .pure _
  | some result => exact reportsOnly_typeOf result

theorem reportsOnly_declareFunction {ctx : Context} {head : FunctionHead} :
    ReportsOnly Fault.OfTypeName (declareFunction ctx head) := by
  unfold declareFunction
  refine .ite ?_ .throw
  refine .bind (.of_tame tame_newFrame) fun frame => .bind (.of_tame tame_alloc) fun staticLink => ?_
  refine (reportsOnly_declareParams head.params).bind fun r => ?_
  refine (reportsOnly_declaredResult head.result).bind fun result => ?_
  exact .bind (.of_tame tame_addFunction) fun id => .bind (.of_tame tame_log) fun _ => .pure _

theorem reportsOnly_bindHeaders {ctx : Context} : ∀ (ds : List Dec) (seen : List String),
    ReportsOnly Fault.OfName (bindHeaders ctx seen ds)
  | [], _ => .pure _
  | d :: ds, seen => by
    rw [bindHeaders]
    refine .ite ?_ ?_
    · refine .bind (.of_passive (passive_report trivial : Passive _ True _ _)) fun _ => ?_
      exact (reportsOnly_bindHeaders ds _).bind fun _ => .pure _
    · have hrest (plan : Plan) : ReportsOnly Fault.OfName
          (do return plan :: (← bindHeaders ctx (d.name.name :: seen) ds)) :=
        (reportsOnly_bindHeaders ds _).bind fun _ => .pure _
      cases d with
      | type dec => exact .bind (.map (.of_tame tame_declareType)) hrest
      | function head body loc id => exact .bind (.map (reportsOnly_declareFunction.mono fun _ h => h.ofName)) hrest
      | var name typeName init loc slot => exact .bind (.pure _) hrest

/-- **Where a run is opened only faults of names are reported.** -/
theorem reportsOnly_openRun {ctx : Context} (run : List Dec) : ReportsOnly Fault.OfName (openRun ctx run) := by
  cases run with
  | nil => exact .pure _
  | cons d ds =>
    rw [openRun_cons]
    exact .bind (.of_tame tame_log) fun _ => .ite (.get fun _ => .pure _) (reportsOnly_bindHeaders _ _)

/-- In a run of types only faults of names are reported. -/
theorem reportsOnly_typeRun {ctx : Context} (ts : List TypeDec) :
    ReportsOnly Fault.OfName (checkRun ctx (ts.map .type)) := by
  have hplanned (ts : List TypeDec) : ∀ plans, ReportsOnly Fault.OfName
      (checkPlanned ctx plans (ts.map .type)) := by
    induction ts with
    | nil => intro plans; cases plans <;> exact .pure _
    | cons t ts ih =>
      intro plans
      cases plans with
      | nil => exact .pure _
      | cons plan plans =>
        rw [List.map_cons, checkPlanned]
        have hdec : ReportsOnly Fault.OfName (checkDec ctx plan (.type t)) := by
          cases plan with
          | typeBody id =>
            rw [checkDec]
            exact ((reportsOnly_typeAt id).mono fun _ h => h.ofName).bind fun _ => .pure _
          | dropped => exact .pure _
          | functionBody => exact .pure _
          | «variable» => exact .pure _
        exact hdec.bind fun _ => (ih plans).bind fun _ => .pure _
  exact (reportsOnly_openRun _).bind fun _ => hplanned ts _

end Check

end TigerCheck
