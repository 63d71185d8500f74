import TigerCheck.Proofs.Failure
import TigerCheck.Proofs.Flow.Entered
import TigerCheck.Proofs.Walk.Program
import TigerCheck.Tree.Build

/-!
# Which types can flow where

Types reach slots from initializers, from annotations and from parameters, and they reach fields and elements
when a declaration is completed. None of these flows lets `nil` or a pointer to a frame into a table, and none
lets something that cannot be stored into a field, an element or a parameter.

* `TypesPlaced`: where types are in the tables. `CellsPlaced`: where they are in a checked tree.
* **`types_placed`**: in every state that a checker can be brought to, within a walk and at the end of an
  analysis, types are where they may be.
-/

namespace TigerCheck

open Check

/-! ## The statement -/

/-- Where types are in the tables of an analysis. Only static links point to frames, each to the frame around its
own; `nil` is nowhere; fields, elements, parameters and what a function takes from its callers can be stored. -/
structure TypesPlaced (a : Arena) (t : FrameTable) : Prop where
  frames : ∀ (v : VarId) s f, t.vars[v.index]? = some s → s.ty = some (.frame f) → s.kind = .staticLink
  links : ∀ (v : VarId) s, t.vars[v.index]? = some s → s.kind = .staticLink →
    ∃ fr p, t.frames[s.frame.index]? = some fr ∧ fr.parent = some p ∧ s.ty = some (.frame p)
  slots : ∀ (v : VarId) s, t.vars[v.index]? = some s → s.ty ≠ some .nil
  fields : ∀ (r : RecordId) e, a.records[r.index]? = some e → ∀ f ∈ e.fields, a.Stores f.ty
  elements : ∀ (r : ArrayId) e, a.arrays[r.index]? = some e → ∀ u, e.element = some u → a.Stores u
  params : ∀ (v : VarId) s u, t.vars[v.index]? = some s → s.kind = .param → s.ty = some u → a.Stores u
  signatures : ∀ (f : FunctionId) p s, t.functions[f.index]? = some p → p.signature = some s →
    s.result ≠ .nil ∧ .nil ∉ s.params ∧ ∀ u ∈ s.params.drop p.hiddenParams, a.Stores u

/-- Where types are in the tree `e'` that a check makes of `e`: no cell is given a pointer to a frame, and no name
is bound to a static link. -/
structure CellsPlaced (t : FrameTable) (e e' : Exp) : Prop where
  types : ∀ f, some (.frame f) ∈ e'.tys → some (.frame f) ∈ e.tys
  bindings : ∀ ty v, Note.simple ty (some v) ∈ e'.notes →
    (∃ s, t.vars[v.index]? = some s ∧ s.kind ≠ .staticLink) ∨ ∃ ty₀, Note.simple ty₀ (some v) ∈ e.notes

/-! ## Proper states -/

theorem SlotKind.Admits.kind_eq {a : Arena} {t : FrameTable} {frame f : FrameId} {kind : SlotKind}
    (h : kind.Admits a t frame (some (.frame f))) : kind = .staticLink := by
  cases kind with
  | staticLink => rfl
  | param => exact absurd (h _ rfl).types (Arena.not_types_frame f)
  | letBound => exact absurd (h _ rfl).types (Arena.not_types_frame f)
  | loopCounter => cases h

theorem SlotKind.Admits.ne_nil {a : Arena} {t : FrameTable} {frame : FrameId} {ty : Option Ty} {kind : SlotKind}
    (h : kind.Admits a t frame ty) : ty ≠ some .nil := by
  rintro rfl
  cases kind with
  | staticLink =>
    obtain ⟨p, -, hp⟩ := h
    cases hp
  | param => exact Arena.not_gives_nil (h _ rfl).gives
  | letBound => exact Arena.not_gives_nil (h _ rfl)
  | loopCounter => cases h

/-- What a function takes from its callers can be stored, and it neither takes nor gives `nil`. -/
theorem Prototype.Proper.signature {a : Arena} {t : FrameTable} {p : Prototype} {s : Signature}
    (h : p.Proper a t) (hs : p.signature = some s) :
    s.result ≠ .nil ∧ .nil ∉ s.params ∧ ∀ u ∈ s.params.drop p.hiddenParams, a.Stores u := by
  obtain ⟨hresult, hparams⟩ := h s hs
  obtain ⟨name, signature, origin⟩ := p
  refine ⟨fun hnil => Arena.not_gives_nil (hnil ▸ hresult), ?_⟩
  cases origin with
  | intrinsic symbol => exact ⟨fun hnil => Arena.not_gives_nil (hparams _ hnil).gives, hparams⟩
  | declared level frame link params =>
    obtain ⟨f, us, -, heq, hus⟩ := hparams
    rw [heq]
    refine ⟨fun hnil => ?_, hus⟩
    rcases List.mem_cons.mp hnil with hnil | hnil
    · cases hnil
    · exact Arena.not_gives_nil (hus _ hnil).gives

/-- **In a proper state types are where they may be.** -/
theorem Checker.Proper.placed {c : Checker} (hc : c.Proper) : TypesPlaced c.types c.frames where
  frames v s f hs hty := by
    have hslot := hc.slots v s hs
    rw [Slot.Proper, hty] at hslot
    exact hslot.kind_eq
  links v s hs hk := by
    have hslot := hc.slots v s hs
    rw [Slot.Proper, hk] at hslot
    obtain ⟨p, ⟨fr, hfr, hp⟩, hty⟩ := hslot
    exact ⟨fr, p, hfr, hp, hty⟩
  slots v s hs := (hc.slots v s hs).ne_nil
  fields r e he f hf := hc.entries (.record r) (.record e) (by simp [he]) f.ty (List.mem_map_of_mem hf)
  elements r e he u hu := hc.entries (.array r) (.array e) (by simp [he]) u (by simp [Shape.types, hu])
  params v s u hs hk hty := by
    have hslot := hc.slots v s hs
    rw [Slot.Proper, hk] at hslot
    exact hslot u hty
  signatures f p s hf hs := (hc.functions f p hf).signature hs

/-- What the cells of an expression hold. -/
def Exp.given (e : Exp) : Given where
  tys u := some u ∈ e.tys
  bindings v := ∃ ty, Note.simple ty (some v) ∈ e.notes

theorem Exp.proper_given (e : Exp) (c : Checker) : e.Proper e.given c where
  tys ty hty u hu := Or.inl (show some u ∈ e.tys from Option.mem_def.mp hu ▸ hty)
  notes n hn := by
    cases n with
    | simple ty binding =>
      rintro v rfl
      exact Or.inl ⟨ty, hn⟩
    | field | element | call => trivial

theorem CellsProper.placed {c : Checker} {e e' : Exp} (h : e'.Proper e.given c) :
    CellsPlaced c.frames e e' where
  types f hf := (h.tys _ hf _ rfl).resolve_right (Arena.not_types_frame f)
  bindings _ v hv := (h.notes _ hv v rfl).symm

/-- Before anything is checked types are where they may be. -/
theorem Checker.initial_proper : Checker.initial.Proper := by
  obtain ⟨-, hvars, hfunctions, -⟩ := initial_tables
  refine ⟨fun id s hs u hu => ?_, fun t s hs => ?_, fun v s hs => ?_, fun f p hp => ?_, Scopes.all_empty⟩
  · rw [initial_status] at hs
    split at hs
    · cases hs
      cases hu
      exact ⟨trivial, trivial⟩
    · split at hs
      · cases hs
        cases hu
        exact ⟨trivial, trivial⟩
      · cases hs
  · cases t <;> simp [show initial.types = {} from rfl, Arena.shape] at hs
  · rw [hvars] at hs
    cases hs
  · rw [hfunctions] at hp
    have hmem := Array.mem_of_getElem? hp
    rw [List.mem_toArray, List.mem_map] at hmem
    obtain ⟨i, hi, rfl⟩ := hmem
    rintro s ⟨⟩
    have hplain : ∀ j ∈ Intrinsic.all, initial.types.Gives j.result ∧ ∀ u ∈ j.params, initial.types.Stores u := by
      simp [Intrinsic.all, Arena.Gives, Arena.Stores, Ty.IsStored, Arena.Has]
    exact hplain i hi

theorem upholds_checkProgram {c : Checker} (hc : c.Proper) (p : Program) :
    Upholds (checkProgram p) c fun p' c' => ∀ g, p.body.Proper g c → p'.body.Proper g c' := by
  refine .get ((upholds_exp p.body _ hc).bind fun body c₁ hc₁ _ hbody => ?_)
  exact (upholds_finalize hc₁ _).bind fun _ c₂ hc₂ hw₂ _ =>
    .pure hc₂ fun g hcells => (hbody.2 g hcells).widen hw₂

/-- **Every state that a checker can be brought to is proper.** -/
theorem Checker.Reachable.proper {c : Checker} (h : c.Reachable) : c.Proper := by
  induction h with
  | initial => exact initial_proper
  | exp _ _ hrun ih => exact (upholds_exp _ _ ih _ _ hrun).1
  | program _ hrun ih => exact (upholds_checkProgram ih _ _ _ hrun).1

/-- **Which types can flow where.** In every state that a checker can be brought to, and in every state in which
the check of an expression or of a part of it begins or ends, types are where they may be; and so they are at the
end of an analysis. The cells of a checked tree hold no pointers to frames and its names are not bound to static
links, but for what the cells of the tree held before. -/
theorem types_placed :
    (∀ c : Checker, c.Reachable → TypesPlaced c.types c.frames ∧ ∀ (ctx : Context) (e : Exp),
      (∀ e' c', (checkExp ctx e).run c = .ok (e', c') →
        TypesPlaced c'.types c'.frames ∧ CellsPlaced c'.frames e e') ∧
      ∀ (h : ExpHole) x s c₀, e = h.plug x → (h.enter x ctx).run c = .ok (s, c₀) →
        TypesPlaced c₀.types c₀.frames ∧ ∀ y c₁, (checkExp s.ctx x).run c₀ = .ok (y, c₁) →
          TypesPlaced c₁.types c₁.frames ∧ CellsPlaced c₁.frames x y) ∧
    ∀ p p' a, analyze p = .ok (p', a) → TypesPlaced a.types a.frames ∧ CellsPlaced a.frames p.body p'.body := by
  refine ⟨fun c hreach => ⟨hreach.proper.placed, fun ctx e => ⟨fun e' c' hrun => ?_,
    fun h x s c₀ _ henter => ?_⟩⟩, fun p p' a ha => ?_⟩
  · obtain ⟨hc', -, -, hcells⟩ := upholds_exp e ctx hreach.proper e' c' hrun
    exact ⟨hc'.placed, (hcells _ (e.proper_given c)).placed⟩
  · have hc₀ := (h.upholds x ctx hreach.proper s c₀ henter).1
    refine ⟨hc₀.placed, fun y c₁ hy => ?_⟩
    obtain ⟨hc₁, -, -, hcells⟩ := upholds_exp x _ hc₀ y c₁ hy
    exact ⟨hc₁.placed, (hcells _ (x.proper_given c₀)).placed⟩
  · have hstart : Upholds (checkFromStart p) .initial fun p' c' =>
        ∀ g, p.body.Proper g .initial → p'.body.Proper g c' :=
      (upholds_log Checker.initial_proper _).bind fun _ c₁ hc₁ hw₁ _ =>
        (upholds_checkProgram hc₁ p).mono fun _ _ _ h g hcells => h g (hcells.widen hw₁)
    unfold analyze at ha
    cases hrun : (checkFromStart p).run .initial with
    | error e =>
      rw [hrun] at ha
      cases ha
    | ok r =>
      rw [hrun] at ha
      cases ha
      obtain ⟨hc', -, hcells⟩ := hstart _ _ hrun
      exact ⟨hc'.placed, (hcells _ (p.body.proper_given _)).placed⟩

/-- The second element of a list, found by a function within a function; a variable gets its type from a branch, and
the list ends in `nil`. -/
def secondOfList : Program where
  body := Build.letIn [Build.typeDec "list" (Build.recordOf [("head", "int"), ("tail", "list")]),
      Build.functionDec "second" [("l", "list")] (some "int")
        (Build.letIn [Build.functionDec "first" [("l", "list")] (some "int")
            (Build.var (Build.field (Build.simple "l") "head"))]
          (Build.call "first" [Build.var (Build.field (Build.simple "l") "tail")])),
      Build.varDec "one" none (Build.ifElse (Build.int 1)
        (Build.record "list" [("head", Build.int 7), ("tail", Build.nil)]) Build.nil)]
    (Build.call "second" [Build.named "one"])

/-- The types in the program are where they may be, and no cell of its checked tree holds a frame. -/
theorem types_placed_secondOfList :
    Checker.initial.Reachable ∧ TypesPlaced Checker.initial.types Checker.initial.frames ∧
      ∃ p' a, analyze secondOfList = .ok (p', a) ∧ a.diagnostics.isEmpty = true ∧
        TypesPlaced a.types a.frames ∧ ∀ f, some (.frame f) ∉ p'.body.tys := by
  refine ⟨.initial, (types_placed.1 _ .initial).1, ?_⟩
  have hquiet : (analyze secondOfList).toOption.any (·.2.diagnostics.isEmpty) := by decide +kernel
  cases hrun : analyze secondOfList with
  | error e =>
    rw [hrun] at hquiet
    cases hquiet
  | ok r =>
    rw [hrun] at hquiet
    obtain ⟨p', a⟩ := r
    obtain ⟨hplaced, hcells⟩ := types_placed.2 _ p' a hrun
    have hblank : ∀ ty ∈ secondOfList.body.tys, ty = none := by decide +kernel
    exact ⟨p', a, rfl, hquiet, hplaced, fun f hf => by cases hblank _ (hcells.types f hf)⟩

end TigerCheck
