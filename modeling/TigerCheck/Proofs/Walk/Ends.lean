import TigerCheck.Proofs.Tree.Uses
import TigerCheck.Proofs.Walk.Rule
import TigerCheck.Proofs.Walk.Sound

/-!
# How the check of a part ends

What is shown of every part of a program at once: its check ends, unless functions are nested too
deeply; it leaves behind a walked state and types of the arena; and every variable that it bound is
reached from where it is used, in every later table of frames.

* `FrameTable.Reaches`: the way from a use to its variable.
* `Ends`, `Ends.seq`, `Ends.answer`: the end of a part, of two parts, and of a rule after them.
* `ExpWalks`, `VarWalks`: the statement for one expression and for one variable.
* **`yieldsOr_checkEach`**, **`yieldsOr_checkInits`**: lists of expressions.
-/

namespace TigerCheck

open Check

/-- From the code that uses a variable, as many links are followed as there are levels in between; they
lead to the frame of the variable, where the variable stands at its offset. -/
def FrameTable.Reaches (t : FrameTable) (u : Use) : Prop :=
  ∃ s a fr, t.var u.slot = .ok s ∧ s.level ≤ u.level ∧ t.access u.slot u.level = .ok a ∧
    t.climb a.hops u.frame = some s.frame ∧ t.frame s.frame = .ok fr ∧
    fr.slots[a.offset]? = some u.slot

/-- A variable in scope is reached from the place. -/
theorem Context.Sits.reaches {ctx : Context} {c : Checker} {t : FrameTable} {name : String}
    {v : VarId} (hs : ctx.Sits c) (hv : c.values.lookup name = some v) (ht : t.Linked)
    (hg : c.frames.Grows t) : t.Reaches ⟨v, ctx.frame, ctx.level⟩ := by
  obtain ⟨s, hvar, henc⟩ := hs.values name v hv
  obtain ⟨gr, hgr, hlevel⟩ := hs.frame
  obtain ⟨gr', hgr', hl, -⟩ := hg.frame _ _ hgr
  obtain ⟨a, fr, hacc, hle, hclimb, hfr, hoff⟩ :=
    ht.access (hg.slot v s hvar) (henc.grows hg) hgr'
  rw [hl, hlevel] at hacc hle
  exact ⟨s, a, fr, entry_eq_ok_iff.mpr (hg.slot v s hvar), hle, hacc, hclimb,
    entry_eq_ok_iff.mpr hfr, hoff⟩

/-! ## Parts -/

/-- Functions are nested too deeply below a place. -/
def Context.Deep (ctx : Context) (nesting : Nat) : Prop := maxLevel < ctx.level + nesting

theorem Context.Deep.mono {ctx : Context} {m n : Nat} (h : m ≤ n) (hd : ctx.Deep m) : ctx.Deep n :=
  Nat.lt_of_lt_of_le hd (Nat.add_le_add_left h _)

theorem Check.YieldsOr.deeper {α : Type} {ctx : Context} {m n : Nat} {a : Check α} {c : Checker}
    {Q : α → Checker → Prop} (h : YieldsOr (ctx.Deep m) a c Q) (hmn : m ≤ n) :
    YieldsOr (ctx.Deep n) a c Q := h.mono (.mono hmn) fun _ _ hq => hq

/-- The check of a part ended: the types that it gives are types of the arena, and if no variable of the
part was bound before, the uses in it reach their variables. -/
structure Ends (fresh : Prop) (gives : Ty → Prop) (uses : FrameTable → List Use) (c c' : Checker) :
    Prop where
  walked : c.Walked c'
  has : ∀ t, gives t → c'.types.Has t
  reaches : fresh → ∀ t, t.Linked → c'.frames.Grows t → ∀ u ∈ uses t, t.Reaches u

section

variable {c c₁ c' : Checker} {fresh fresh' : Prop} {gives gives' : Ty → Prop}
  {uses uses' : FrameTable → List Use}

/-- Two parts one after the other. -/
theorem Ends.seq (h : Ends fresh gives uses c c₁) (h' : Ends fresh' gives' uses' c₁ c') :
    Ends (fresh ∧ fresh') gives' (fun t => uses t ++ uses' t) c c' where
  walked := h.walked.trans h'.walked
  has := h'.has
  reaches hf t ht hg := List.forall_mem_append.mpr
    ⟨h.reaches hf.1 t ht (h'.walked.grown.frames.trans hg), h'.reaches hf.2 t ht hg⟩

/-- After its parts a rule gives an answer. -/
theorem Ends.answer (h : Ends fresh gives uses c c₁) (hw : c₁.Walked c')
    (hg : ∀ t, gives' t → c'.types.Has t) : Ends fresh gives' uses c c' where
  walked := h.walked.trans hw
  has := hg
  reaches hf t ht hgrow := h.reaches hf t ht (hw.grown.frames.trans hgrow)

/-- A leaf without uses. -/
theorem Ends.leaf (hw : c.Walked c') (hg : ∀ t, gives t → c'.types.Has t) :
    Ends fresh gives (fun _ => []) c c' :=
  ⟨hw, hg, fun _ _ _ _ => List.forall_mem_nil _⟩

end

/-- **The check of an expression ends as it should**, wherever the expression stands. -/
def ExpWalks (e : Exp) : Prop :=
  ∀ (ctx : Context) (c : Checker), c.Sound → ctx.Sits c →
    YieldsOr (ctx.Deep e.nesting) (checkExp ctx e) c fun e' =>
      Ends e.Unbound (fun t => e'.ty = some t) (fun t => e'.uses t ctx.frame ctx.level) c

/-- The check of a variable ends as it should. -/
def VarWalks (v : Var) : Prop :=
  ∀ (ctx : Context) (c : Checker), c.Sound → ctx.Sits c →
    YieldsOr (ctx.Deep v.nesting) (checkVar ctx v) c fun v' =>
      Ends v.Unbound (fun t => v'.ty = some t) (fun t => v'.uses t ctx.frame ctx.level) c

/-! ## Lists -/

/-- **The expressions of a list are checked one after another.** -/
theorem yieldsOr_checkEach {ctx : Context} {es : List Exp} (h : ∀ e ∈ es, ExpWalks e) :
    ∀ (params : List Ty) (c : Checker), c.Sound → ctx.Sits c → (∀ p ∈ params, c.types.Has p) →
      YieldsOr (ctx.Deep (nestings es)) (checkEach ctx params es) c fun r =>
        Ends (UnboundAll es) (fun t => ∃ e ∈ r.1, e.ty = some t)
          (fun t => usesOfAll t ctx.frame ctx.level r.1) c := by
  induction es with
  | nil =>
    intro params c hc _ _
    rw [checkEach]
    exact yieldsOr_pure (.leaf (.refl hc) (by simp))
  | cons e es ih =>
    intro params c hc hs hp
    obtain ⟨he, hes⟩ := List.forall_mem_cons.mp h
    rw [checkEach]
    refine ((he ctx c hc hs).deeper (Nat.le_max_left _ _)).bind fun e' c₁ h₁ => ?_
    have hp₁ : ∀ t, params.head? = some t → c₁.types.Has t := fun t ht =>
      h₁.walked.has (hp t (List.mem_of_mem_head? ht))
    refine Yields.bindOr ((Rule.yields_arg h₁.walked.sound.rest.closed hp₁ h₁.has).mono
      fun ok c₂ h₂ => ?_)
    have hw₂ := h₂.toSays.walked h₁.walked.sound
    have hw := h₁.walked.trans hw₂
    refine ((ih hes params.tail c₂ hw.sound (hs.walked hw) fun p hmem =>
      hw.has (hp p (List.mem_of_mem_tail hmem))).deeper (Nat.le_max_right _ _)).bind
      fun r c₃ h₃ => yieldsOr_pure ?_
    have hseq := (h₁.answer hw₂ fun t ht => hw₂.has (h₁.has t ht)).seq h₃
    exact ⟨hseq.walked, by
      rintro t ⟨x, hx, ht⟩
      rcases List.mem_cons.mp hx with rfl | hx
      · exact h₃.walked.has (hw₂.has (h₁.has t ht))
      · exact h₃.has t ⟨x, hx, ht⟩, hseq.reaches⟩

/-- **The initializers of a record literal are checked one after another.** -/
theorem yieldsOr_checkInits {ctx : Context} (loc : Location) (typeName : String)
    {inits : List (Ident × Exp)} (h : ∀ i ∈ inits, ExpWalks i.2) :
    ∀ (fields : Option (List Field)) (c : Checker), c.Sound → ctx.Sits c →
      (∀ fs, fields = some fs → ∀ f ∈ fs, c.types.Has f.ty) →
      YieldsOr (ctx.Deep (initNestings inits)) (checkInits ctx loc typeName fields inits) c fun r =>
        Ends (UnboundInits inits) (fun _ => False)
          (fun t => usesOfInits t ctx.frame ctx.level r.1) c := by
  induction inits with
  | nil =>
    intro fields c hc _ _
    rw [checkInits]
    exact yieldsOr_pure (.leaf (.refl hc) (fun _ h => h.elim))
  | cons i inits ih =>
    intro fields c hc hs hf
    obtain ⟨name, e⟩ := i
    obtain ⟨he, hes⟩ := List.forall_mem_cons.mp h
    rw [checkInits]
    refine Yields.bindOr ((Rule.yields_place typeName name fields).mono fun left c₁ h₁ => ?_)
    have hw₁ := h₁.toSays.walked hc
    have hleft : ∀ fs, left = some fs → ∀ f ∈ fs, c.types.Has f.ty := fun fs hfs f hmem =>
      hf fs (h₁.some_iff.mp hfs).1 f hmem
    refine ((he ctx c₁ hw₁.sound (hs.walked hw₁)).deeper (Nat.le_max_left _ _)).bind
      fun e' c₂ h₂ => ?_
    have hw₂ := hw₁.trans h₂.walked
    have hfield : ∀ f, left.bind (·.head?) = some f → c₂.types.Has f.ty := fun f hmem => by
      obtain ⟨fs, hfs, hhead⟩ := Option.bind_eq_some_iff.mp hmem
      exact hw₂.has (hleft fs hfs f (List.mem_of_mem_head? hhead))
    refine Yields.bindOr ((Rule.yields_init hw₂.sound.rest.closed hfield h₂.has).mono
      fun ok c₃ h₃ => ?_)
    have hw₃ := h₃.toSays.walked hw₂.sound
    have hw := hw₂.trans hw₃
    refine ((ih hes (left.map (·.tail)) c₃ hw.sound (hs.walked hw) fun fs hfs f hmem => ?_).deeper
      (Nat.le_max_right _ _)).bind fun r c₄ h₄ => yieldsOr_pure ?_
    · obtain ⟨fs', hfs', rfl⟩ := Option.map_eq_some_iff.mp hfs
      exact hw.has (hleft fs' hfs' f (List.mem_of_mem_tail hmem))
    · have hseq := (h₂.answer hw₃ fun t ht => hw₃.has (h₂.has t ht)).seq h₄
      exact ⟨hw₁.trans hseq.walked, fun _ h => h.elim, hseq.reaches⟩

end TigerCheck
