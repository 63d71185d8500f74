import TigerCheck.Proofs.Scope.Sites
import TigerCheck.Proofs.Scope.Table
import TigerCheck.Proofs.Tame.Rule
import TigerCheck.Proofs.Walk.Sound

/-!
# What a part of the walk adds

The slots, functions and frames that a part of a walk adds are those of the sites in the part, in the same
order, and the names that it reports as undefined are those of the sites whose names are not bound.

* `Diagnostics.undefined`: the reports of names that are not defined.
* `Tallies`: what a part of the walk adds agrees with its sites. **`Tallies.seq`**: one part after another.
* `Check.tallies_typeOf`, `Check.Passive.tallies`: type names, and the typing rules.
-/

namespace TigerCheck

open Check

/-! ## Reports of names -/

/-- The reports of names that are not defined. -/
def Diagnostics.undefined (ds : Diagnostics) : List Diagnostic :=
  ds.entries.toList.filter fun d => d.fault.kind = .undefinedReference

theorem Diagnostics.undefined_report (ds : Diagnostics) (fault : Fault) (loc : Location) :
    (ds.report fault loc).undefined =
      ds.undefined ++ if fault.kind = .undefinedReference then [⟨loc, fault⟩] else [] := by
  simp only [undefined, report, Array.toList_push, List.filter_append, List.filter_cons,
    decide_eq_true_eq, List.filter_nil]

theorem Fault.IsPlain.kind_ne {f : Fault} (h : f.IsPlain) : f.kind ≠ .undefinedReference := by
  cases f <;> first | exact h.elim | exact nofun

theorem Checker.Reports.undefined_eq {c c' : Checker} (h : c.Reports Fault.IsPlain c') :
    c'.diagnostics.undefined = c.diagnostics.undefined := by
  induction h with
  | refl => rfl
  | report loc _ hf ih =>
    rw [← ih]
    exact (Diagnostics.undefined_report ..).trans (by rw [if_neg hf.kind_ne, List.append_nil])

theorem Checker.Says.eq_frames {c c' : Checker} (h : c.Says c') :
    c'.frames = c.frames ∧ c'.namedTypes = c.namedTypes := by
  induction h with
  | quiet => exact ⟨rfl, rfl⟩
  | report _ _ _ ih => exact ih

/-! ## Tallies -/

/-- A site where nothing is declared. -/
structure Site.Bare (s : Site) : Prop where
  slots : ∀ t, s.slots t = []
  functions : s.functions = []
  frames : ∀ t, s.frames t = []

theorem Site.Bare.use (pl : Place) (name : Ident) (binding : Option VarId) :
    Site.Bare (.use pl name binding) := ⟨fun _ => rfl, rfl, fun _ => rfl⟩

theorem Site.Bare.call (pl : Place) (callee : Ident) (target : Option FunctionId) :
    Site.Bare (.call pl callee target) := ⟨fun _ => rfl, rfl, fun _ => rfl⟩

theorem Site.Bare.typeName (pl : Place) (name : Ident) : Site.Bare (.typeName pl name) :=
  ⟨fun _ => rfl, rfl, fun _ => rfl⟩

section

variable {S : List Site}

theorem slots_of_bare (h : ∀ s ∈ S, s.Bare) (t : FrameTable) : S.flatMap (Site.slots t) = [] :=
  List.flatMap_eq_nil_iff.mpr fun s hs => (h s hs).slots t

theorem functions_of_bare (h : ∀ s ∈ S, s.Bare) : S.flatMap Site.functions = [] :=
  List.flatMap_eq_nil_iff.mpr fun s hs => (h s hs).functions

theorem frames_of_bare (h : ∀ s ∈ S, s.Bare) (t : FrameTable) : S.flatMap (Site.frames t) = [] :=
  List.flatMap_eq_nil_iff.mpr fun s hs => (h s hs).frames t

theorem bare_typeNames (pl : Place) (ms : List Ident) : ∀ s ∈ ms.map (Site.typeName pl), s.Bare := by
  intro s hs
  obtain ⟨m, -, rfl⟩ := List.mem_map.mp hs
  exact .typeName pl m

end

/-- What a part of the walk adds to the tables and to the diagnostics agrees with the sites of the part, in
every later table of frames, and with the number of its type declarations. -/
structure Tallies (c : Checker) (sites : FrameTable → List Site) (typeDecs : ℕ) (c' : Checker) :
    Prop where
  grown : c.Extends c'
  slots : ∀ t, c'.frames.Grows t → (sites t).flatMap (Site.slots t) =
    handles (fun i => some (VarId.mk i)) c.frames.vars.size c'.frames.vars.size
  functions : ∀ t, c'.frames.Grows t → (sites t).flatMap Site.functions =
    handles (fun i => some (FunctionId.mk i)) c.frames.functions.size c'.frames.functions.size
  frames : ∀ t, c'.frames.Grows t → (sites t).flatMap (Site.frames t) =
    handles FrameId.mk c.frames.frames.size c'.frames.frames.size
  types : c'.namedTypes.size = c.namedTypes.size + typeDecs
  unbound : ∀ t, c'.frames.Grows t → c'.diagnostics.undefined.Perm
    (c.diagnostics.undefined ++ (sites t).filterMap Site.unbound)

namespace Tallies

variable {c c₁ c' : Checker} {S S' : FrameTable → List Site} {m n : ℕ}

/-- **One part after another.** -/
theorem seq (h : Tallies c S m c₁) (h' : Tallies c₁ S' n c') :
    Tallies c (fun t => S t ++ S' t) (m + n) c' where
  grown := h.grown.trans h'.grown
  slots t ht := by
    rw [List.flatMap_append, h.slots t (h'.grown.frames.trans ht), h'.slots t ht,
      handles_append h.grown.frames.vars_le h'.grown.frames.vars_le]
  functions t ht := by
    rw [List.flatMap_append, h.functions t (h'.grown.frames.trans ht), h'.functions t ht,
      handles_append h.grown.frames.functions_le h'.grown.frames.functions_le]
  frames t ht := by
    rw [List.flatMap_append, h.frames t (h'.grown.frames.trans ht), h'.frames t ht,
      handles_append h.grown.frames.frames_le h'.grown.frames.frames_le]
  types := by rw [h'.types, h.types, Nat.add_assoc]
  unbound t ht := by
    rw [List.filterMap_append, ← List.append_assoc]
    exact (h'.unbound t ht).trans ((h.unbound t (h'.grown.frames.trans ht)).append_right _)

/-- A part that adds nothing to the tables and reports no name. -/
theorem none (hg : c.Extends c') (hv : c'.frames.vars.size = c.frames.vars.size)
    (hf : c'.frames.functions.size = c.frames.functions.size)
    (hfr : c'.frames.frames.size = c.frames.frames.size)
    (ht : c'.namedTypes.size = c.namedTypes.size)
    (hd : c'.diagnostics.undefined = c.diagnostics.undefined) : Tallies c (fun _ => []) 0 c' where
  grown := hg
  slots _ _ := by rw [hv, handles_self, List.flatMap_nil]
  functions _ _ := by rw [hf, handles_self, List.flatMap_nil]
  frames _ _ := by rw [hfr, handles_self, List.flatMap_nil]
  types := ht
  unbound _ _ := by rw [hd, List.filterMap_nil, List.append_nil]

theorem refl (c : Checker) : Tallies c (fun _ => []) 0 c := .none (.refl c) rfl rfl rfl rfl rfl

/-- A part with the same sites, written differently. -/
theorem congr (h : Tallies c S m c') (hS : ∀ t, S' t = S t) (hn : n = m) : Tallies c S' n c' := by
  obtain rfl : S' = S := funext hS
  exact hn ▸ h

/-- A part with the same sites in later tables, written differently. -/
theorem congr_grows (h : Tallies c S m c') (hS : ∀ t, c'.frames.Grows t → S' t = S t) (hn : n = m) :
    Tallies c S' n c' where
  grown := h.grown
  slots t ht := by rw [hS t ht, h.slots t ht]
  functions t ht := by rw [hS t ht, h.functions t ht]
  frames t ht := by rw [hS t ht, h.frames t ht]
  types := by rw [hn, h.types]
  unbound t ht := by
    rw [hS t ht]
    exact h.unbound t ht

/-- A site where nothing is declared may stand before or behind the others. -/
theorem toFront {s : Site} (h : Tallies c (fun t => S t ++ [s]) n c') (hs : s.Bare) :
    Tallies c (fun t => s :: S t) n c' where
  grown := h.grown
  slots t ht := by
    rw [List.flatMap_cons, hs.slots, List.nil_append, ← h.slots t ht, List.flatMap_append,
      List.flatMap_singleton, hs.slots, List.append_nil]
  functions t ht := by
    rw [List.flatMap_cons, hs.functions, List.nil_append, ← h.functions t ht, List.flatMap_append,
      List.flatMap_singleton, hs.functions, List.append_nil]
  frames t ht := by
    rw [List.flatMap_cons, hs.frames, List.nil_append, ← h.frames t ht, List.flatMap_append,
      List.flatMap_singleton, hs.frames, List.append_nil]
  types := h.types
  unbound t ht := by
    refine (h.unbound t ht).trans (.append_left _ ?_)
    exact (List.perm_append_singleton s (S t)).filterMap _

/-- Sites where nothing is declared, in a part that leaves the frames alone. -/
theorem bare {sites : List Site} (h : ∀ s ∈ sites, s.Bare) (hg : c.Extends c')
    (hf : c'.frames = c.frames) (ht : c'.namedTypes.size = c.namedTypes.size + n)
    (hu : c'.diagnostics.undefined.Perm (c.diagnostics.undefined ++ sites.filterMap Site.unbound)) :
    Tallies c (fun _ => sites) n c' where
  grown := hg
  slots t _ := by rw [hf, handles_self, slots_of_bare h]
  functions _ _ := by rw [hf, handles_self, functions_of_bare h]
  frames t _ := by rw [hf, handles_self, frames_of_bare h]
  types := ht
  unbound _ _ := hu

theorem andThen (h : Tallies c S n c₁) (h' : Tallies c₁ (fun _ => []) 0 c') : Tallies c S n c' :=
  (h.seq h').congr (fun _ => (List.append_nil _).symm) rfl

theorem after (h' : Tallies c₁ S n c') (h : Tallies c (fun _ => []) 0 c₁) : Tallies c S n c' :=
  (h.seq h').congr (fun _ => rfl) (Nat.zero_add n).symm

end Tallies

/-! ## Names and rules -/

section

variable {c c' : Checker} {α : Type} {m : Check α} {ok : Prop} {good : α → Prop} {a : α}

/-- A rule that reports plain faults only adds nothing. -/
theorem Check.Passive.tallies (h : Passive Fault.IsPlain ok m good) (hm : m.run c = .ok (a, c')) :
    Tallies c (fun _ => []) 0 c' := by
  have hr := h.changes c a c' hm
  obtain ⟨hframes, hnamed⟩ := hr.toSays.eq_frames
  exact .none hr.toSays.extends (by rw [hframes]) (by rw [hframes]) (by rw [hframes]) (by rw [hnamed])
    hr.undefined_eq

/-- A report of a name that is not defined. -/
theorem Checker.tallies_undefined (c : Checker) {fault : Fault} {loc : Location} {site : Site}
    (hk : fault.kind = .undefinedReference) (hu : site.unbound = some ⟨loc, fault⟩) (hs : site.Bare) :
    Tallies c (fun _ => [site]) 0 (c.reported fault loc) where
  grown := (Checker.Says.report fault loc .quiet).extends
  slots t _ := by
    rw [List.flatMap_singleton, hs.slots]
    exact handles_self.symm
  functions _ _ := by
    rw [List.flatMap_singleton, hs.functions]
    exact handles_self.symm
  frames t _ := by
    rw [List.flatMap_singleton, hs.frames]
    exact handles_self.symm
  types := rfl
  unbound t _ := by
    refine .of_eq ((Diagnostics.undefined_report ..).trans ?_)
    rw [if_pos hk, List.filterMap_cons, hu]
    rfl

/-- A name that is bound. -/
theorem Checker.tallies_bound (c : Checker) {site : Site} (hu : site.unbound = Option.none)
    (hs : site.Bare) : Tallies c (fun _ => [site]) 0 c where
  grown := .refl c
  slots t _ := by rw [List.flatMap_singleton, hs.slots, handles_self]
  functions _ _ := by rw [List.flatMap_singleton, hs.functions, handles_self]
  frames t _ := by rw [List.flatMap_singleton, hs.frames, handles_self]
  types := rfl
  unbound t _ := by
    rw [List.filterMap_cons, hu]
    exact .of_eq (by simp)

/-- **Between runs a type name is reported exactly if it is not bound.** -/
theorem Check.tallies_typeOf {name : Ident} {ty : Option Ty} (hc : c.AtRest) (pl : Place)
    (hpl : pl.types name.name = c.typeNames.lookup name.name)
    (h : (typeOf name).run c = .ok (ty, c')) :
    Tallies c (fun _ => [.typeName pl name]) 0 c' := by
  rcases ((yields_typeOf_lookup hc name).of_run h).2 with ⟨hl, rfl⟩ | ⟨hl, rfl⟩
  · exact c.tallies_undefined rfl (by simp [Site.unbound, hpl, hl]) (.typeName pl name)
  · exact c'.tallies_bound (by simp [Site.unbound, hpl, hl]) (.typeName pl name)

end

end TigerCheck
