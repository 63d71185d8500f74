import TigerCheck.Proofs.Scope.Exp

/-!
# The sites of type declarations

Each declaration of a run is settled once, and each name in its right-hand side is then looked up once. So
the names that are reported as undefined are those of the right-hand sides, though in the order in which
the declarations are settled.

* `mentionFaults`: the names in a right-hand side that are not bound, as reports.
* `Checker.owed`: the reports that the declarations which are not settled yet will give.
* **`Finds.perm_undefined`**: what is reported while names are found was owed before.
* **`surveys_typeRun`**: a run of types.
-/

namespace TigerCheck

open Check

/-- The names that are not bound, as reports. -/
def mentionFaults (known : String → Option NamedTypeId) (ms : List Ident) : List Diagnostic :=
  ms.filterMap fun m => if known m.name = none then some ⟨m.loc, .undefinedType m.name⟩ else none

theorem filterMap_unbound_typeName (pl : Place) (ms : List Ident) :
    (ms.map (Site.typeName pl)).filterMap Site.unbound = mentionFaults pl.types ms := by
  rw [List.filterMap_map]
  rfl

/-! ## What is owed -/

namespace Checker

variable {c c' : Checker} {known : String → Option NamedTypeId} {chain : List NamedTypeId}
  {id : NamedTypeId} {dec : TypeDec}

/-- The declaration of a type name that is not settled. -/
def pendingDec (c : Checker) (id : NamedTypeId) : Option TypeDec :=
  match c.status id with
  | some (.pending dec _) => some dec
  | _ => none

/-- The reports that a declaration outside a chain gives when it is settled. -/
def owedAt (c : Checker) (known : String → Option NamedTypeId) (chain : List NamedTypeId) (i : ℕ) :
    List Diagnostic :=
  if ⟨i⟩ ∈ chain then [] else
    match c.pendingDec ⟨i⟩ with
    | some dec => mentionFaults known dec.body.mentions
    | none => []

/-- The reports that the declarations outside a chain give when they are settled. -/
def owed (c : Checker) (known : String → Option NamedTypeId) (chain : List NamedTypeId) :
    List Diagnostic :=
  (List.range c.namedTypes.size).flatMap (c.owedAt known chain)

theorem owed_congr {chain' : List NamedTypeId} (hsize : c'.namedTypes.size = c.namedTypes.size)
    (h : ∀ i, c'.owedAt known chain' i = c.owedAt known chain i) :
    c'.owed known chain' = c.owed known chain := by
  rw [owed, owed, hsize]
  exact List.flatMap_congr fun i _ => h i

theorem owed_eq_of_pendingDec (hsize : c'.namedTypes.size = c.namedTypes.size)
    (h : ∀ id, c'.pendingDec id = c.pendingDec id) : c'.owed known chain = c.owed known chain :=
  owed_congr hsize fun i => by rw [owedAt, owedAt, h]

/-- Changing the entries of a list at one place. -/
theorem perm_flatMap_of_eq_off {α : Type} {f g : ℕ → List α} {l : List ℕ} {i : ℕ} (hl : l.Nodup)
    (hi : i ∈ l) (hg : g i = []) (h : ∀ j ∈ l, j ≠ i → g j = f j) :
    (l.flatMap f).Perm (f i ++ l.flatMap g) := by
  induction l with
  | nil => cases hi
  | cons j l ih =>
    rw [List.nodup_cons] at hl
    rw [List.flatMap_cons, List.flatMap_cons]
    by_cases hji : j = i
    · subst hji
      rw [hg, List.nil_append]
      refine .append_left _ (.of_eq (List.flatMap_congr fun k hk => ?_))
      exact (h k (List.mem_cons_of_mem _ hk) fun hkj => hl.1 (hkj ▸ hk)).symm
    · have hmem := List.mem_of_ne_of_mem (Ne.symm hji) hi
      rw [h j List.mem_cons_self hji, ← List.append_assoc]
      refine ((ih hl.2 hmem fun k hk => h k (List.mem_cons_of_mem _ hk)).append_left _).trans ?_
      rw [← List.append_assoc]
      exact List.perm_append_comm.append_right _

/-- A declaration that is entered into the chain no longer owes what it mentions. -/
theorem perm_owed_of_pending (known : String → Option NamedTypeId) {o : Option Ty}
    (hs : c.status id = some (.pending dec o)) (hid : id ∉ chain) : (c.owed known chain).Perm
      (mentionFaults known dec.body.mentions ++ c.owed known (chain ++ [id])) := by
  have hat : c.owedAt known chain id.index = mentionFaults known dec.body.mentions := by
    unfold owedAt
    rw [if_neg hid, pendingDec, hs]
  rw [← hat]
  refine perm_flatMap_of_eq_off (List.nodup_range) (List.mem_range.mpr (lt_of_status hs)) ?_ ?_
  · rw [owedAt, if_pos (by simp)]
  · intro j _ hj
    have hne : (⟨j⟩ : NamedTypeId) ≠ id := fun h => hj (by rw [← h])
    rw [owedAt, owedAt]
    simp [hne]

end Checker

section

variable {c c' : Checker} {known : String → Option NamedTypeId} {chain : List NamedTypeId}
  {id : NamedTypeId} {dec : TypeDec} {r : Option Ty} {rs : List (Option Ty)} {t : Ty}

theorem HandsOut.pendingDec_eq (h : HandsOut id c t c') (k : NamedTypeId) :
    c'.pendingDec k = c.pendingDec k := by
  cases h with
  | again => rfl
  | @new dec _ b hs =>
    by_cases hk : k = id
    · subst hk
      have hs' := Checker.status_mark_self (c := { c with types := b }) (s := .pending dec (some t)) hs
      rw [Checker.pendingDec, Checker.pendingDec, hs, hs']
    · have hs' := Checker.status_mark_ne (c := { c with types := b }) (s := .pending dec (some t)) hk
      rw [Checker.pendingDec, Checker.pendingDec, hs']
      rfl

theorem Meets.pendingDec_eq (h : Meets chain id c r c') (k : NamedTypeId) :
    c'.pendingDec k = c.pendingDec k := by
  cases h with
  | resolved => rfl
  | poisoned => rfl
  | again _ _ _ hout => exact hout.pendingDec_eq k
  | endless => rfl

theorem Meets.undefined_eq (h : Meets chain id c r c') :
    c'.diagnostics.undefined = c.diagnostics.undefined := by
  cases h with
  | resolved => rfl
  | poisoned => rfl
  | again _ _ _ hout => cases hout <;> rfl
  | endless => exact (Diagnostics.undefined_report ..).trans (by simp [Fault.kind])

/-- A declaration that is settled owes nothing, within the chain or outside it. -/
theorem Settles.owed_eq (h : Settles id dec c rs r c') {s : NamedType} (hs : c.status id = some s)
    (hsize : c'.namedTypes.size = c.namedTypes.size) :
    c'.owed known chain = c.owed known (chain ++ [id]) := by
  refine Checker.owed_congr hsize fun i => ?_
  by_cases hi : (⟨i⟩ : NamedTypeId) = id
  · have hself : c'.pendingDec id = none := by
      rw [Checker.pendingDec, h.status_self hs]
      cases r <;> rfl
    rw [Checker.owedAt, Checker.owedAt, hi, hself]
    simp
  · rw [Checker.owedAt, Checker.owedAt, Checker.pendingDec, Checker.pendingDec, h.status_ne hi]
    simp [hi]

/-- **What is reported while names are found was owed before**, by the names or by declarations that were
not settled. -/
theorem Finds.perm_undefined {ms : List Ident} (h : Finds chain ms c rs c') (ho : c.Open chain)
    (hk : c.typeNames.lookup = known) :
    (c'.diagnostics.undefined ++ c'.owed known chain).Perm
      (c.diagnostics.undefined ++ mentionFaults known ms ++ c.owed known chain) := by
  induction h with
  | nil => simp [mentionFaults]
  | @undefined chain m ms c c' rs hl _ ih =>
    have hreport := Diagnostics.undefined_report c.diagnostics (.undefinedType m.name) m.loc
    rw [if_pos (by rfl)] at hreport
    refine (ih ho hk).trans (.of_eq ?_)
    change (c.diagnostics.report _ _).undefined ++ _ ++ _ = _
    rw [hreport]
    have hnone : known m.name = none := hk ▸ hl
    simp only [mentionFaults, List.filterMap_cons, hnone, if_pos, List.append_assoc, List.cons_append,
      List.nil_append]
    rfl
  | @met chain m ms c c₁ c' id r rs hl hm _ ih =>
    have hbound : known m.name ≠ none := by rw [← hk, hl]; exact nofun
    have hnames : c₁.typeNames.lookup = known := by rw [hm.advances.typeNames_eq, hk]
    have howed : c₁.owed known chain = c.owed known chain :=
      Checker.owed_eq_of_pendingDec hm.advances.size_eq hm.pendingDec_eq
    refine (ih (hm.open_chain ho) hnames).trans (.of_eq ?_)
    rw [hm.undefined_eq, howed]
    simp [mentionFaults, hbound]
  | @settled chain m ms c c₁ c₂ c' id dec o r qs rs hl hs hid hf hset _ ih₁ ih₂ =>
    have hbound : known m.name ≠ none := by rw [← hk, hl]; exact nofun
    have ho₁ : c₁.Open (chain ++ [id]) := hf.open_chain (ho.concat hs)
    obtain ⟨dec', o', hs₁⟩ := ho₁ id (by simp)
    have hadv := (hf.advances (ho.concat hs)).typeNames_eq
    have hadv' := hset.advances hs₁
    have h₁ := ih₁ (ho.concat hs) hk
    have h₂ := ih₂ (hset.open_chain ho₁ hid) (by rw [hadv'.typeNames_eq, hadv, hk])
    have hsplit := Checker.perm_owed_of_pending known hs hid
    rw [hset.quiet.1, hset.owed_eq hs₁ hadv'.size_eq] at h₂
    have hms : mentionFaults known (m :: ms) = mentionFaults known ms := by simp [mentionFaults, hbound]
    rw [List.perm_iff_count] at h₁ h₂ hsplit ⊢
    intro x
    have e₁ := h₁ x
    have e₂ := h₂ x
    have e₃ := hsplit x
    rw [hms]
    simp only [List.count_append] at e₁ e₂ e₃ ⊢
    omega

end

/-! ## Runs of types -/

section

variable {ctx : Context} {pl : Place} {n : ℕ} {c c' : Checker} {seen : List String}
  {ds kept : List TypeDec} {plans : List Plan} {known : String → Option NamedTypeId}

namespace BindsTypes

/-- The declarations whose names are bound are those that are not dropped. -/
theorem kept_live (h : BindsTypes seen ds c plans kept c') :
    liveDecs ⟨some .type, seen⟩ (ds.map .type) = kept.map .type := by
  induction h with
  | nil => rfl
  | @dropped seen d ds kept c c' plans hd _ ih =>
    exact (liveDecs_of_mem (d := .type d) rfl hd).trans ih
  | @bound seen d ds kept c c' plans hd _ ih =>
    exact (liveDecs_of_not_mem (d := .type d) rfl hd).trans (congrArg _ ih)

theorem undefined_eq (h : BindsTypes seen ds c plans kept c') :
    c'.diagnostics.undefined = c.diagnostics.undefined := by
  induction h with
  | nil => rfl
  | dropped _ _ ih => exact ih.trans ((Diagnostics.undefined_report ..).trans (by simp [Fault.kind]))
  | bound _ _ ih => exact ih

theorem size_eq (h : BindsTypes seen ds c plans kept c') :
    c'.namedTypes.size = c.namedTypes.size + kept.length := by
  induction h with
  | nil => rfl
  | dropped _ _ ih => exact ih
  | bound _ _ ih =>
    rw [ih, Checker.declare, Array.size_push, List.length_cons]
    omega

/-- The names of the run are bound at the place, each to its number. -/
theorem place_eq (h : BindsTypes seen ds c plans kept c') (ctx : Context) :
    ctx.place c' = (ctx.place c).bindRun c.namedTypes.size (kept.map .type) := by
  induction h with
  | nil => rfl
  | dropped _ _ ih => exact ih
  | @bound seen d ds kept c c' plans _ _ ih =>
    have hbind : ctx.place (c.declare d) = (ctx.place c).bindType d.name.name ⟨c.namedTypes.size⟩ := by
      have hnames : (c.declare d).typeNames.lookup =
          Function.update c.typeNames.lookup d.name.name (some ⟨c.namedTypes.size⟩) := by
        funext x
        rw [Checker.lookup_declare, Function.update_apply]
      unfold Context.place Place.bindType
      rw [hnames]
      rfl
    rw [ih, hbind, Checker.declare, Array.size_push]
    rfl

/-- The declarations of the run owe what they mention. -/
theorem owed_eq (h : BindsTypes seen ds c plans kept c') :
    c'.owed known [] = c.owed known [] ++ kept.flatMap fun d => mentionFaults known d.body.mentions := by
  induction h with
  | nil => exact (List.append_nil _).symm
  | dropped _ _ ih => exact ih
  | @bound seen d ds kept c c' plans _ _ ih =>
    have hold : ∀ i ∈ List.range c.namedTypes.size,
        (c.declare d).owedAt known [] i = c.owedAt known [] i := by
      intro i hi
      have hne : i ≠ c.namedTypes.size := Nat.ne_of_lt (List.mem_range.mp hi)
      simp only [Checker.owedAt, Checker.pendingDec, Checker.status_declare, if_neg hne]
    have hnew : (c.declare d).owedAt known [] c.namedTypes.size = mentionFaults known d.body.mentions := by
      simp [Checker.owedAt, Checker.pendingDec, Checker.status_declare]
    have hsize : (c.declare d).namedTypes.size = c.namedTypes.size + 1 := Array.size_push _
    have hd : (c.declare d).owed known [] = c.owed known [] ++ mentionFaults known d.body.mentions := by
      rw [Checker.owed, hsize, List.range_succ, List.flatMap_append, List.flatMap_singleton, hnew,
        List.flatMap_congr hold]
      rfl
    rw [ih, hd, List.flatMap_cons, List.append_assoc]

end BindsTypes

/-- Between runs nothing is owed. -/
theorem Checker.AtRest.owed_eq (hc : c.AtRest) : c.owed known [] = [] := by
  refine List.flatMap_eq_nil_iff.mpr fun i _ => ?_
  have hnone : c.pendingDec ⟨i⟩ = none := by
    unfold Checker.pendingDec
    split
    · rename_i hs
      exact absurd hs (hc.settled _ _ _)
    · rfl
  simp [owedAt, hnone]

end

/-! ## What a run of types is in the tree -/

section

variable (t : FrameTable) (pl : Place) (n : ℕ) (ds : List TypeDec)

theorem sitesDecs_map_type : sitesDecs t pl n (some .type) (ds.map .type) =
    (ds.flatMap fun d => d.body.mentions).map (Site.typeName pl) := by
  induction ds generalizing n with
  | nil => rfl
  | cons d ds ih =>
    rw [List.map_cons, sitesDecs, List.flatMap_cons, List.map_append, ← ih]
    rfl

theorem headSites_map_type : headSites pl (ds.map .type) = [] := by
  induction ds with
  | nil => rfl
  | cons d ds ih => exact ih

theorem behind_map_type : pl.behind n (some .type) (ds.map .type) = pl := by
  induction ds generalizing n with
  | nil => rfl
  | cons d ds ih => exact ih _

theorem ownSlotsDecs_map_type : ownSlotsDecs (ds.map .type) = [] := by
  induction ds with
  | nil => rfl
  | cons d ds ih => exact ih

end

/-! ## A run of types -/

section

variable {ctx : Context} {pl : Place} {n : ℕ} {c c₁ c₂ : Checker}

/-- **A run of types is surveyed.** Its names are bound together, so each of them is in scope in all its
right-hand sides. -/
theorem surveyed_typeRun {d : TypeDec} {ds : List TypeDec} {plans : List Plan} {r : List Dec × Bool}
    (hst : ctx.Stands pl n c) (hopen : (openRun ctx ((d :: ds).map .type)).run c = .ok (plans, c₁))
    (hrun : (checkPlanned ctx plans ((d :: ds).map .type)).run c₁ = .ok (r, c₂)) :
    RunSurveyed ctx pl n c .type ((d :: ds).map .type) r.1 c₂ := by
  obtain ⟨-, hend⟩ := (yields_typeRun hst.sound hst.sits d ds).of_run hopen
  obtain ⟨hr, hdecl, kept, rs, own, hbind, hfinds, hbuild, -⟩ := hend.of_run hrun
  have hframes : c₂.frames = c.frames := hbuild.advances.frames_eq.trans hbind.others_eq.2.2.2.1
  have hfunctions : c₂.functions = c.functions :=
    hbuild.advances.functions_eq.trans hbind.others_eq.2.2.1
  have hvalues : c₂.values = c.values := hbuild.advances.values_eq.trans hbind.others_eq.2.1
  have hsize : c₂.namedTypes.size = n + kept.length := by
    rw [hbuild.advances.size_eq, hbind.size_eq, ← hst.count]
    rfl
  have hbound : ctx.place c₁ = pl.bindRun n (kept.map .type) := by
    rw [← hst.stood, ← hst.count]
    exact hbind.place_eq ctx
  have hplace : ctx.place c₂ = pl.bindRun n (kept.map .type) := by
    refine Eq.trans ?_ hbound
    unfold Context.place
    rw [hbuild.advances.values_eq, hbuild.advances.functions_eq, hbuild.advances.typeNames_eq]
  have htypes : (pl.bindRun n (kept.map .type)).types = c₁.typeNames.lookup := by rw [← hbound]; rfl
  have hrest : (c.note (.run .type (d :: ds).length)).AtRest := (Checker.walked_note hst.sound _).sound.rest
  have hnames : mentionFaults c₁.typeNames.lookup (kept.map (·.name)) = [] := by
    refine List.filterMap_eq_nil_iff.mpr fun m hm => if_neg ?_
    obtain ⟨d, hd, rfl⟩ := List.mem_map.mp hm
    obtain ⟨id, hid, -⟩ := hbind.lookup_of_mem d hd
    rw [hid]
    exact nofun
  have hundefined : c₂.diagnostics.undefined.Perm (c.diagnostics.undefined ++
      ((kept.flatMap fun d => d.body.mentions).map
        (Site.typeName (pl.bindRun n (kept.map .type)))).filterMap Site.unbound) := by
    have hperm := hfinds.perm_undefined (open_nil c₁) rfl
    rw [hdecl.sound.rest.owed_eq, hbind.owed_eq, hrest.owed_eq, hnames, hbind.undefined_eq,
      List.append_nil, List.append_nil, List.nil_append] at hperm
    rw [filterMap_unbound_typeName, htypes, mentionFaults, List.filterMap_flatMap]
    exact hperm
  have hbare : Tallies c (fun _ => (kept.flatMap fun d => d.body.mentions).map
      (Site.typeName (pl.bindRun n (kept.map .type)))) kept.length c₂ :=
    .bare (bare_typeNames _ _) hdecl.grown hframes (by rw [hsize, hst.count]) hundefined
  simp only [RunSurveyed, hr, hbind.kept_live, headSites_map_type, sitesDecs_map_type,
    ownSlotsDecs_map_type, typeDecsDecs_map_type, behind_map_type, List.nil_append, and_true]
  exact ⟨.of_tallies hbare hframes fun e _ => holds_typeNames e _ _, ⟨hdecl.sound, hdecl.sits,
    hst.calls.extends hdecl.grown hfunctions, hplace, hsize⟩⟩

end

end TigerCheck
