import TigerCheck.Proofs.Reports
import TigerCheck.Proofs.Ty.Matches

/-!
# Runs of types that differ in their names only

A second run of types may say the same as a first one in other names. Both are resolved in one arena then,
and what a name stands for in the first can be compared with what its new name stands for in the second.
Arrays and synonyms come out the same, however they refer to each other. A record is the same as itself
only, so that two records match where none of their fields leads to a record of the run.

* `Respelling`: a run that says the same as another in other names.
* `PassesTo`, `LeadsToRecord`: following synonyms and arrays of a run to a record of it.
* `Accepted`: what is true of a run from which nothing was reported.
* **`Respelled.not_same_of_leads`**, **`Respelled.same_of_not_leads`**: whether two names stand for the same.
* **`isMatch_respelled_iff`**: when the records of two declarations match.
-/

namespace TigerCheck

open Check Relation

/-! ## Saying the same in other names -/

/-- A field of the same name, whose type is spelled as `ρ` says. -/
def TypedName.Respells (ρ : String → String) (f g : TypedName) : Prop :=
  g.name.name = f.name.name ∧ g.typeName.name = ρ f.typeName.name

/-- A right-hand side in which every type name is spelled as `ρ` says. -/
def TypeBody.Respells (ρ : String → String) : TypeBody → TypeBody → Prop
  | .synonym m, .synonym n => n.name = ρ m.name
  | .array m, .array n => n.name = ρ m.name
  | .record fs, .record gs => List.Forall₂ (TypedName.Respells ρ) fs gs
  | _, _ => False

namespace TypeBody.Respells

variable {ρ : String → String} {b : TypeBody}

theorem synonym {m : Ident} (h : (TypeBody.synonym m).Respells ρ b) :
    ∃ n, b = .synonym n ∧ n.name = ρ m.name := by
  cases b with
  | synonym n => exact ⟨n, rfl, h⟩
  | record | array => exact h.elim

theorem array {m : Ident} (h : (TypeBody.array m).Respells ρ b) : ∃ n, b = .array n ∧ n.name = ρ m.name := by
  cases b with
  | array n => exact ⟨n, rfl, h⟩
  | record | synonym => exact h.elim

theorem record {fs : List TypedName} (h : (TypeBody.record fs).Respells ρ b) :
    ∃ gs, b = .record gs ∧ List.Forall₂ (TypedName.Respells ρ) fs gs := by
  cases b with
  | record gs => exact ⟨gs, rfl, h⟩
  | synonym | array => exact h.elim

end TypeBody.Respells

/-- **A run that says the same as another in other names**: what it declares is named as `ρ` says, and what
it only mentions is as before and not among the names that it declares. -/
structure Respelling (ρ : String → String) (run run' : List TypeDec) : Prop where
  decs : List.Forall₂ (fun d e => e.name.name = ρ d.name.name ∧ d.body.Respells ρ e.body) run run'
  outer : ∀ d ∈ run, ∀ m ∈ d.body.mentions, m.name ∉ names run →
    ρ m.name = m.name ∧ m.name ∉ names run'

/-- A name is declared as a synonym of another, or as an array of it. -/
def PassesTo (run : List TypeDec) (n m : String) : Prop :=
  ∃ d ∈ run, d.name.name = n ∧ d.body.isRecord = false ∧ ∃ target ∈ d.body.mentions, target.name = m

/-- Synonyms and arrays of a run lead from a name to a record of the run. -/
def LeadsToRecord (run : List TypeDec) (n : String) : Prop :=
  ∃ d ∈ run, d.body.isRecord = true ∧ ReflTransGen (PassesTo run) n d.name.name

/-- A name in a right-hand side of a run. -/
def Mentioned (run : List TypeDec) (n : String) : Prop :=
  ∃ d ∈ run, ∃ m ∈ d.body.mentions, m.name = n

section

variable {run run' : List TypeDec} {n m : String} {ρ : String → String}

theorem SynonymOf.passesTo (h : SynonymOf run n m) : PassesTo run n m := by
  obtain ⟨d, hd, hn, target, hbody, hm⟩ := h
  exact ⟨d, hd, hn, by rw [hbody]; rfl, target, by rw [hbody]; exact List.mem_singleton_self _, hm⟩

theorem PassesTo.mentioned (h : PassesTo run n m) : Mentioned run m := by
  obtain ⟨d, hd, -, -, target, htarget, hm⟩ := h
  exact ⟨d, hd, target, htarget, hm⟩

theorem LeadsToRecord.of_passes (h : LeadsToRecord run m) (hnm : ReflTransGen (PassesTo run) n m) :
    LeadsToRecord run n := by
  obtain ⟨d, hd, hrecord, hpath⟩ := h
  exact ⟨d, hd, hrecord, hnm.trans hpath⟩

/-- Among names of which none is a record's, and which pass to each other only, no record is come to. -/
theorem not_leadsToRecord {S : String → Prop} (hn : S n)
    (h : ∀ d ∈ run, S d.name.name → d.body.isRecord = false ∧ ∀ m ∈ d.body.mentions, S m.name) :
    ¬ LeadsToRecord run n := by
  rintro ⟨d, hd, hrecord, hpath⟩
  have hS : ∀ m, ReflTransGen (PassesTo run) n m → S m := by
    intro m hm
    induction hm with
    | refl => exact hn
    | tail _ hstep ih =>
      obtain ⟨e, he, rfl, -, target, htarget, rfl⟩ := hstep
      exact (h e he ih).2 target htarget
  rw [(h d hd (hS _ hpath)).1] at hrecord
  cases hrecord

theorem Respelling.exists_mem (h : Respelling ρ run run') {d : TypeDec} (hd : d ∈ run) :
    ∃ e ∈ run', e.name.name = ρ d.name.name ∧ d.body.Respells ρ e.body :=
  exists_mem_of_forall₂ h.decs hd

theorem Respelling.synonymOf (h : Respelling ρ run run') (hnm : SynonymOf run n m) :
    SynonymOf run' (ρ n) (ρ m) := by
  obtain ⟨d, hd, rfl, target, hbody, rfl⟩ := hnm
  obtain ⟨e, he, hname, hspell⟩ := h.exists_mem hd
  obtain ⟨target', hbody', htarget⟩ := (hbody ▸ hspell).synonym
  exact ⟨e, he, hname, target', hbody', htarget⟩

end

/-! ## Runs from which nothing is reported -/

/-- What is true of a run of types between its beginning `c` and its end `c'`, if nothing is reported. -/
structure Accepted (run : List TypeDec) (c c' : Checker) : Prop where
  atRest : c'.AtRest
  nodup : (names run).Nodup
  solution : Solution run c c'
  outer : ∀ n, n ∉ names run → c'.typeNamed n = c.typeNamed n
  /-- Synonyms lead to something that is no synonym. -/
  root : ∀ n t, c'.typeNamed n = some t → ∃ m, ReflTransGen (SynonymOf run) n m ∧
    ∀ d ∈ run, d.name.name = m → d.body.isSynonym = false

namespace TypeRun

variable {c c₀ c' : Checker} {run : List TypeDec} {plans : List Plan} {rs : List (Option Ty)} {own : Owners}

theorem exists_root (h : TypeRun c run plans run c₀ rs own c') {n : String} {t : Ty}
    (hn : c'.typeNamed n = some t) : ∃ m, ReflTransGen (SynonymOf run) n m ∧
      ∀ d ∈ run, d.name.name = m → d.body.isSynonym = false := by
  obtain ⟨id, hl, hs⟩ := Checker.typeNamed_eq_some_iff.mp hn
  rw [h.lookup_eq] at hl
  have hst := h.building.resolved id t hs
  clear hn hs
  -- along the synonyms that the name stands for its type by
  induction hst generalizing n with
  | @owner id t hown =>
    obtain ⟨d, hd⟩ := h.building.owned id t hown
    refine ⟨n, .refl, fun e he hname => ?_⟩
    obtain ⟨id', hl', hs'⟩ := h.lookup_of_mem he
    rw [hname, hl] at hl'
    cases hl'
    rw [hd.declared] at hs'
    cases hs'
    exact hd.constructs
  | @known id t hk =>
    refine ⟨n, .refl, fun e he hname => ?_⟩
    obtain ⟨id', hl', hs'⟩ := h.lookup_of_mem he
    rw [hname, hl] at hl'
    cases hl'
    rw [hk] at hs'
    cases hs'
  | @synonym id k d target t hs hbody hlk _ ih =>
    obtain ⟨hd, rfl⟩ := h.name_eq_of_lookup hl hs
    obtain ⟨m, hm, hroot⟩ := ih hlk
    exact ⟨m, hm.head ⟨d, hd, rfl, target, hbody, rfl⟩, hroot⟩

end TypeRun

/-- **A run that passes its check is accepted.** -/
theorem accepted_of_run {ctx : Context} {c c' : Checker} {run : List TypeDec} {ds : List Dec}
    (hc : c.AtRest) (h : (checkDecs ctx [] (run.map .type)).run c = .ok ((ds, true), c')) :
    Accepted run c c' := by
  obtain ⟨-, c₁, plans, kept, c₀, rs, own, hc₁, htr, hok⟩ := (yields_types_atRest hc run).of_run h
  obtain ⟨hplans, hrs⟩ := hok.mp rfl
  have hnd := (htr.binds.diagnostics_eq_iff.mp (by rw [htr.binds.diagnostics_eq hplans])).2
  obtain rfl := (htr.binds.kept_eq (fun _ _ => List.not_mem_nil) hnd).1
  refine ⟨htr.atRest, hnd, (htr.solution rfl hnd (htr.named_of_found hrs)).congr hc₁.types_eq, fun n hn => ?_,
    fun n t hn => htr.exists_root hn⟩
  rw [htr.typeNamed_of_not_mem hn, hc₁.typeNamed_eq]

namespace Accepted

variable {run : List TypeDec} {c c' : Checker} {n m : String}

/-- A synonym stands for what its target stands for. -/
theorem typeNamed_eq (h : Accepted run c c') (hnm : ReflTransGen (SynonymOf run) n m) :
    c'.typeNamed n = c'.typeNamed m := by
  induction hnm with
  | refl => rfl
  | tail _ hstep ih =>
    obtain ⟨d, hd, rfl, target, hbody, rfl⟩ := hstep
    have hsolved := h.solution.solved d hd
    rw [TypeDec.Solved, hbody] at hsolved
    obtain ⟨t, hname, htarget⟩ := hsolved
    rw [ih, hname, htarget]

end Accepted

/-! ## Two runs in one arena -/

/-- **Two runs are resolved in one arena**, the second some time after the first, and the second says the
same in other names. What both only mention stands for the same before them. -/
structure Respelled (ρ : String → String) (run run' : List TypeDec) (c c₁ c₂ c₃ : Checker) : Prop where
  spelling : Respelling ρ run run'
  first : Accepted run c c₁
  grown : ∀ t s, c₁.types.shape t = some s → c₂.types.shape t = some s
  second : Accepted run' c₂ c₃
  outer : ∀ n, Mentioned run n → n ∉ names run → c₂.typeNamed n = c.typeNamed n

namespace Respelled

variable {ρ : String → String} {run run' : List TypeDec} {c c₁ c₂ c₃ : Checker} {n m : String} {u v t : Ty}

theorem kept (h : Respelled ρ run run' c c₁ c₂ c₃) {s : Shape} (hs : c₁.types.shape t = some s) :
    c₃.types.shape t = some s :=
  h.second.solution.kept t s (h.grown t s hs)

/-- What is only mentioned stands for the same in both. -/
theorem outer_eq (h : Respelled ρ run run' c c₁ c₂ c₃) (hm : Mentioned run n) (hn : n ∉ names run) :
    c₃.typeNamed (ρ n) = c₁.typeNamed n := by
  obtain ⟨d, hd, m, hmem, rfl⟩ := hm
  obtain ⟨hρ, hn'⟩ := h.spelling.outer d hd m hmem hn
  rw [hρ, h.second.outer _ hn', h.outer _ ⟨d, hd, m, hmem, rfl⟩ hn, ← h.first.outer _ hn]

/-- Along synonyms both stand for what they stood for. -/
theorem typeNamed_of_synonyms (h : Respelled ρ run run' c c₁ c₂ c₃) (hnm : ReflTransGen (SynonymOf run) n m)
    (hu : c₁.typeNamed n = some u) (hv : c₃.typeNamed (ρ n) = some v) :
    c₁.typeNamed m = some u ∧ c₃.typeNamed (ρ m) = some v := by
  have hnm' : ReflTransGen (SynonymOf run') (ρ n) (ρ m) := hnm.lift ρ fun _ _ => h.spelling.synonymOf
  exact ⟨h.first.typeNamed_eq hnm ▸ hu, h.second.typeNamed_eq hnm' ▸ hv⟩

/-- **An array has the element that is declared**, in both runs. -/
theorem exists_elements (h : Respelled ρ run run' c c₁ c₂ c₃) {d : TypeDec} (hd : d ∈ run) {element : Ident}
    (hbody : d.body = .array element) (hu : c₁.typeNamed d.name.name = some u)
    (hv : c₃.typeNamed (ρ d.name.name) = some v) :
    ∃ u' v', c₁.typeNamed element.name = some u' ∧ c₃.typeNamed (ρ element.name) = some v' ∧
      c₃.types.element? u = some u' ∧ c₃.types.element? v = some v' := by
  obtain ⟨e, he, hname, hspell⟩ := h.spelling.exists_mem hd
  obtain ⟨element', hbody', hrespelled⟩ := (hbody ▸ hspell).array
  have hd' := h.first.solution.solved d hd
  have he' := h.second.solution.solved e he
  rw [TypeDec.Solved, hbody] at hd'
  rw [TypeDec.Solved, hbody'] at he'
  obtain ⟨x, u', hx, -, helement, hentry⟩ := hd'
  obtain ⟨y, v', hy, -, helement', hentry'⟩ := he'
  obtain rfl := Option.some.inj (hu.symm.trans hx)
  obtain rfl := Option.some.inj (hv.symm.trans (hname ▸ hy))
  obtain ⟨_, hx', hkept⟩ := Arena.shape_eq_array_iff.mp
    (h.kept (Arena.shape_eq_array_iff.mpr ⟨x, rfl, hentry⟩))
  cases hx'
  exact ⟨u', v', helement, hrespelled ▸ helement', Arena.element?_array hkept, Arena.element?_array hentry'⟩

/-- **Behind a synonym or an array** the types of two names are the same just if they are in front of it. -/
theorem same_iff_of_passes (h : Respelled ρ run run' c c₁ c₂ c₃) (hnm : PassesTo run n m)
    (hu : c₁.typeNamed n = some u) (hv : c₃.typeNamed (ρ n) = some v) :
    ∃ u' v', c₁.typeNamed m = some u' ∧ c₃.typeNamed (ρ m) = some v' ∧
      (c₃.types.Same u v ↔ c₃.types.Same u' v') := by
  obtain ⟨d, hd, rfl, hrecord, target, htarget, rfl⟩ := hnm
  cases hbody : d.body with
  | record fields =>
    rw [hbody] at hrecord
    cases hrecord
  | synonym source =>
    rw [hbody, TypeBody.mentions, List.mem_singleton] at htarget
    subst htarget
    obtain ⟨hu', hv'⟩ := h.typeNamed_of_synonyms (.single ⟨d, hd, rfl, target, hbody, rfl⟩) hu hv
    exact ⟨u, v, hu', hv', .rfl⟩
  | array element =>
    rw [hbody, TypeBody.mentions, List.mem_singleton] at htarget
    subst htarget
    obtain ⟨u', v', hu', hv', helement, helement'⟩ := h.exists_elements hd hbody hu hv
    exact ⟨u', v', hu', hv', Arena.same_iff_same_elements helement helement'⟩

/-- **A record has the fields that are declared**, in both runs, and the two records are different. -/
theorem exists_records (h : Respelled ρ run run' c c₁ c₂ c₃) {d e : TypeDec} (hd : d ∈ run) (he : e ∈ run')
    (hspell : d.body.Respells ρ e.body) {fields : List TypedName} (hbody : d.body = .record fields) :
    ∃ gs x y ts us, List.Forall₂ (TypedName.Respells ρ) fields gs ∧
      (c₁.typeNamed d.name.name = some (.record x) ∧ c₃.typeNamed e.name.name = some (.record y) ∧ x ≠ y) ∧
      (List.Forall₂ (fun f t => c₁.typeNamed f.typeName.name = some t) fields ts ∧
        List.Forall₂ (fun f t => c₃.typeNamed f.typeName.name = some t) gs us) ∧
      c₃.types.shape (.record x) =
        some (.record ⟨d.name.name, List.zipWith (fun f t => ⟨f.name.name, t⟩) fields ts⟩) ∧
      c₃.types.shape (.record y) =
        some (.record ⟨e.name.name, List.zipWith (fun f t => ⟨f.name.name, t⟩) gs us⟩) := by
  obtain ⟨gs, hbody', hfields⟩ := (hbody ▸ hspell).record
  have hd' := h.first.solution.solved d hd
  have he' := h.second.solution.solved e he
  rw [TypeDec.Solved, hbody] at hd'
  rw [TypeDec.Solved, hbody'] at he'
  obtain ⟨x, ts, hx, -, hts, hentry⟩ := hd'
  obtain ⟨y, us, hy, hnew, hus, hentry'⟩ := he'
  have hshape := Arena.shape_eq_record_iff.mpr ⟨x, rfl, hentry⟩
  -- the first record was there before the second run began
  have hne : x ≠ y := by
    rintro rfl
    exact absurd (Arena.exists_shape_record_iff.mp ⟨_, h.grown _ _ hshape⟩) (Nat.not_lt.mpr hnew)
  exact ⟨gs, x, y, ts, us, hfields, ⟨hx, hy, hne⟩, ⟨hts, hus⟩, h.kept hshape,
    Arena.shape_eq_record_iff.mpr ⟨y, rfl, hentry'⟩⟩

/-- **A name that leads to a record of the run stands for another type in the second run.** -/
theorem not_same_of_leads (h : Respelled ρ run run' c c₁ c₂ c₃) (hn : LeadsToRecord run n)
    (hu : c₁.typeNamed n = some u) (hv : c₃.typeNamed (ρ n) = some v) : ¬ c₃.types.Same u v := by
  obtain ⟨d, hd, hrecord, hpath⟩ := hn
  induction hpath using ReflTransGen.head_induction_on generalizing u v with
  | refl =>
    obtain ⟨e, he, hname, hspell⟩ := h.spelling.exists_mem hd
    cases hbody : d.body with
    | synonym | array =>
      rw [hbody] at hrecord
      cases hrecord
    | record fields =>
      obtain ⟨-, x, y, -, -, -, ⟨hx, hy, hne⟩, -⟩ := h.exists_records hd he hspell hbody
      obtain rfl := Option.some.inj (hu.symm.trans hx)
      obtain rfl := Option.some.inj (hv.symm.trans (hname ▸ hy))
      intro hsame
      cases hsame.eq_of_isArray rfl
      exact hne rfl
  | head hstep _ ih =>
    obtain ⟨u', v', hu', hv', hiff⟩ := h.same_iff_of_passes hstep hu hv
    rw [hiff]
    exact ih hu' hv'

/-- **A name that leads to no record of the run stands for the same type in both runs.** -/
theorem same_of_not_leads (h : Respelled ρ run run' c c₁ c₂ c₃) (hm : Mentioned run n)
    (hn : ¬ LeadsToRecord run n) (hu : c₁.typeNamed n = some u) (hv : c₃.typeNamed (ρ n) = some v) :
    c₃.types.Same u v := by
  -- such types are equal, or they are arrays with such elements
  refine ⟨fun u v => u = v ∨ ∃ n, Mentioned run n ∧ ¬ LeadsToRecord run n ∧ c₁.typeNamed n = some u ∧
    c₃.typeNamed (ρ n) = some v, .inr ⟨n, hm, hn, hu, hv⟩, ?_⟩
  rintro u v (rfl | ⟨n, hm, hn, hu, hv⟩)
  · exact .refl u
  obtain ⟨m, hpath, hroot⟩ := h.first.root n u hu
  obtain ⟨hu', hv'⟩ := h.typeNamed_of_synonyms hpath hu hv
  have hpasses := ReflTransGen.mono (fun _ _ => SynonymOf.passesTo) _ _ hpath
  have hmm : Mentioned run m := by
    rcases ReflTransGen.cases_tail hpasses with rfl | ⟨_, -, hlast⟩
    · exact hm
    · exact hlast.mentioned
  by_cases hdec : m ∈ names run
  swap
  · rw [h.outer_eq hmm hdec, hu'] at hv'
    exact Option.some.inj hv' ▸ .refl u
  obtain ⟨d, hd, rfl⟩ := List.mem_map.mp hdec
  cases hbody : d.body with
  | synonym target => simpa [hbody, TypeBody.isSynonym] using hroot d hd rfl
  | record fields => exact absurd ⟨d, hd, by rw [hbody]; rfl, hpasses⟩ hn
  | array element =>
    obtain ⟨u', v', hu'', hv'', helement, helement'⟩ := h.exists_elements hd hbody hu' hv'
    have hstep : PassesTo run d.name.name element.name :=
      ⟨d, hd, rfl, by rw [hbody]; rfl, element, by rw [hbody]; exact List.mem_singleton_self _, rfl⟩
    exact .elements helement helement' (.inr ⟨element.name, hstep.mentioned,
      fun hleads => hn (hleads.of_passes (hpasses.tail hstep)), hu'', hv''⟩)

end Respelled

/-! ## Records that match -/

/-- The fields of two records, which have a type each, have the same types just if a condition holds of the
first ones. -/
theorem forall₂_zipWith_iff {S : TypedName → TypedName → Prop} {A B : TypedName → Ty → Prop}
    {R : Ty → Ty → Prop} {P : TypedName → Prop} {fs gs : List TypedName} {ts us : List Ty}
    (hfg : List.Forall₂ S fs gs) (hts : List.Forall₂ A fs ts) (hus : List.Forall₂ B gs us)
    (h : ∀ f ∈ fs, ∀ g t u, S f g → A f t → B g u → (R t u ↔ P f)) :
    List.Forall₂ (fun x y : Field => R x.ty y.ty) (List.zipWith (fun f t => ⟨f.name.name, t⟩) fs ts)
      (List.zipWith (fun f t => ⟨f.name.name, t⟩) gs us) ↔ ∀ f ∈ fs, P f := by
  induction hfg generalizing ts us with
  | nil =>
    cases hts
    cases hus
    simp
  | cons hs _ ih =>
    cases hts with
    | cons ht hts =>
    cases hus with
    | cons hu hus =>
      obtain ⟨hhead, htail⟩ := List.forall_mem_cons.mp h
      rw [List.zipWith_cons_cons, List.zipWith_cons_cons, List.forall₂_cons, List.forall_mem_cons,
        hhead _ _ _ hs ht hu, ih hts hus htail]

/-- **When the records of a run match those of the same run in other names.** Two runs are accepted in one
arena, the second says the same as the first in other names, and what both only mention stands for the same.
Then every record declaration stands for a record in both, and the two match exactly if none of the fields
leads, by way of synonyms and arrays of the run, to a record of the run. -/
theorem isMatch_respelled_iff {ctx ctx' : Context} {c c₁ c₂ c₃ : Checker} {ds ds' : List Dec}
    {ρ : String → String} {run run' : List TypeDec} (hc : c.AtRest)
    (hrun : (checkDecs ctx [] (run.map .type)).run c = .ok ((ds, true), c₁)) (hc₂ : c₂.AtRest)
    (hgrown : ∀ t s, c₁.types.shape t = some s → c₂.types.shape t = some s)
    (hrun' : (checkDecs ctx' [] (run'.map .type)).run c₂ = .ok ((ds', true), c₃))
    (hspelling : Respelling ρ run run')
    (houter : ∀ n, Mentioned run n → n ∉ names run → c₂.typeNamed n = c.typeNamed n) :
    ∀ d e, (d, e) ∈ run.zip run' → ∀ fields, d.body = .record fields → ∃ x y b,
      c₁.typeNamed d.name.name = some (.record x) ∧ c₃.typeNamed e.name.name = some (.record y) ∧
      c₃.types.isMatch (some (.record x)) (some (.record y)) = .ok b ∧
      (b = true ↔ ∀ f ∈ fields, ¬ LeadsToRecord run f.typeName.name) := by
  have h : Respelled ρ run run' c c₁ c₂ c₃ :=
    ⟨hspelling, accepted_of_run hc hrun, hgrown, accepted_of_run hc₂ hrun', houter⟩
  intro d e hmem fields hbody
  obtain ⟨-, hspell⟩ := (List.forall₂_iff_zip.mp hspelling.decs).2 hmem
  obtain ⟨hd, he⟩ := List.of_mem_zip hmem
  obtain ⟨gs, x, y, ts, us, hfields, ⟨hx, hy, -⟩, ⟨hts, hus⟩, hx', hy'⟩ := h.exists_records hd he hspell hbody
  obtain ⟨b, hb, hiff⟩ :=
    Arena.isMatch_spec h.second.atRest.closed (Arena.has_of_shape hx') (Arena.has_of_shape hy')
  refine ⟨x, y, b, hx, hy, hb, ?_⟩
  rw [hiff, Arena.matches_iff_interchangeable (s := .record x) (t := .record y) nofun nofun,
    Arena.interchangeable_record_iff (Arena.record?_eq_some_iff.mpr hx') (Arena.record?_eq_some_iff.mpr hy'),
    Arena.Laid]
  refine forall₂_zipWith_iff hfields hts hus fun f hf g t u hfg ht hu => ?_
  have hm : Mentioned run f.typeName.name :=
    ⟨d, hd, f.typeName, by rw [hbody]; exact List.mem_map_of_mem hf, rfl⟩
  rw [hfg.2] at hu
  exact ⟨fun hsame hleads => h.not_same_of_leads hleads ht hu hsame,
    fun hn => h.same_of_not_leads hm hn ht hu⟩

theorem eq_ok_of_toOption {ε α : Type} {x : Except ε α} {a : α} (h : x.toOption = some a) : x = .ok a := by
  cases x with
  | error e => cases h
  | ok b => exact congrArg _ (Option.some.inj h)

/-- A list, an array of itself, and a record that holds one. -/
def shapes (list row point : String) : List TypeDec := [
  { name := { name := list }, body := .record [⟨{ name := "head" }, { name := "int" }⟩,
    ⟨{ name := "tail" }, { name := list }⟩] },
  { name := { name := row }, body := .array { name := row } },
  { name := { name := point }, body := .record [⟨{ name := "cells" }, { name := row }⟩] }]

/-- The names of the second run. -/
def respell (n : String) : String :=
  if n = "list" then "chain" else if n = "row" then "line" else if n = "point" then "pixel" else n

theorem respelling_shapes :
    Respelling respell (shapes "list" "row" "point") (shapes "chain" "line" "pixel") := by
  refine ⟨?_, ?_⟩
  · simp [shapes, respell, TypeBody.Respells, TypedName.Respells]
  · decide

/-- Both runs are accepted, the second one in a block of its own. -/
theorem exists_run_shapes : ∃ ds c₁ ds' c₃,
    (checkDecs ⟨0, Checker.initial.mainFrame, 0⟩ [] ((shapes "list" "row" "point").map .type)).run
      Checker.inBlock = .ok ((ds, true), c₁) ∧
    (checkDecs ⟨0, Checker.initial.mainFrame, 0⟩ [] ((shapes "chain" "line" "pixel").map .type)).run
      c₁.entered = .ok ((ds', true), c₃) ∧
    (c₁.typeNamed "list" = some (.record ⟨0⟩) ∧ c₁.typeNamed "point" = some (.record ⟨1⟩)) ∧
    (c₃.typeNamed "chain" = some (.record ⟨2⟩) ∧ c₃.typeNamed "pixel" = some (.record ⟨3⟩)) ∧
    c₃.types.isMatch (some (.record ⟨0⟩)) (some (.record ⟨2⟩)) = .ok false := by
  have hend : ((checkDecs ⟨0, Checker.initial.mainFrame, 0⟩ []
      ((shapes "list" "row" "point").map .type)).run Checker.inBlock).toOption.bind (fun x =>
        ((checkDecs ⟨0, Checker.initial.mainFrame, 0⟩ []
          ((shapes "chain" "line" "pixel").map .type)).run x.2.entered).toOption.map fun y =>
            (x.1.2 && y.1.2, [x.2.typeNamed "list", x.2.typeNamed "point", y.2.typeNamed "chain",
                y.2.typeNamed "pixel"],
              (y.2.types.isMatch (some (.record ⟨0⟩)) (some (.record ⟨2⟩))).toOption)) =
      some (true, [some (.record ⟨0⟩), some (.record ⟨1⟩), some (.record ⟨2⟩), some (.record ⟨3⟩)],
        some false) := by decide +kernel
  obtain ⟨⟨⟨ds, ok⟩, c₁⟩, hfirst, hrest⟩ := Option.bind_eq_some_iff.mp hend
  obtain ⟨⟨⟨ds', ok'⟩, c₃⟩, hsecond, hall⟩ := Option.map_eq_some_iff.mp hrest
  simp only [Prod.mk.injEq, Bool.and_eq_true, List.cons.injEq, and_true] at hall
  obtain ⟨⟨rfl, rfl⟩, ⟨hlist, hpoint, hchain, hpixel⟩, hmatch⟩ := hall
  exact ⟨ds, c₁, ds', c₃, eq_ok_of_toOption hfirst, eq_ok_of_toOption hsecond, ⟨hlist, hpoint⟩,
    ⟨hchain, hpixel⟩, eq_ok_of_toOption hmatch⟩

/-- **Records of the same shape need not match**: two lists under different names, each of which holds its
own kind only. -/
theorem lists_not_match :
    Respelling respell (shapes "list" "row" "point") (shapes "chain" "line" "pixel") ∧
    ∃ ds c₁ ds' c₃,
      (checkDecs ⟨0, Checker.initial.mainFrame, 0⟩ [] ((shapes "list" "row" "point").map .type)).run
        Checker.inBlock = .ok ((ds, true), c₁) ∧
      (checkDecs ⟨0, Checker.initial.mainFrame, 0⟩ [] ((shapes "chain" "line" "pixel").map .type)).run
        c₁.entered = .ok ((ds', true), c₃) ∧
      c₁.typeNamed "list" = some (.record ⟨0⟩) ∧ c₃.typeNamed "chain" = some (.record ⟨2⟩) ∧
      c₃.types.isMatch (some (.record ⟨0⟩)) (some (.record ⟨2⟩)) = .ok false := by
  obtain ⟨ds, c₁, ds', c₃, hrun, hrun', ⟨hlist, -⟩, ⟨hchain, -⟩, hmatch⟩ := exists_run_shapes
  exact ⟨respelling_shapes, ds, c₁, ds', c₃, hrun, hrun', hlist, hchain, hmatch⟩

/-- The arrays of themselves are the same, so that the records that hold them match; the lists do not. -/
theorem isMatch_shapes : ∃ c₁ c₃ : Checker,
    c₁.typeNamed "point" = some (.record ⟨1⟩) ∧ c₃.typeNamed "pixel" = some (.record ⟨3⟩) ∧
    c₃.types.isMatch (some (.record ⟨1⟩)) (some (.record ⟨3⟩)) = .ok true ∧
    c₁.typeNamed "list" = some (.record ⟨0⟩) ∧ c₃.typeNamed "chain" = some (.record ⟨2⟩) ∧
    c₃.types.isMatch (some (.record ⟨0⟩)) (some (.record ⟨2⟩)) = .ok false := by
  obtain ⟨ds, c₁, ds', c₃, hrun, hrun', ⟨hlist, hpoint⟩, ⟨hchain, hpixel⟩, -⟩ := exists_run_shapes
  have hrest : Checker.inBlock.AtRest := (Arrives.block .start rfl).atRest
  have hfirst := accepted_of_run hrest hrun
  have hrest₁ : c₁.entered.AtRest := hfirst.atRest.congr rfl rfl rfl
  have hall := isMatch_respelled_iff hrest hrun hrest₁ (Checker.extends_entered c₁).shape hrun'
    respelling_shapes fun n _ hn => hfirst.outer n hn
  obtain ⟨x, y, b, hx, hy, hb, hiff⟩ := hall _ _ List.mem_cons_self _ rfl
  obtain ⟨x', y', b', hx', hy', hb', hiff'⟩ :=
    hall _ _ (List.mem_cons_of_mem _ (List.mem_cons_of_mem _ List.mem_cons_self)) _ rfl
  rw [hlist] at hx
  rw [hchain] at hy
  rw [hpoint] at hx'
  rw [hpixel] at hy'
  cases hx
  cases hy
  cases hx'
  cases hy'
  have hleads : LeadsToRecord (shapes "list" "row" "point") "list" := ⟨_, List.mem_cons_self, rfl, .refl⟩
  have hrow : ¬ LeadsToRecord (shapes "list" "row" "point") "row" :=
    not_leadsToRecord (S := (· = "row")) rfl (by decide)
  have hb₀ : ¬ b = true := fun h => hiff.mp h _ (List.mem_cons_of_mem _ List.mem_cons_self) hleads
  have hb₁ : b' = true := hiff'.mpr fun f hf => by
    rw [List.mem_singleton.mp hf]
    exact hrow
  rw [Bool.not_eq_true] at hb₀
  exact ⟨c₁, c₃, hpoint, hpixel, hb₁ ▸ hb', hlist, hchain, hb₀ ▸ hb⟩

end TigerCheck
