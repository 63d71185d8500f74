import Mathlib.Data.List.Chain
import TigerCheck.Checker.TypeName
import TigerCheck.Proofs.Ty.Shape
import TigerCheck.Proofs.Yields

/-!
# How a type name is resolved, step by step

What the resolution of a type name does to the state, as a relation. A declaration is resolved by
finding the names of its right-hand side from left to right, each of which may resolve further
declarations; the relation has one rule for each way in which that can end.

* `TypeBody.mentions`, `TypeDec.shape`: the names in a right-hand side, and the entry it amounts to.
* `Checker.status`, `Checker.mark`: how far a type name has been resolved, and setting that.
* `HandsOut`, `Completes`: giving a declaration an entry ahead of time, and filling its entry.
* `Resolves`, `Finds`: resolving one declaration, and finding several names.
* `Checker.Advances`: what no resolution ever undoes.
* **`Resolves.advances`**, **`Resolves.open_chain`**: resolution advances, and leaves the declarations of its
  chain unsettled.
-/

namespace TigerCheck

/-- The names of types in a right-hand side, from left to right. -/
def TypeBody.mentions : TypeBody → List Ident
  | synonym target => [target]
  | record fields => fields.map (·.typeName)
  | array element => [element]

/-- The entry of a declaration whose names stand for the given types. Without types it is the entry
that is handed out ahead of time. -/
def TypeDec.shape (dec : TypeDec) (ts : List Ty) : Shape :=
  match dec.body with
  | .array _ => .array ⟨dec.name.name, ts.head?⟩
  | .record fields =>
    .record ⟨dec.name.name, List.zipWith (fun f t => ⟨f.name.name, t⟩) fields ts⟩
  | .synonym _ => .record ⟨dec.name.name, []⟩

theorem TypeDec.mem_of_mem_types {dec : TypeDec} {ts : List Ty} {u : Ty}
    (h : u ∈ (dec.shape ts).types) : u ∈ ts := by
  unfold shape at h
  split at h
  · exact List.mem_of_mem_head? (Option.mem_toList.mp h)
  · next fields _ =>
    have hsub : ∀ fs : List TypedName, ∀ us : List Ty,
        u ∈ (List.zipWith (fun f t => (⟨f.name.name, t⟩ : Field)) fs us).map (·.ty) → u ∈ us := by
      intro fs
      induction fs with
      | nil => intro us hu; simp at hu
      | cons f fs ih =>
        intro us hu
        cases us with
        | nil => simp at hu
        | cons v us =>
          rw [List.zipWith_cons_cons, List.map_cons, List.mem_cons] at hu
          rcases hu with rfl | hu
          · exact List.mem_cons_self
          · exact List.mem_cons_of_mem _ (ih us hu)
    exact hsub fields ts h
  · simp [Shape.types] at h

/-! ## The state of a type name -/

/-- What can happen to the state of a type name: an entry is handed out, or the declaration is
settled. -/
inductive NamedType.Step : NamedType → NamedType → Prop where
  | refl (s : NamedType) : Step s s
  | handOut (dec : TypeDec) (t : Ty) : Step (.pending dec none) (.pending dec (some t))
  | resolve (dec : TypeDec) (h : Option Ty) (t : Ty) : Step (.pending dec h) (.resolved t)
  | poison (dec : TypeDec) (h : Option Ty) : Step (.pending dec h) .poisoned

theorem NamedType.Step.trans {r s t : NamedType} (h : Step r s) (h' : Step s t) : Step r t := by
  cases h with
  | refl => exact h'
  | handOut dec u =>
    cases h' with
    | refl => exact .handOut dec u
    | resolve _ _ v => exact .resolve dec none v
    | poison => exact .poison dec none
  | resolve dec h u => cases h'; exact .resolve dec h u
  | poison dec h => cases h'; exact .poison dec h

/-- How a declaration is settled, by the type that was found for it. -/
def NamedType.outcome : Option Ty → NamedType
  | some t => .resolved t
  | none => .poisoned

namespace Checker

variable {c c' : Checker} {id k : NamedTypeId}

/-- How far a type name has been resolved, if it is in the table. -/
def status (c : Checker) (id : NamedTypeId) : Option NamedType := c.namedTypes[id.index]?

/-- Set how far a type name has been resolved. -/
def mark (c : Checker) (id : NamedTypeId) (s : NamedType) : Checker :=
  { c with namedTypes := c.namedTypes.setIfInBounds id.index s }

/-- Whether a type name is that of a record or an array which is being resolved. -/
def constructs (c : Checker) (id : NamedTypeId) : Bool :=
  match c.status id with
  | some (.pending dec _) => !dec.body.isSynonym
  | _ => false

/-- No declaration of a chain is settled. -/
def Open (c : Checker) (chain : List NamedTypeId) : Prop :=
  ∀ id ∈ chain, ∃ dec h, c.status id = some (.pending dec h)

theorem Open.concat {chain : List NamedTypeId} {dec : TypeDec} {h : Option Ty} (ho : c.Open chain)
    (hs : c.status id = some (.pending dec h)) : c.Open (chain ++ [id]) := by
  intro k hk
  rcases List.mem_append.mp hk with hk | hk
  · exact ho k hk
  · rw [List.mem_singleton.mp hk]
    exact ⟨dec, h, hs⟩

theorem lt_of_status {s : NamedType} (h : c.status id = some s) : id.index < c.namedTypes.size :=
  (Array.getElem?_eq_some_iff.mp h).1

theorem status_mark_self {s s' : NamedType} (h : c.status id = some s') :
    (c.mark id s).status id = some s := by
  simp [status, mark, lt_of_status h]

theorem status_mark_ne {s : NamedType} (h : k ≠ id) : (c.mark id s).status k = c.status k := by
  have hne : id.index ≠ k.index := fun h' => h (by cases id; cases k; simp_all)
  simp [status, mark, hne]

/-- What no resolution undoes: it leaves the scopes and the frames alone, type names advance, types
keep their handles, and diagnostics stay. -/
structure Advances (c c' : Checker) : Prop where
  values_eq : c'.values = c.values
  typeNames_eq : c'.typeNames = c.typeNames
  functions_eq : c'.functions = c.functions
  frames_eq : c'.frames = c.frames
  mainFrame_eq : c'.mainFrame = c.mainFrame
  size_eq : c'.namedTypes.size = c.namedTypes.size
  step : ∀ id s, c.status id = some s → ∃ s', c'.status id = some s' ∧ s.Step s'
  has : ∀ t, c.types.Has t → c'.types.Has t
  diagnostics_le : c.diagnostics.size ≤ c'.diagnostics.size

namespace Advances

variable {d : Checker}

theorem refl (c : Checker) : Advances c c :=
  ⟨rfl, rfl, rfl, rfl, rfl, rfl, fun _ s h => ⟨s, h, .refl s⟩, fun _ h => h, Nat.le_refl _⟩

theorem trans (h : Advances c c') (h' : Advances c' d) : Advances c d where
  values_eq := h'.values_eq.trans h.values_eq
  typeNames_eq := h'.typeNames_eq.trans h.typeNames_eq
  functions_eq := h'.functions_eq.trans h.functions_eq
  frames_eq := h'.frames_eq.trans h.frames_eq
  mainFrame_eq := h'.mainFrame_eq.trans h.mainFrame_eq
  size_eq := h'.size_eq.trans h.size_eq
  step id s hs := by
    obtain ⟨s', hs', hstep⟩ := h.step id s hs
    obtain ⟨s'', hs'', hstep'⟩ := h'.step id s' hs'
    exact ⟨s'', hs'', hstep.trans hstep'⟩
  has t ht := h'.has t (h.has t ht)
  diagnostics_le := Nat.le_trans h.diagnostics_le h'.diagnostics_le

theorem reported (c : Checker) (fault : Fault) (loc : Location) :
    Advances c (c.reported fault loc) :=
  ⟨rfl, rfl, rfl, rfl, rfl, rfl, fun _ s h => ⟨s, h, .refl s⟩, fun _ h => h, by
    simp [Checker.reported, Checker.note]⟩

theorem note (c : Checker) (e : Event) : Advances c (c.note e) :=
  ⟨rfl, rfl, rfl, rfl, rfl, rfl, fun _ s h => ⟨s, h, .refl s⟩, fun _ h => h, Nat.le_refl _⟩

theorem mark {s s' : NamedType} (hs : c.status id = some s) (hstep : s.Step s') :
    Advances c (c.mark id s') where
  values_eq := rfl
  typeNames_eq := rfl
  functions_eq := rfl
  frames_eq := rfl
  mainFrame_eq := rfl
  size_eq := by simp [Checker.mark]
  step k r hr := by
    by_cases hk : k = id
    · subst hk
      rw [hs] at hr
      cases hr
      exact ⟨s', status_mark_self hs, hstep⟩
    · exact ⟨r, by rw [status_mark_ne hk, hr], .refl r⟩
  has _ h := h
  diagnostics_le := Nat.le_refl _

theorem puts {t : Ty} {s : Shape} {b : Arena} (h : c.types.Puts t s b) :
    Advances c { c with types := b } :=
  ⟨rfl, rfl, rfl, rfl, rfl, rfl, fun _ s h => ⟨s, h, .refl s⟩, fun _ ht => h.has ht, Nat.le_refl _⟩

/-- What is settled stays as it is. -/
theorem outcome {r : Option Ty} (h : Advances c c') (hs : c.status id = some (.outcome r)) :
    c'.status id = some (.outcome r) := by
  obtain ⟨s, hs', hstep⟩ := h.step id _ hs
  cases r <;> cases hstep <;> exact hs'

/-- What is resolved stays resolved. -/
theorem resolved {t : Ty} (h : Advances c c') (hs : c.status id = some (.resolved t)) :
    c'.status id = some (.resolved t) := by
  obtain ⟨s, hs', hstep⟩ := h.step id _ hs
  cases hstep
  exact hs'

theorem poisoned (h : Advances c c') (hs : c.status id = some .poisoned) :
    c'.status id = some .poisoned := by
  obtain ⟨s, hs', hstep⟩ := h.step id _ hs
  cases hstep
  exact hs'

/-- A declaration that is not settled yet was not settled before. -/
theorem pending {dec : TypeDec} {o : Option Ty} (h : Advances c c')
    (hs : c'.status id = some (.pending dec o)) : ∃ o', c.status id = some (.pending dec o') := by
  have hlt : id.index < c.namedTypes.size := h.size_eq ▸ lt_of_status hs
  obtain ⟨s, hs', hstep⟩ := h.step id c.namedTypes[id.index] (Array.getElem?_eq_getElem hlt)
  have hc : c.status id = some c.namedTypes[id.index] := Array.getElem?_eq_getElem hlt
  rw [hs] at hs'
  cases hs'
  generalize c.namedTypes[id.index] = r at hstep hc
  cases hstep with
  | refl => exact ⟨o, hc⟩
  | handOut => exact ⟨none, hc⟩

end Advances

end Checker

/-! ## The steps of a resolution -/

/-- A record or an array that is being resolved is referred to: it has an entry already, or gets one
without contents. -/
inductive HandsOut (id : NamedTypeId) (c : Checker) : Ty → Checker → Prop where
  | again {dec : TypeDec} {t : Ty} : c.status id = some (.pending dec (some t)) → HandsOut id c t c
  | new {dec : TypeDec} {t : Ty} {b : Arena} : c.status id = some (.pending dec none) →
      c.types.shape t = none → c.types.Puts t (dec.shape []) b →
      HandsOut id c t (Checker.mark { c with types := b } id (.pending dec (some t)))

/-- A record or an array whose names are found gets its contents: in the entry that was handed out, or
in a new one. -/
inductive Completes (id : NamedTypeId) (dec : TypeDec) (ts : List Ty) (c : Checker) :
    Ty → Checker → Prop where
  | again {t : Ty} {b : Arena} : c.status id = some (.pending dec (some t)) →
      c.types.Puts t (dec.shape ts) b → Completes id dec ts c t { c with types := b }
  | new {t : Ty} {b : Arena} : c.status id = some (.pending dec none) →
      c.types.shape t = none → c.types.Puts t (dec.shape ts) b →
      Completes id dec ts c t { c with types := b }

/-- What happens at once where a declaration is met: it is settled already, or it is being resolved,
and the reference leads to the first record or array from there on, or to none. -/
inductive Meets (chain : List NamedTypeId) (id : NamedTypeId) (c : Checker) :
    Option Ty → Checker → Prop where
  | resolved {t : Ty} : c.status id = some (.resolved t) → Meets chain id c (some t) c
  | poisoned : c.status id = some .poisoned → Meets chain id c none c
  | again {dec : TypeDec} {h : Option Ty} {k : NamedTypeId} {t : Ty} {c' : Checker} :
      c.status id = some (.pending dec h) → id ∈ chain →
      (chain.dropWhile (· ≠ id)).find? c.constructs = some k → HandsOut k c t c' →
      Meets chain id c (some t) c'
  | endless {dec : TypeDec} {h : Option Ty} : c.status id = some (.pending dec h) → id ∈ chain →
      (chain.dropWhile (· ≠ id)).find? c.constructs = none →
      Meets chain id c none (c.reported (.endlessTypeLoop dec.name.name) dec.name.loc)

/-- A declaration is settled, given what the names of its right-hand side stand for. -/
inductive Settles (id : NamedTypeId) (dec : TypeDec) (c : Checker) :
    List (Option Ty) → Option Ty → Checker → Prop where
  | synonym {target : Ident} {t : Ty} {text : String} : dec.body = .synonym target →
      Settles id dec c [some t] (some t)
        (Checker.mark (c.note (.typeResolved dec.name.name text)) id (.resolved t))
  | constructed {ts : List Ty} {t : Ty} {c' : Checker} {text : String} :
      dec.body.isSynonym = false → Completes id dec ts c t c' →
      Settles id dec c (ts.map some) (some t)
        (Checker.mark (c'.note (.typeResolved dec.name.name text)) id (.resolved t))
  | failed {rs : List (Option Ty)} : none ∈ rs → Settles id dec c rs none (c.mark id .poisoned)

/-- Names are found from left to right, given the chain of declarations that are being resolved. A
name of a declaration that is neither settled nor in the chain has its right-hand side resolved. -/
inductive Finds : List NamedTypeId → List Ident → Checker → List (Option Ty) → Checker → Prop where
  | nil {chain : List NamedTypeId} {c : Checker} : Finds chain [] c [] c
  | undefined {chain : List NamedTypeId} {m : Ident} {ms : List Ident} {c c' : Checker}
      {rs : List (Option Ty)} :
      c.typeNames.lookup m.name = none →
      Finds chain ms (c.reported (.undefinedType m.name) m.loc) rs c' →
      Finds chain (m :: ms) c (none :: rs) c'
  | met {chain : List NamedTypeId} {m : Ident} {ms : List Ident} {c c₁ c' : Checker}
      {id : NamedTypeId} {r : Option Ty} {rs : List (Option Ty)} :
      c.typeNames.lookup m.name = some id → Meets chain id c r c₁ → Finds chain ms c₁ rs c' →
      Finds chain (m :: ms) c (r :: rs) c'
  | settled {chain : List NamedTypeId} {m : Ident} {ms : List Ident} {c c₁ c₂ c' : Checker}
      {id : NamedTypeId} {dec : TypeDec} {h r : Option Ty} {qs rs : List (Option Ty)} :
      c.typeNames.lookup m.name = some id → c.status id = some (.pending dec h) → id ∉ chain →
      Finds (chain ++ [id]) dec.body.mentions c qs c₁ → Settles id dec c₁ qs r c₂ →
      Finds chain ms c₂ rs c' → Finds chain (m :: ms) c (r :: rs) c'

/-! ## Resolution advances -/

variable {chain : List NamedTypeId} {id k : NamedTypeId} {c c' : Checker} {r : Option Ty}
  {ms : List Ident} {rs : List (Option Ty)} {dec : TypeDec} {ts : List Ty} {t : Ty}

theorem HandsOut.advances (h : HandsOut id c t c') : c.Advances c' := by
  cases h with
  | again => exact .refl c
  | new hs _ hb => exact (Checker.Advances.puts hb).trans (.mark hs (.handOut _ _))

theorem HandsOut.pending (h : HandsOut id c t c') {o : Option Ty}
    (hk : c.status k = some (.pending dec o)) : ∃ o', c'.status k = some (.pending dec o') := by
  cases h with
  | again => exact ⟨o, hk⟩
  | new hs hfresh hb =>
    by_cases hkid : k = id
    · subst hkid
      rw [hs] at hk
      cases hk
      exact ⟨_, Checker.status_mark_self (c := { c with types := _ }) hs⟩
    · exact ⟨o, (Checker.status_mark_ne hkid).trans hk⟩

theorem Completes.eq_withTypes (h : Completes id dec ts c t c') :
    ∃ b, c' = { c with types := b } ∧ c.types.Puts t (dec.shape ts) b := by
  cases h with
  | again _ hb => exact ⟨_, rfl, hb⟩
  | new _ _ hb => exact ⟨_, rfl, hb⟩

theorem Completes.advances (h : Completes id dec ts c t c') : c.Advances c' := by
  obtain ⟨b, rfl, hb⟩ := h.eq_withTypes
  exact .puts hb

theorem Completes.status_eq (h : Completes id dec ts c t c') (k : NamedTypeId) :
    c'.status k = c.status k := by
  obtain ⟨b, rfl, -⟩ := h.eq_withTypes
  rfl

theorem Meets.advances (h : Meets chain id c r c') : c.Advances c' := by
  cases h with
  | resolved => exact .refl c
  | poisoned => exact .refl c
  | again _ _ _ hout => exact hout.advances
  | endless => exact .reported _ _ _

theorem Meets.open_chain {chain' : List NamedTypeId} (h : Meets chain id c r c')
    (ho : c.Open chain') : c'.Open chain' := by
  cases h with
  | resolved => exact ho
  | poisoned => exact ho
  | again _ _ _ hout =>
    intro k hk
    obtain ⟨dec, o, hs⟩ := ho k hk
    exact ⟨dec, hout.pending hs⟩
  | endless => exact ho

theorem Settles.advances {dec' : TypeDec} {o : Option Ty} (h : Settles id dec c rs r c')
    (hs : c.status id = some (.pending dec' o)) : c.Advances c' := by
  cases h with
  | synonym => exact (Checker.Advances.note _ _).trans (.mark hs (.resolve _ _ _))
  | constructed _ hc =>
    exact hc.advances.trans
      ((Checker.Advances.note _ _).trans (.mark ((hc.status_eq id).trans hs) (.resolve _ _ _)))
  | failed => exact .mark hs (.poison _ _)

theorem Settles.status_ne (h : Settles id dec c rs r c') (hk : k ≠ id) :
    c'.status k = c.status k := by
  cases h with
  | synonym => exact Checker.status_mark_ne hk
  | constructed _ hc => exact (Checker.status_mark_ne hk).trans (hc.status_eq k)
  | failed => exact Checker.status_mark_ne hk

theorem Settles.status_self {s : NamedType} (h : Settles id dec c rs r c')
    (hs : c.status id = some s) :
    c'.status id = some (.outcome r) := by
  cases h with
  | synonym => exact Checker.status_mark_self (c := Checker.note _ _) hs
  | constructed _ hc =>
    exact Checker.status_mark_self (c := Checker.note _ _) ((hc.status_eq id).trans hs)
  | failed => exact Checker.status_mark_self hs

/-- The state after a declaration is settled is open for the chain that it was met under. -/
theorem Settles.open_chain (h : Settles id dec c rs r c') (ho : c.Open (chain ++ [id]))
    (hid : id ∉ chain) : c'.Open chain := by
  intro k hk
  have hne : k ≠ id := fun h => hid (h ▸ hk)
  rw [h.status_ne hne]
  exact ho k (List.mem_append_left _ hk)

/-- The declarations of a chain are not settled while what they mention is found. -/
theorem Finds.open_chain (h : Finds chain ms c rs c') (ho : c.Open chain) : c'.Open chain := by
  induction h with
  | nil => exact ho
  | undefined _ _ ih => exact ih ho
  | met _ hm _ ih => exact ih (hm.open_chain ho)
  | @settled chain m ms c c₁ c₂ c' id dec o r qs rs _ hs hid _ hset _ ih₁ ih₂ =>
    exact ih₂ (hset.open_chain (ih₁ (ho.concat hs)) hid)

/-- **Finding names advances the state.** -/
theorem Finds.advances (h : Finds chain ms c rs c') (ho : c.Open chain) : c.Advances c' := by
  induction h with
  | nil => exact .refl _
  | undefined _ _ ih => exact (Checker.Advances.reported _ _ _).trans (ih ho)
  | met _ hm _ ih => exact hm.advances.trans (ih (hm.open_chain ho))
  | @settled chain m ms c c₁ c₂ c' id dec o r qs rs _ hs hid hf hset _ ih₁ ih₂ =>
    have ho₁ : c₁.Open (chain ++ [id]) := hf.open_chain (ho.concat hs)
    obtain ⟨dec', o', hs'⟩ := ho₁ id (by simp)
    exact (ih₁ (ho.concat hs)).trans
      ((hset.advances hs').trans (ih₂ (hset.open_chain ho₁ hid)))

/-- **Every name that is found has its declaration settled**, unless that is being resolved already. -/
theorem Finds.settles (h : Finds chain ms c rs c') (ho : c.Open chain) :
    List.Forall₂ (fun m r => ∀ k, c.typeNames.lookup m.name = some k → k ∉ chain →
      c'.status k = some (.outcome r)) ms rs := by
  induction h with
  | nil => exact .nil
  | undefined hl hf ih =>
    exact .cons (fun k hk => by rw [hl] at hk; cases hk) (ih ho)
  | @met chain m ms c c₁ c' id r rs hl hm hf ih =>
    have hadv := hf.advances (hm.open_chain ho)
    refine .cons (fun k hk hnot => ?_) ?_
    · rw [hl] at hk
      cases hk
      cases hm with
      | resolved hs => exact hadv.outcome hs
      | poisoned hs => exact hadv.outcome hs
      | again _ hmem => exact absurd hmem hnot
      | endless _ hmem => exact absurd hmem hnot
    · rw [← hm.advances.typeNames_eq]
      exact ih (hm.open_chain ho)
  | @settled chain m ms c c₁ c₂ c' id dec o r qs rs hl hs hid hf hset hrest ih₁ ih₂ =>
    have ho₁ : c₁.Open (chain ++ [id]) := hf.open_chain (ho.concat hs)
    obtain ⟨dec', o', hs₁⟩ := ho₁ id (by simp)
    have ho₂ := hset.open_chain ho₁ hid
    have hnames : c₂.typeNames = c.typeNames :=
      (hset.advances hs₁).typeNames_eq.trans (hf.advances (ho.concat hs)).typeNames_eq
    refine .cons (fun k hk _ => ?_) ?_
    · rw [hl] at hk
      cases hk
      exact (hrest.advances ho₂).outcome (hset.status_self hs₁)
    · rw [← hnames]
      exact ih₂ ho₂

/-! ## What is reported -/

/-- No declaration is poisoned. -/
def Checker.Clean (c : Checker) : Prop := ∀ id, c.status id ≠ some .poisoned

theorem Meets.quiet (h : Meets chain id c (some t) c') : c'.diagnostics = c.diagnostics := by
  cases h with
  | resolved => rfl
  | again _ _ _ hout => cases hout <;> rfl

/-- A declaration is settled without a report, and if it is resolved, its names are found. -/
theorem Settles.quiet (h : Settles id dec c rs r c') :
    c'.diagnostics = c.diagnostics ∧ (r ≠ none → none ∉ rs) := by
  cases h with
  | synonym => exact ⟨rfl, fun _ => by simp⟩
  | constructed _ hc =>
    obtain ⟨b, rfl, -⟩ := hc.eq_withTypes
    exact ⟨rfl, fun _ => by simp⟩
  | failed => exact ⟨rfl, fun h => absurd rfl h⟩

/-- **Where every name is found nothing is reported.** -/
theorem Finds.quiet (h : Finds chain ms c rs c') (hrs : none ∉ rs) :
    c'.diagnostics = c.diagnostics := by
  induction h with
  | nil => rfl
  | undefined => exact absurd List.mem_cons_self hrs
  | @met chain m ms c c₁ c' id r rs _ hm _ ih =>
    rw [List.mem_cons, not_or] at hrs
    obtain ⟨t, rfl⟩ := Option.ne_none_iff_exists'.mp (Ne.symm hrs.1)
    exact (ih hrs.2).trans hm.quiet
  | @settled chain m ms c c₁ c₂ c' id dec o r qs rs _ _ _ _ hset _ ih₁ ih₂ =>
    rw [List.mem_cons, not_or] at hrs
    rw [ih₂ hrs.2, hset.quiet.1, ih₁ (hset.quiet.2 (Ne.symm hrs.1))]

theorem HandsOut.clean (h : HandsOut id c t c') (hc : c.Clean) : c'.Clean := by
  cases h with
  | again => exact hc
  | @new dec _ b hs =>
    intro k hk
    by_cases hkid : k = id
    · rw [hkid, Checker.status_mark_self (c := { c with types := b }) hs] at hk
      cases hk
    · rw [Checker.status_mark_ne hkid] at hk
      exact hc k hk

theorem Meets.clean (h : Meets chain id c r c') (hc : c.Clean)
    (hd : c'.diagnostics.size = c.diagnostics.size) : c'.Clean ∧ r ≠ none := by
  cases h with
  | resolved => exact ⟨hc, by simp⟩
  | poisoned hs => exact absurd hs (hc id)
  | again _ _ _ hout => exact ⟨hout.clean hc, by simp⟩
  | endless => simp [Checker.reported, Checker.note] at hd

theorem Settles.clean {s : NamedType} (h : Settles id dec c rs r c') (hc : c.Clean)
    (hs : c.status id = some s) (hrs : none ∉ rs) : c'.Clean ∧ r ≠ none := by
  have hr : r ≠ none := by
    cases h with
    | failed hmem => exact absurd hmem hrs
    | _ => simp
  refine ⟨fun k hk => ?_, hr⟩
  by_cases hkid : k = id
  · subst hkid
    rw [h.status_self hs] at hk
    cases r with
    | none => exact hr rfl
    | some t => cases hk
  · exact hc k (h.status_ne hkid ▸ hk)

/-- **Where nothing is reported every name is found**, if nothing was poisoned before. -/
theorem Finds.clean (h : Finds chain ms c rs c') (ho : c.Open chain) (hc : c.Clean)
    (hd : c'.diagnostics.size = c.diagnostics.size) : c'.Clean ∧ none ∉ rs := by
  induction h with
  | nil => exact ⟨hc, List.not_mem_nil⟩
  | @undefined chain m ms c c' rs _ hf _ =>
    have hle := (hf.advances ho).diagnostics_le
    simp only [Checker.reported, Checker.note, Diagnostics.size_report] at hle
    omega
  | @met chain m ms c c₁ c' id r rs _ hm hf ih =>
    have hle := hm.advances.diagnostics_le
    have hle' := (hf.advances (hm.open_chain ho)).diagnostics_le
    obtain ⟨hc₁, hr⟩ := hm.clean hc (by omega)
    obtain ⟨hc', hrs⟩ := ih (hm.open_chain ho) hc₁ (by omega)
    exact ⟨hc', by simp [hr.symm, hrs]⟩
  | @settled chain m ms c c₁ c₂ c' id dec o r qs rs _ hs hid hf hset hrest ih₁ ih₂ =>
    have ho₁ : c₁.Open (chain ++ [id]) := hf.open_chain (ho.concat hs)
    obtain ⟨dec', o', hs₁⟩ := ho₁ id (by simp)
    have ho₂ := hset.open_chain ho₁ hid
    have hle := (hf.advances (ho.concat hs)).diagnostics_le
    have heq : c₂.diagnostics.size = c₁.diagnostics.size := by rw [hset.quiet.1]
    have hle' := (hrest.advances ho₂).diagnostics_le
    obtain ⟨hc₁, hqs⟩ := ih₁ (ho.concat hs) hc (by omega)
    obtain ⟨hc₂, hr⟩ := hset.clean hc₁ hs₁ hqs
    obtain ⟨hc', hrs⟩ := ih₂ ho₂ hc₂ (by omega)
    exact ⟨hc', by simp [hr.symm, hrs]⟩

/-- A declaration stays pending while the names of its right-hand side are found. -/
theorem Finds.pending {o : Option Ty} (h : Finds (chain ++ [id]) ms c rs c') (ho : c.Open chain)
    (hs : c.status id = some (.pending dec o)) : ∃ o', c'.status id = some (.pending dec o') := by
  obtain ⟨dec', o', hs'⟩ := h.open_chain (ho.concat hs) id (by simp)
  obtain ⟨o'', hs''⟩ := (h.advances (ho.concat hs)).pending hs'
  rw [hs] at hs''
  cases hs''
  exact ⟨o', hs'⟩

end TigerCheck
