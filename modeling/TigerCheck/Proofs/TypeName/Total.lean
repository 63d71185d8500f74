import Mathlib.Data.List.Nodup
import Mathlib.Data.List.Perm.Subperm
import TigerCheck.Proofs.TypeName.Building

/-!
# The resolution of type names ends

The resolution of a name does what the relation `Finds` says, and it never runs out of steps: a chain
holds no declaration twice, so it cannot grow longer than the table of type names.

* `Checker.Ready`: a state in the middle of a resolution.
* `yields_handOut`, `yields_meetAgain`, `yields_complete`, …: the parts of a resolution.
* **`yields_resolve`**: with enough steps for the declarations that are left, a declaration is resolved.
* **`yields_typeAt`**: so is every declaration of the table.
-/

namespace TigerCheck

/-- A state in the middle of a resolution, under a chain of declarations that are being resolved. -/
structure Checker.Ready (c₀ : Checker) (chain : List NamedTypeId) (c : Checker) : Prop where
  building : ∃ own, Building c₀ own c
  isOpen : c.Open chain

variable {c₀ c c' : Checker} {own : Owners} {chain : List NamedTypeId} {id k : NamedTypeId}
  {dec : TypeDec} {o : Option Ty} {t : Ty}

theorem Checker.Ready.after {ms : List Ident} {rs : List (Option Ty)} (hr : c₀.Ready chain c)
    (h0 : c₀.Opened) (h : Finds chain ms c rs c') (hlink : c₀.Links chain ms) :
    c₀.Ready chain c' := by
  obtain ⟨own, hb⟩ := hr.building
  obtain ⟨own', -, hb', -⟩ := h.building h0 hb hr.isOpen hlink
  exact ⟨⟨own', hb'⟩, h.open_chain hr.isOpen⟩

/-- One name after another. -/
theorem Finds.cons {m : Ident} {ms : List Ident} {r : Option Ty} {rs : List (Option Ty)}
    {c₁ : Checker} (h : Finds chain [m] c [r] c₁) (h' : Finds chain ms c₁ rs c') :
    Finds chain (m :: ms) c (r :: rs) c' := by
  cases h with
  | undefined hl hf => cases hf; exact .undefined hl h'
  | met hl hm hf => cases hf; exact .met hl hm h'
  | settled hl hs hid hq hset hf => cases hf; exact .settled hl hs hid hq hset h'

namespace Check

/-! ## Entries that are handed out -/

theorem yields_handOut (hs : c.status id = some (.pending dec o)) :
    Yields (handOut id dec) c (HandsOut id c) := by
  unfold handOut
  simp only [yields_bind, yields_namedType]
  refine ⟨_, hs, ?_⟩
  cases o with
  | some t => exact yields_pure.mpr (.again hs)
  | none =>
    have hlt := Checker.lt_of_status hs
    cases hb : dec.body with
    | array e =>
      have hp : dec.shape [] = .array ⟨dec.name.name, none⟩ := by simp [TypeDec.shape, hb]
      simp only [yields_bind, yields_newArray, yields_setNamedType, yields_pure]
      exact ⟨hlt, .new hs (Arena.shape_newArray_self _ none) (hp ▸ Arena.puts_newArray _ none)⟩
    | record fs =>
      have hp : dec.shape [] = .record ⟨dec.name.name, []⟩ := by simp [TypeDec.shape, hb]
      simp only [yields_bind, yields_newRecord, yields_setNamedType, yields_pure]
      exact ⟨hlt, .new hs (Arena.shape_newRecord_self _ []) (hp ▸ Arena.puts_newRecord _ [])⟩
    | synonym m =>
      have hp : dec.shape [] = .record ⟨dec.name.name, []⟩ := by simp [TypeDec.shape, hb]
      simp only [yields_bind, yields_newRecord, yields_setNamedType, yields_pure]
      exact ⟨hlt, .new hs (Arena.shape_newRecord_self _ []) (hp ▸ Arena.puts_newRecord _ [])⟩

/-- The search for a record or an array along an open chain leaves the state alone. -/
theorem yields_firstConstructed : ∀ {ids : List NamedTypeId}, c.Open ids →
    Yields (firstConstructed ids) c fun r c' => c' = c ∧
      ids.find? c.constructs = r.map (·.1) ∧
      ∀ p, r = some p → ∃ o, c.status p.1 = some (.pending p.2 o)
  | [], _ => yields_pure.mpr ⟨rfl, rfl, by simp⟩
  | id :: ids, ho => by
    obtain ⟨dec, o, hs⟩ := ho id List.mem_cons_self
    have hrest := yields_firstConstructed fun k hk => ho k (List.mem_cons_of_mem _ hk)
    rw [firstConstructed, yields_bind, yields_namedType]
    refine ⟨_, hs, ?_⟩
    dsimp only
    have hc : c.constructs id = !dec.body.isSynonym := by rw [Checker.constructs, hs]
    cases hsyn : dec.body.isSynonym with
    | true =>
      rw [List.find?_cons_of_neg (by simp [hc, hsyn])]
      simpa using hrest
    | false =>
      rw [List.find?_cons_of_pos (by simp [hc, hsyn])]
      rw [if_neg Bool.false_ne_true, yields_pure]
      refine ⟨rfl, rfl, fun p hp => ?_⟩
      cases hp
      exact ⟨o, hs⟩

theorem yields_meetAgain (ho : c.Open chain) (hid : id ∈ chain)
    (hs : c.status id = some (.pending dec o)) :
    Yields (meetAgain id dec chain) c (Meets chain id c) := by
  obtain ⟨pre, post, hchain, hdrop⟩ := dropWhile_ne_eq hid
  have hafter : after id chain = post := by rw [after, hdrop, List.tail_cons]
  have hc : c.constructs id = !dec.body.isSynonym := by rw [Checker.constructs, hs]
  unfold meetAgain
  cases hsyn : dec.body.isSynonym with
  | true =>
    have hopen : c.Open post := fun k hk =>
      ho k (hchain ▸ List.mem_append_right _ (List.mem_cons_of_mem _ hk))
    have hfind : (chain.dropWhile (· ≠ id)).find? c.constructs = post.find? c.constructs := by
      rw [hdrop, List.find?_cons_of_neg (by simp [hc, hsyn])]
    rw [if_pos rfl, hafter, yields_bind]
    refine (yields_firstConstructed hopen).mono fun r c₁ h => ?_
    obtain ⟨rfl, hr, hp⟩ := h
    cases r with
    | none => exact yields_fail.mpr (.endless hs hid (hfind.trans hr))
    | some p =>
      obtain ⟨o', hs'⟩ := hp p rfl
      exact yields_map.mpr ((yields_handOut hs').mono fun t c' hout =>
        .again hs hid (hfind.trans hr) hout)
  | false =>
    have hfind : (chain.dropWhile (· ≠ id)).find? c.constructs = some id := by
      rw [hdrop, List.find?_cons_of_pos (by simp [hc, hsyn])]
    rw [if_neg (by simp)]
    exact yields_map.mpr ((yields_handOut hs).mono fun t c' hout => .again hs hid hfind hout)

/-! ## Right-hand sides -/

/-- Fields are found if the names of their types are. -/
theorem yields_resolveFields {find : Ident → Check (Option Ty)} {I : Checker → Prop} :
    ∀ {fields : List TypedName} {c : Checker},
      (∀ f ∈ fields, ∀ c, I c → Yields (find f.typeName) c fun r c' =>
        Finds chain [f.typeName] c [r] c' ∧ I c') → I c →
      Yields (resolveFields find fields) c fun r c' =>
        ∃ rs, Finds chain (fields.map (·.typeName)) c rs c' ∧ I c' ∧
          ((r = none ∧ none ∈ rs) ∨ ∃ ts : List Ty, rs = ts.map some ∧
            r = some (List.zipWith (fun f t => ⟨f.name.name, t⟩) fields ts))
  | [], c, _, hi => yields_pure.mpr ⟨[], .nil, hi, Or.inr ⟨[], rfl, rfl⟩⟩
  | f :: fields, c, hfind, hi => by
    rw [resolveFields, yields_bind]
    refine (hfind f List.mem_cons_self c hi).mono fun r c₁ h => ?_
    rw [yields_bind]
    refine (yields_resolveFields (fun g hg => hfind g (List.mem_cons_of_mem _ hg)) h.2).mono
      fun r' c₂ h' => ?_
    obtain ⟨rs, hf, hi', hrs⟩ := h'
    rw [yields_pure]
    refine ⟨r :: rs, h.1.cons hf, hi', ?_⟩
    rcases hrs with ⟨rfl, hnone⟩ | ⟨ts, rfl, rfl⟩
    · exact Or.inl ⟨by cases r <;> rfl, List.mem_cons_of_mem _ hnone⟩
    · cases r with
      | none => exact Or.inl ⟨rfl, List.mem_cons_self⟩
      | some t => exact Or.inr ⟨t :: ts, rfl, rfl⟩

/-- The entry that was handed out for a declaration is blank. -/
theorem shape_handedOut (hb : Building c₀ own c) (h0 : c₀.Opened)
    (hs : c.status id = some (.pending dec (some t))) : c.types.shape t = some (dec.shape []) := by
  obtain ⟨dec', ho⟩ := hb.owned id t (hb.pending _ _ _ hs)
  have hdec := ho.declared.symm.trans (hb.declared h0 hs)
  cases hdec
  exact ho.blank fun u hu => by rw [hs] at hu; cases hu

theorem yields_completeRecord {fields : List TypedName} {ts : List Ty} (hb : Building c₀ own c)
    (h0 : c₀.Opened) (hbody : dec.body = .record fields)
    (hs : c.status id = some (.pending dec o)) :
    Yields (completeRecord id dec.name.name
      (List.zipWith (fun f t => ⟨f.name.name, t⟩) fields ts)) c (Completes id dec ts c) := by
  have hshape : ∀ us, dec.shape us = .record ⟨dec.name.name,
      List.zipWith (fun f t => ⟨f.name.name, t⟩) fields us⟩ := by
    intro us
    rw [TypeDec.shape, hbody]
  unfold completeRecord
  rw [yields_bind, yields_namedType]
  refine ⟨_, hs, ?_⟩
  cases o with
  | none =>
    rw [yields_newRecord]
    exact .new hs (Arena.shape_newRecord_self ..) (hshape ts ▸ Arena.puts_newRecord _ _)
  | some t =>
    have hblank := shape_handedOut hb h0 hs
    rw [hshape, Arena.shape_eq_record_iff] at hblank
    obtain ⟨r, rfl, he⟩ := hblank
    obtain ⟨b, hset, hp⟩ := Arena.puts_setFields
      (List.zipWith (fun f t => ⟨f.name.name, t⟩) fields ts)
      (Arena.shape_eq_record_iff.mpr ⟨r, rfl, he⟩)
    dsimp only
    rw [yields_bind, yields_setFields]
    refine ⟨b, hset, yields_pure.mpr (.again hs ?_)⟩
    rw [hshape]
    exact hp

theorem yields_completeArray {element : Ident} (hb : Building c₀ own c) (h0 : c₀.Opened)
    (hbody : dec.body = .array element) (hs : c.status id = some (.pending dec o)) (u : Ty) :
    Yields (completeArray id dec.name.name u) c (Completes id dec [u] c) := by
  have hshape : ∀ us, dec.shape us = .array ⟨dec.name.name, us.head?⟩ := by
    intro us
    rw [TypeDec.shape, hbody]
  unfold completeArray
  rw [yields_bind, yields_namedType]
  refine ⟨_, hs, ?_⟩
  cases o with
  | none =>
    rw [yields_newArray]
    exact .new hs (Arena.shape_newArray_self ..) (hshape [u] ▸ Arena.puts_newArray _ _)
  | some t =>
    have hblank := shape_handedOut hb h0 hs
    rw [hshape, Arena.shape_eq_array_iff] at hblank
    obtain ⟨a, rfl, he⟩ := hblank
    obtain ⟨b, hset, hp⟩ := Arena.puts_setElement u (Arena.shape_eq_array_iff.mpr ⟨a, rfl, he⟩)
    dsimp only
    rw [yields_bind, yields_setElement]
    refine ⟨b, hset, yields_pure.mpr (.again hs ?_)⟩
    rw [hshape]
    exact hp

/-- A type that has a name is noted, and its declaration is resolved. -/
theorem yields_settle {s : NamedType} (hs : c.status id = some s) (ht : c.types.Has t)
    (name : String) {Q : Unit → Checker → Prop}
    (h : ∀ text, Q () (Checker.mark (c.note (.typeResolved name text)) id (.resolved t))) :
    Yields (settle id name (some t)) c Q := by
  obtain ⟨text, htext⟩ := Arena.display_total ht
  simp only [settle, yields_bind, yields_get, yields_lift, yields_log, yields_setNamedType]
  exact ⟨text, htext, Checker.lt_of_status hs, h text⟩

theorem yields_settle_none {s : NamedType} (hs : c.status id = some s) (name : String)
    {Q : Unit → Checker → Prop} (h : Q () (c.mark id .poisoned)) :
    Yields (settle id name none) c Q :=
  yields_setNamedType.mpr ⟨Checker.lt_of_status hs, h⟩

/-- **The right-hand side of a declaration is resolved, and the declaration is settled.** -/
theorem yields_rightHandSide {find : Ident → Check (Option Ty)} (h0 : c₀.Opened)
    (hfind : ∀ m ∈ dec.body.mentions, ∀ c, c₀.Ready (chain ++ [id]) c →
      Yields (find m) c fun r c' =>
        Finds (chain ++ [id]) [m] c [r] c' ∧ c₀.Ready (chain ++ [id]) c')
    (hr : c₀.Ready (chain ++ [id]) c) (hs : c.status id = some (.pending dec o))
    (ho : c.Open chain) (hlink : c₀.Links (chain ++ [id]) dec.body.mentions) :
    Yields (do let ty ← complete find id dec; settle id dec.name.name ty; return ty) c fun r c' =>
      ∃ qs c₁, Finds (chain ++ [id]) dec.body.mentions c qs c₁ ∧ Settles id dec c₁ qs r c' := by
  have hhas : ∀ m ∈ dec.body.mentions, ∀ c' t, Finds (chain ++ [id]) [m] c [some t] c' →
      c'.types.Has t := by
    intro m hm c' t hf
    obtain ⟨own, hb⟩ := hr.building
    obtain ⟨own', -, hb', hd⟩ := hf.building h0 hb hr.isOpen fun m' hm' =>
      hlink m' (List.mem_singleton.mp hm' ▸ hm)
    obtain ⟨k, -, hst⟩ := (List.forall₂_cons.mp hd).1 t rfl
    exact hb'.has_of_stands h0 hst
  rw [yields_bind]
  unfold complete
  cases hbody : dec.body with
  | synonym m =>
    have hm : m ∈ dec.body.mentions := by rw [hbody]; exact List.mem_singleton_self m
    refine (hfind m hm c hr).mono fun r c₁ h => ?_
    obtain ⟨o', hs'⟩ := h.1.pending ho hs
    rw [yields_bind]
    cases r with
    | none =>
      exact yields_settle_none hs' _ (yields_pure.mpr ⟨[none], c₁, h.1, .failed (by simp)⟩)
    | some t =>
      exact yields_settle hs' (hhas m hm c₁ t h.1) _ fun text =>
        yields_pure.mpr ⟨[some t], c₁, h.1, .synonym hbody⟩
  | record fields =>
    have hm : ∀ f ∈ fields, f.typeName ∈ dec.body.mentions := fun f hf => by
      rw [hbody]
      exact List.mem_map_of_mem hf
    have hsyn : dec.body.isSynonym = false := by rw [hbody]; rfl
    rw [yields_bind]
    refine (yields_resolveFields (fun f hf => hfind f.typeName (hm f hf)) hr).mono fun r c₁ h => ?_
    obtain ⟨qs, hf, ⟨⟨own, hb⟩, -⟩, hqs⟩ := h
    obtain ⟨o', hs'⟩ := hf.pending ho hs
    rcases hqs with ⟨rfl, hnone⟩ | ⟨ts, rfl, rfl⟩
    · rw [yields_pure, yields_bind]
      exact yields_settle_none hs' _ (yields_pure.mpr ⟨qs, c₁, hf, .failed hnone⟩)
    · rw [yields_map]
      refine (yields_completeRecord hb h0 hbody hs').mono fun t c₂ hc => ?_
      obtain ⟨b, rfl, hp⟩ := hc.eq_withTypes
      rw [yields_bind]
      exact yields_settle ((hc.status_eq id).trans hs') hp.has_self _ fun text =>
        yields_pure.mpr ⟨_, c₁, hf, .constructed hsyn hc⟩
  | array element =>
    have hm : element ∈ dec.body.mentions := by rw [hbody]; exact List.mem_singleton_self element
    have hsyn : dec.body.isSynonym = false := by rw [hbody]; rfl
    rw [yields_bind]
    refine (hfind element hm c hr).mono fun r c₁ h => ?_
    obtain ⟨hf, ⟨own, hb⟩, -⟩ := h
    obtain ⟨o', hs'⟩ := hf.pending ho hs
    cases r with
    | none =>
      rw [yields_pure, yields_bind]
      exact yields_settle_none hs' _ (yields_pure.mpr ⟨[none], c₁, hf, .failed (by simp)⟩)
    | some u =>
      rw [yields_map]
      refine (yields_completeArray hb h0 hbody hs' u).mono fun t c₂ hc => ?_
      obtain ⟨b, rfl, hp⟩ := hc.eq_withTypes
      rw [yields_bind]
      exact yields_settle ((hc.status_eq id).trans hs') hp.has_self _ fun text =>
        yields_pure.mpr ⟨[u].map some, c₁, hf, .constructed hsyn hc⟩

/-! ## Declarations -/

/-- An open chain without repetition is no longer than the table. -/
theorem length_le_of_open (ho : c.Open chain) (hd : chain.Nodup) :
    chain.length ≤ c.namedTypes.size := by
  have hinj : Function.Injective NamedTypeId.index := fun i j h => by cases i; cases j; simp_all
  have hsub : chain.map (·.index) ⊆ List.range c.namedTypes.size := by
    intro i hi
    obtain ⟨k, hk, rfl⟩ := List.mem_map.mp hi
    obtain ⟨dec, o, hs⟩ := ho k hk
    exact List.mem_range.mpr (Checker.lt_of_status hs)
  have hle := (List.subperm_of_subset (hd.map hinj) hsub).length_le
  rwa [List.length_map, List.length_range] at hle

/-- A name is found if its declaration is resolved. -/
theorem yields_findWith {f : NamedTypeId → Check (Option Ty)} {m : Ident}
    (h : ∀ k, c.typeNames.lookup m.name = some k →
      Yields (f k) c fun r c' => Finds chain [m] c [r] c') :
    Yields (findWith f m) c fun r c' => Finds chain [m] c [r] c' := by
  unfold findWith
  rw [yields_bind, yields_get]
  cases hl : c.typeNames.lookup m.name with
  | none => exact yields_fail.mpr (.undefined hl .nil)
  | some k => exact h k hl

/-- **With enough steps for the declarations that are not in the chain, a declaration is resolved.** -/
theorem yields_resolve (h0 : c₀.Opened) (steps : Nat) :
    ∀ {chain : List NamedTypeId} {id : NamedTypeId} {c : Checker}, c₀.Ready chain c →
      chain.Nodup → (chain ++ [id]).IsChain c₀.Mentions → (∃ s, c₀.status id = some s) →
      c₀.namedTypes.size < steps + chain.length →
      Yields (resolve steps chain id) c fun r c' =>
        ∀ m : Ident, c.typeNames.lookup m.name = some id → Finds chain [m] c [r] c' := by
  induction steps with
  | zero =>
    intro chain id c hr hd _ _ hlt
    obtain ⟨own, hb⟩ := hr.building
    have := length_le_of_open hr.isOpen hd
    rw [hb.advances.size_eq] at this
    omega
  | succ steps ih =>
    intro chain id c hr hd hlink hid hlt
    obtain ⟨own, hb⟩ := hr.building
    obtain ⟨s₀, hs₀⟩ := hid
    obtain ⟨s, hs, -⟩ := hb.advances.step id s₀ hs₀
    rw [resolve, yields_bind, yields_namedType]
    refine ⟨s, hs, ?_⟩
    cases s with
    | resolved t => exact yields_pure.mpr fun m hm => .met hm (.resolved hs) .nil
    | poisoned => exact yields_pure.mpr fun m hm => .met hm (.poisoned hs) .nil
    | pending dec o =>
      by_cases hmem : id ∈ chain
      · simp only [hmem, if_true]
        exact (yields_meetAgain hr.isOpen hmem hs).mono fun r c' h m hm => .met hm h .nil
      · simp only [hmem, if_false]
        have hlinks := links_concat (hb.declared h0 hs) hlink
        have hnodup : (chain ++ [id]).Nodup := by
          rw [List.nodup_append]
          exact ⟨hd, List.nodup_singleton id, fun a ha b hb => by
            rw [List.mem_singleton.mp hb]
            rintro rfl
            exact hmem ha⟩
        -- each name of the right-hand side is found, with one step less and a chain that is longer by one
        refine (yields_rightHandSide h0 (fun m hm c hr' => ?_) ⟨⟨own, hb⟩, hr.isOpen.concat hs⟩ hs
          hr.isOpen hlinks).mono fun r c' h m hm => ?_
        · have hlink' : c₀.Links (chain ++ [id]) [m] := fun m' hm' =>
            hlinks m' (List.mem_singleton.mp hm' ▸ hm)
          refine (yields_findWith fun k hk => ?_).mono fun r c' hf => ⟨hf, hr'.after h0 hf hlink'⟩
          obtain ⟨own', hb'⟩ := hr'.building
          have hk₀ : c₀.typeNames.lookup m.name = some k := hb'.advances.typeNames_eq ▸ hk
          exact (ih hr' hnodup (hlinks m hm k hk₀) (h0.known m.name k hk₀)
            (by rw [List.length_append, List.length_singleton]; omega)).mono fun r c' h => h m hk
        · obtain ⟨qs, c₁, hf, hset⟩ := h
          exact .settled hm hs hmem hf hset .nil

/-- **Every declaration of the table is resolved.** -/
theorem yields_typeAt (h0 : c₀.Opened) (hb : Building c₀ own c)
    (hid : ∃ s, c₀.status id = some s) :
    Yields (typeAt id) c fun r c' =>
      ∀ m : Ident, c.typeNames.lookup m.name = some id → Finds [] [m] c [r] c' := by
  unfold typeAt
  rw [yields_bind, yields_get]
  have hr : c₀.Ready [] c := ⟨⟨own, hb⟩, fun k hk => by cases hk⟩
  refine yields_resolve h0 _ hr List.nodup_nil (.singleton id) hid ?_
  rw [hb.advances.size_eq, List.length_nil]
  omega

end Check

end TigerCheck
