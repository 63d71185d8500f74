import TigerCheck.Proofs.Relabel.Tables

/-!
# Resolving type names under a relabelling

A renamed type name is looked up in a renamed table, and its declaration is resolved in the same way: the chain
of the declarations that are being resolved is the relabelled chain, and records and arrays are handed out and
completed at the same points.

* `Stage.carries_handOut`, `Stage.carries_meetAgain`: declarations that are met again.
* `Stage.carries_complete`, `Stage.carries_settle`: the end of a declaration.
* **`Stage.carries_resolve`**, `Stage.carries_typeAt`, `Stage.carries_typeOf`: type names.
-/

namespace TigerCheck

open Check

namespace Stage

variable {ρ : Relabelling} {S : Stage ρ}

/-! ## Declarations that are met again -/

theorem carries_handOut (id : NamedTypeId) (dec : TypeDec) :
    S.Carries (·.relabel ρ) (handOut id dec) (handOut (id.relabel ρ) (dec.relabel ρ)) := by
  have hset : ∀ ty : Ty, S.Carries (·.relabel ρ)
      (do
        setNamedType id (.pending dec (some ty))
        return ty)
      (do
        setNamedType (id.relabel ρ) (.pending (dec.relabel ρ) (some (ty.relabel ρ)))
        return ty.relabel ρ) := fun ty =>
    (carries_setNamedType id (.pending dec (some ty))).bind fun _ => carries_pure ty
  refine (carries_namedType id).bind fun t => ?_
  obtain ⟨name, body, loc⟩ := dec
  -- an entry that was handed out before, or a new one of the right kind
  cases t with
  | pending d handedOut =>
    cases handedOut with
    | some ty => exact carries_pure ty
    | none =>
      cases body with
      | array element => exact (carries_newArray name.name none).bind hset
      | record fields => exact (carries_newRecord name.name []).bind hset
      | synonym target => exact (carries_newRecord name.name []).bind hset
  | resolved ty =>
    cases body with
    | array element => exact (carries_newArray name.name none).bind hset
    | record fields => exact (carries_newRecord name.name []).bind hset
    | synonym target => exact (carries_newRecord name.name []).bind hset
  | poisoned =>
    cases body with
    | array element => exact (carries_newArray name.name none).bind hset
    | record fields => exact (carries_newRecord name.name []).bind hset
    | synonym target => exact (carries_newRecord name.name []).bind hset

theorem carries_firstConstructed : ∀ chain : List NamedTypeId,
    S.Carries (Option.map (Prod.map (·.relabel ρ) (·.relabel ρ))) (firstConstructed chain)
      (firstConstructed (chain.map (·.relabel ρ)))
  | [] => carries_pure none
  | id :: ids => by
    refine (carries_namedType id).bind fun t => ?_
    cases t with
    | pending dec handedOut =>
      refine relates_ite ?_ (carries_firstConstructed ids) (carries_pure (some (id, dec)))
      rw [TypeDec.relabel, TypeBody.isSynonym_relabel]
    | resolved ty => exact carries_firstConstructed ids
    | poisoned => exact carries_firstConstructed ids

theorem after_relabel (hρ : ρ.Faithful) (id : NamedTypeId) (chain : List NamedTypeId) :
    after (id.relabel ρ) (chain.map (·.relabel ρ)) =
      (after id chain).map (·.relabel ρ) := by
  have hne : (fun x => decide (x ≠ id.relabel ρ)) ∘ (·.relabel ρ) =
      fun x : NamedTypeId => decide (x ≠ id) := by
    funext x
    simp [hρ.namedTypeId_inj]
  simp only [after, List.dropWhile_map, hne, List.map_tail]

theorem carries_meetAgain (id : NamedTypeId) (dec : TypeDec) (chain : List NamedTypeId) :
    S.Carries (Option.map (·.relabel ρ)) (meetAgain id dec chain)
      (meetAgain (id.relabel ρ) (dec.relabel ρ) (chain.map (·.relabel ρ))) := by
  unfold meetAgain
  refine relates_ite ?_ ?_ ((carries_handOut id dec).map fun _ => rfl)
  · rw [TypeDec.relabel, TypeBody.isSynonym_relabel]
  · rw [after_relabel S.faithful]
    refine (carries_firstConstructed _).bind fun found => ?_
    cases found with
    | some target => exact (carries_handOut target.1 target.2).map fun _ => rfl
    | none => exact carries_fail rfl

/-! ## The end of a declaration -/

section

variable {find find' : Ident → Check (Option Ty)}

theorem carries_resolveFields (hfind : ∀ name : Ident, S.Carries (Option.map (·.relabel ρ)) (find name)
      (find' (name.rename ρ.typeName))) :
    ∀ fields : List TypedName, S.Carries (Option.map (List.map (·.relabel ρ))) (resolveFields find fields)
      (resolveFields find' (fields.map (·.rename ρ.field ρ.typeName)))
  | [] => carries_pure (some [])
  | f :: fs => (hfind f.typeName).bind fun ty => (carries_resolveFields hfind fs).bind fun rest => by
    cases ty with
    | none => exact carries_pure none
    | some ty =>
      cases rest with
      | none => exact carries_pure none
      | some rest => exact carries_pure (some (⟨f.name.name, ty⟩ :: rest))

theorem carries_completeRecord (id : NamedTypeId) (name : String) (fields : List Field) :
    S.Carries (·.relabel ρ) (completeRecord id name fields)
      (completeRecord (id.relabel ρ) (ρ.typeName name) (fields.map (·.relabel ρ))) := by
  refine (carries_namedType id).bind fun t => ?_
  have hnew := carries_newRecord (S := S) name fields
  cases t with
  | pending dec handedOut =>
    cases handedOut with
    | none => exact hnew
    | some ty =>
      cases ty with
      | record r => exact (carries_setFields r fields).bind fun _ => carries_pure (Ty.record r)
      | _ => exact hnew
  | resolved ty => exact hnew
  | poisoned => exact hnew

theorem carries_completeArray (id : NamedTypeId) (name : String) (element : Ty) :
    S.Carries (·.relabel ρ) (completeArray id name element)
      (completeArray (id.relabel ρ) (ρ.typeName name) (element.relabel ρ)) := by
  refine (carries_namedType id).bind fun t => ?_
  have hnew := carries_newArray (S := S) name (some element)
  cases t with
  | pending dec handedOut =>
    cases handedOut with
    | none => exact hnew
    | some ty =>
      cases ty with
      | array a => exact (carries_setElement a element).bind fun _ => carries_pure (Ty.array a)
      | _ => exact hnew
  | resolved ty => exact hnew
  | poisoned => exact hnew

theorem carries_complete (hfind : ∀ name : Ident, S.Carries (Option.map (·.relabel ρ)) (find name)
      (find' (name.rename ρ.typeName))) (id : NamedTypeId) (dec : TypeDec) :
    S.Carries (Option.map (·.relabel ρ)) (complete find id dec)
      (complete find' (id.relabel ρ) (dec.relabel ρ)) := by
  obtain ⟨name, body, loc⟩ := dec
  cases body with
  | synonym target => exact hfind target
  | record fields =>
    refine (carries_resolveFields hfind fields).bind fun found => ?_
    cases found with
    | some fields => exact (carries_completeRecord id name.name fields).map fun _ => rfl
    | none => exact carries_pure none
  | array element =>
    refine (hfind element).bind fun found => ?_
    cases found with
    | some element => exact (carries_completeArray id name.name element).map fun _ => rfl
    | none => exact carries_pure none

end

theorem carries_settle (id : NamedTypeId) (name : String) : ∀ ty : Option Ty, S.Carries (fun u => u)
    (settle id name ty) (settle (id.relabel ρ) (ρ.typeName name) (ty.map (·.relabel ρ)))
  | some ty => relates_read_bind (fun _ _ => True) (fun c => c.types.display ty)
      (fun d => d.types.display (ty.relabel ρ)) (fun _ _ _ _ _ _ _ => trivial) (fun name => ⟨name, trivial⟩)
      fun _ _ _ => (carries_log _ _).bind fun _ => carries_setNamedType id (.resolved ty)
  | none => carries_setNamedType id .poisoned

/-! ## Type names -/

theorem carries_findWith {find find' : NamedTypeId → Check (Option Ty)}
    (hfind : ∀ id, S.Carries (Option.map (·.relabel ρ)) (find id) (find' (id.relabel ρ)))
    (name : Ident) : S.Carries (Option.map (·.relabel ρ)) (findWith find name)
      (findWith find' (name.rename ρ.typeName)) := by
  refine relates_lookup (·.relabel ρ) (fun c => c.typeNames.lookup name.name)
    (fun d => d.typeNames.lookup (name.rename ρ.typeName).name)
    (fun c => by cases c.typeNames.lookup name.name <;> rfl)
    (fun d => by cases d.typeNames.lookup (name.rename ρ.typeName).name <;> rfl) (fun c d hM => ?_) ?_ hfind
  · rw [hM.typeNames_eq]
    exact Scopes.lookup_relabel S.faithful.names.typeName c.typeNames name.name
  · exact carries_fail rfl

theorem carries_resolve_succ {steps steps' : ℕ} (ih : ∀ (chain : List NamedTypeId) (id : NamedTypeId),
      S.Carries (Option.map (·.relabel ρ)) (resolve steps chain id)
        (resolve steps' (chain.map (·.relabel ρ)) (id.relabel ρ)))
    (chain : List NamedTypeId) (id : NamedTypeId) :
    S.Carries (Option.map (·.relabel ρ)) (resolve (steps + 1) chain id)
      (resolve (steps' + 1) (chain.map (·.relabel ρ)) (id.relabel ρ)) := by
  refine (carries_namedType id).bind fun t => ?_
  cases t with
  | resolved ty => exact carries_pure (some ty)
  | poisoned => exact carries_pure none
  | pending dec handedOut =>
    have hmem : id.relabel ρ ∈ chain.map (·.relabel ρ) ↔ id ∈ chain :=
      List.mem_map_of_injective fun _ _ => S.faithful.namedTypeId_inj.mp
    refine relates_ite hmem (carries_meetAgain id dec chain) ?_
    have hfind := carries_findWith (ih (chain ++ [id]))
    rw [List.map_append] at hfind
    exact (carries_complete hfind id dec).bind fun ty =>
      (carries_settle id dec.name.name ty).bind fun _ => carries_pure ty

/-- **A relabelled type name is resolved to the relabelled type.** The two searches may be given different bounds:
both are taken to end. -/
theorem carries_resolve : ∀ (steps steps' : ℕ) (chain : List NamedTypeId) (id : NamedTypeId),
    S.Carries (Option.map (·.relabel ρ)) (resolve steps chain id)
      (resolve steps' (chain.map (·.relabel ρ)) (id.relabel ρ))
  | 0, _, _, _ => relates_throw
  | steps + 1, steps' + 1, chain, id => carries_resolve_succ (carries_resolve steps steps') chain id
  | steps + 1, 0, chain, id => fun c a c' hrun =>
    ⟨(carries_resolve_succ (carries_resolve steps 0) chain id c a c' hrun).1, fun _ _ _ hrun' => nomatch hrun'⟩

theorem carries_typeAt (id : NamedTypeId) :
    S.Carries (Option.map (·.relabel ρ)) (typeAt id) (typeAt (id.relabel ρ)) :=
  relates_measure (fun c => c.namedTypes.size) (fun d => d.namedTypes.size) fun n n' =>
    carries_resolve (n + 1) (n' + 1) [] id

theorem carries_typeOf (name : Ident) :
    S.Carries (Option.map (·.relabel ρ)) (typeOf name) (typeOf (name.rename ρ.typeName)) :=
  carries_findWith carries_typeAt name

end Stage

end TigerCheck
