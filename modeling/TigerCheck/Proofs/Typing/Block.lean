import TigerCheck.Proofs.Typing.Functions
import TigerCheck.Proofs.Typing.TypeRun
import TigerCheck.Proofs.Typing.Variables

/-!
# Checking a let block decides its typing

The declarations of a block are checked run by run. Each kind of runs has been treated on its own, so a
block is right if its leading run is and if the rest is in the scope of that run.

* `judged_typeRun`: a run of types that is opened and resolved.
* **`judged_declarations`**: the declarations of a block.
* **`ExpJudged.letIn`**: a let block.
-/

namespace TigerCheck

open Check

variable {ctx : Context} {c c₁ c₂ c' : Checker} {ν : Renaming} {n n' : ℕ}

/-- **The check of a run of types decides whether it is right.** -/
theorem judged_typeRun {d : TypeDec} {ds : List TypeDec} (hc : c.Sound) (hs : ctx.Sits c)
    (hf : c.Fine ν n) {plans : List Plan} {r : List Dec × Bool}
    (hopen : (openRun ctx ((d :: ds).map .type)).run c = .ok (plans, c₁))
    (hrun : (checkPlanned ctx plans ((d :: ds).map .type)).run c₁ = .ok (r, c')) :
    Judged c ν c' (n + (d :: ds).length)
      (fun b Γ' => ∃ types, TypesDeclared b n (d :: ds) (c.env ν).types types ∧
        Γ' = { c.env ν with types })
      fun ν' Γ' => Γ' = c'.env ν' ∧ r.2 = true := by
  obtain ⟨-, hrest⟩ := (yields_typeRun hc hs d ds).of_run hopen
  obtain ⟨-, -, kept, rs, own, hbinds, hfinds, hbuilding, hok⟩ := hrest.of_run hrun
  have hw := Checker.walked_note hc (.run .type (d :: ds).length)
  have hf' : (c.note (.run .type (d :: ds).length)).Fine ν n :=
    ⟨hf.clean, hf.elements, hf.fits, hf.values, hf.functions⟩
  have htypes : TypeRun (c.note (.run .type (d :: ds).length)) (d :: ds) plans kept c₁ rs own c' :=
    ⟨hw.sound.rest, hbinds, hfinds, hbuilding⟩
  refine Judged.within (c := c.note (.run .type (d :: ds).length)) ?_ rfl rfl rfl rfl fun _ h => h
  exact (htypes.judged hw.sound hf').imp fun ν' Γ' hΓ => ⟨hΓ.1, hok.mpr hΓ.2⟩

/-- First a run is checked, then the rest of its block. -/
theorem Judged.thenDecs {J : Arena → Env → Prop} {ok ok' l : Bool} {n₂ : ℕ} {ds : List Dec}
    (h : Judged c ν c₂ n₂ J fun ν' Γ' => Γ' = c₂.env ν' ∧ ok = true) (hg : c.Extends c₂)
    (hclosed : c₂.types.Closed) (hg' : c₂.Extends c')
    (hrest : ∀ ν₁, c₂.Fine ν₁ n₂ → Judged c₂ ν₁ c' n'
      (fun b Γ' => DecsTyped b (c₂.env ν₁) n₂ l ds Γ') fun ν' Γ' => Γ' = c'.env ν' ∧ ok' = true) :
    Judged c ν c' n' (fun b Γ' => ∃ Γ₁, J b Γ₁ ∧ DecsTyped b Γ₁ n₂ l ds Γ')
      fun ν' Γ' => Γ' = c'.env ν' ∧ (ok && ok') = true := by
  refine h.bind hg hclosed hg' fun ν₁ Γ₁ hΓ _ hf₁ => ?_
  obtain ⟨rfl, hok⟩ := hΓ
  exact (hrest ν₁ hf₁).imp fun ν' Γ' hΓ' => ⟨hΓ'.1, by rw [hok, hΓ'.2]; rfl⟩

/-- **The check of the declarations of a block decides their typing.** -/
theorem judged_declarations : ∀ ds : List Dec, (∀ d ∈ ds, d.Parts ExpJudged) →
    ∀ {c c' : Checker} {ν : Renaming} {n : ℕ} {r : List Dec × Bool}, c.Sound → ctx.Sits c →
      c.Fine ν n → (checkDecs ctx [] ds).run c = .ok (r, c') →
      Judged c ν c' (n + typeDecsDecs ds)
        (fun b Γ' => DecsTyped b (c.env ν) n ctx.inLoop ds Γ')
        fun ν' Γ' => Γ' = c'.env ν' ∧ r.2 = true
  | [], _, c, c', ν, n, r, _, _, hf, hrun => by
    rw [checkDecs] at hrun
    cases hrun
    exact .same hf ⟨rfl, rfl⟩ fun b _ Γ' => decsTyped_nil_iff
  | d :: ds, h, c, c', ν, n, r, hc, hs, hf, hrun => by
    obtain ⟨plans, c₁, r₁, c₂, r₂, hopen, hplanned, hrest, rfl⟩ := exists_of_run_checkDecs hrun
    have hsplit : d :: ds = Dec.leadingRun (d :: ds) ++ ds.dropWhile (Dec.sameKind d) := by
      simp [Dec.leadingRun]
    have hk : ∀ e ∈ Dec.leadingRun (d :: ds), e.kind = d.kind := fun e he =>
      kind_of_mem_leadingRun he
    have hparts : ∀ e ∈ Dec.leadingRun (d :: ds), e.Parts ExpJudged := fun e he =>
      h e (hsplit ▸ List.mem_append_left _ he)
    have hd₂ := declared_run hk hc hs hopen hplanned
    have hd₃ := declared_decs hd₂.sound hd₂.sits hrest
    have hdecs : ∀ {m : ℕ} ν₁, c₂.Fine ν₁ m →
        Judged c₂ ν₁ c' (m + typeDecsDecs (ds.dropWhile (Dec.sameKind d)))
          (fun b Γ' => DecsTyped b (c₂.env ν₁) m ctx.inLoop (ds.dropWhile (Dec.sameKind d)) Γ')
          fun ν' Γ' => Γ' = c'.env ν' ∧ r₂.2 = true := fun ν₁ hf₁ =>
      judged_declarations (ds.dropWhile (Dec.sameKind d)) (fun e he =>
        h e (List.mem_cons_of_mem _ (List.dropWhile_subset _ he))) hd₂.sound hd₂.sits hf₁ hrest
    have hsize : n + typeDecsDecs (d :: ds) = n + typeDecsDecs (Dec.leadingRun (d :: ds)) +
        typeDecsDecs (ds.dropWhile (Dec.sameKind d)) := by
      rw [Nat.add_assoc, ← typeDecsDecs_append, ← hsplit]
    rw [hsize]
    cases hkind : d.kind with
    | type =>
      rw [hkind] at hk
      obtain ⟨t, ts, hts⟩ : ∃ t ts, Dec.leadingRun (d :: ds) = (t :: ts).map .type :=
        exists_map_type_of_kind hk
      refine Judged.of_iff ?_ fun b Γ' => decsTyped_types_iff hts
      rw [hts, typeDecsDecs_map_type]
      rw [hts] at hopen hplanned
      exact (judged_typeRun hc hs hf hopen hplanned).thenDecs hd₂.grown hd₂.sound.rest.closed
        hd₃.grown hdecs
    | function =>
      refine Judged.of_iff ?_ fun b Γ' => decsTyped_functions_iff hkind
      exact (judged_functionRun (hkind ▸ hk) hparts hc hs hf hopen hplanned).thenDecs hd₂.grown
        hd₂.sound.rest.closed hd₃.grown hdecs
    | var =>
      refine Judged.of_iff ?_ fun b Γ' => decsTyped_variables_iff hkind
      exact (judged_variableRun (hkind ▸ hk) hparts hc hs hf hopen hplanned).thenDecs hd₂.grown
        hd₂.sound.rest.closed hd₃.grown hdecs
termination_by ds => ds.length
decreasing_by
  exact Nat.lt_succ_of_le (List.length_dropWhile_le _ ds)

/-- **The check of a let block decides its typing.** -/
theorem ExpJudged.letIn {m : Mark} {decs : List Dec} {body : Exp}
    (hd : ∀ d ∈ decs, d.Parts ExpJudged) (hb : ExpJudged body) : ExpJudged (.letIn m decs body) := by
  intro ctx c c' ν n e' hc hs hf h
  have hw := (walked_exp hc hs h).1
  obtain ⟨r, c₁, body', c₂, h₁, h₂, hd₁, hw₂, rfl, rfl⟩ := exists_of_run_letIn hc hs h
  have hf' : c.entered.Fine ν n := ⟨hf.clean, hf.elements, hf.fits, hf.values, hf.functions⟩
  have hinner : Judged c.entered ν c₂ (n + (typeDecsDecs decs + body.typeDecs))
      (fun b y => ∃ Γ', DecsTyped b (c.env ν) n ctx.inLoop decs Γ' ∧
        body.Typed b Γ' (n + typeDecsDecs decs) ctx.inLoop y)
      (Answers (if r.2 then body'.ty else none)) := by
    refine (judged_declarations decs hd hc.entered hs.entered hf' h₁).bind hd₁.grown
      hd₁.sound.rest.closed hw₂.grown fun ν₁ Γ' hΓ _ hf₁ => ?_
    obtain ⟨rfl, hok⟩ := hΓ
    rw [← Nat.add_assoc, if_pos hok]
    exact hb hd₁.sound hd₁.sits hf₁ h₂
  refine Judged.of_iff ?_ fun b y => Exp.typed_letIn_iff
  exact hinner.within rfl rfl rfl rfl fun ν' hf₂ => hf.rescope hc hs hw hf₂ rfl rfl

end TigerCheck
