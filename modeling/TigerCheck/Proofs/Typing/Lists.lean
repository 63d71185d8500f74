import TigerCheck.Proofs.Typing.Exp

/-!
# Checking lists of expressions decides their typing

The arguments of a call and the items of a sequence are checked one after another, and so are the
initializers of a record literal. As long as nothing was reported each of them has the type that its
place asks for.

* `ArgsFit`: types against the parameters at their places.
* **`judged_checkEach`**, **`judged_checkInits`**: lists.
* `ExpJudged.call`, `ExpJudged.seq`, `ExpJudged.record`: the expressions with lists in them.
-/

namespace TigerCheck

open Check

/-- Types fit the parameters at their places, as far as there are parameters. -/
def ArgsFit (a : Arena) : List Ty → List Ty → Prop
  | _, [] => True
  | params, t :: ts => (∀ p, params.head? = some p → a.Same t p) ∧ ArgsFit a params.tail ts

theorem argsFit_of_nil {a : Arena} : ∀ ts : List Ty, ArgsFit a [] ts
  | [] => trivial
  | _ :: ts => ⟨fun _ h => (by cases h), argsFit_of_nil ts⟩

theorem argsFit_iff_forall₂ {a : Arena} : ∀ {params ts : List Ty}, params.length = ts.length →
    (ArgsFit a params ts ↔ List.Forall₂ a.Same ts params)
  | [], [], _ => by simp [ArgsFit]
  | p :: params, t :: ts, h => by
    rw [ArgsFit, List.tail_cons, argsFit_iff_forall₂ (Nat.succ.inj h), List.forall₂_cons]
    simp

section

variable {m : Mark} {ctx : Context} {c c₁ c' : Checker} {ν ν₁ : Renaming} {n n' : ℕ}

/-- A list that was checked is behind the walk. -/
theorem walked_checkEach {params : List Ty} {es : List Exp} {r : List Exp × Bool} (hc : c.Sound)
    (hs : ctx.Sits c) (hp : ∀ p ∈ params, c.types.Has p)
    (h : (checkEach ctx params es).run c = .ok (r, c')) :
    c.Walked c' ∧ ∀ e ∈ r.1, ∀ t, e.ty = some t → c'.types.Has t :=
  have hend := (yieldsOr_checkEach (fun e _ => expWalks e) params c hc hs hp).of_run h
  ⟨hend.walked, fun e he t ht => hend.has t ⟨e, he, ht⟩⟩

theorem walked_checkInits {loc : Location} {typeName : String} {fields : Option (List Field)}
    {inits : List (Ident × Exp)} {r : List (Ident × Exp) × Bool} (hc : c.Sound) (hs : ctx.Sits c)
    (hf : ∀ fs, fields = some fs → ∀ f ∈ fs, c.types.Has f.ty)
    (h : (checkInits ctx loc typeName fields inits).run c = .ok (r, c')) : c.Walked c' :=
  ((yieldsOr_checkInits loc typeName (fun i _ => expWalks i.2) fields c hc hs hf).of_run h).walked

/-- **The check of a list decides the typing of its items**, and whether they fit the parameters. -/
theorem judged_checkEach {es : List Exp} (h : ∀ e ∈ es, ExpJudged e) :
    ∀ {params : List Ty} {c c' : Checker} {ν : Renaming} {n : ℕ} {r : List Exp × Bool}, c.Sound →
      ctx.Sits c → c.Fine ν n → (∀ p ∈ params, c.types.Has p) →
      (checkEach ctx params es).run c = .ok (r, c') →
      Judged c ν c' (n + typeDecsAll es)
        (fun b ts => AllTyped b (c.env ν) n ctx.inLoop es ts ∧
          ArgsFit b (params.map (·.rename ν)) ts)
        (fun ν' ts => r.2 = true ∧ List.Forall₂ (fun (e : Exp) t => Answers e.ty ν' t) r.1 ts) := by
  induction es with
  | nil =>
    intro params c c' ν n r _ _ hf _ hrun
    rw [checkEach] at hrun
    cases hrun
    refine .same hf ⟨rfl, .nil⟩ fun b _ ts => ?_
    rw [allTyped_nil_iff]
    refine ⟨fun h => h.1, ?_⟩
    rintro rfl
    exact ⟨rfl, trivial⟩
  | cons e es ih =>
    intro params c c' ν n r hc hs hf hp hrun
    obtain ⟨he, hes⟩ := List.forall_mem_cons.mp h
    obtain ⟨e', c₁, ok, c₂, r', h₁, h₂, h₃, rfl⟩ := exists_of_run_checkEach hrun
    obtain ⟨hw₁, hhas⟩ := walked_exp hc hs h₁
    have hclosed := hw₁.sound.rest.closed
    have hp₁ : ∀ p, params.head? = some p → c₁.types.Has p := fun p hmem =>
      hw₁.has (hp p (List.mem_of_mem_head? hmem))
    have hrule := (Rule.yields_arg hclosed hp₁ hhas).of_run h₂
    have hw₂ := hrule.toSays.walked hw₁.sound
    have hs₂ := (hs.walked hw₁).walked hw₂
    have hp₂ : ∀ p ∈ params.tail, c₂.types.Has p := fun p hmem =>
      hw₂.has (hw₁.has (hp p (List.mem_of_mem_tail hmem)))
    obtain ⟨hw₃, -⟩ := walked_checkEach hw₂.sound hs₂ hp₂ h₃
    have hsplit : ∀ b ts, AllTyped b (c.env ν) n ctx.inLoop (e :: es) ts ∧
        ArgsFit b (params.map (·.rename ν)) ts ↔
      ∃ t, e.Typed b (c.env ν) n ctx.inLoop t ∧
        (∀ p, (params.map (·.rename ν)).head? = some p → b.Same t p) ∧
        ∃ us, (AllTyped b (c.env ν) (n + e.typeDecs) ctx.inLoop es us ∧
          ArgsFit b (params.tail.map (·.rename ν)) us) ∧ ts = t :: us := by
      intro b ts
      rw [allTyped_cons_iff, List.map_tail]
      constructor
      · rintro ⟨⟨t, ht, us, hus, rfl⟩, hfit, hfits⟩
        exact ⟨t, ht, hfit, us, ⟨hus, hfits⟩, rfl⟩
      · rintro ⟨t, ht, hfit, us, ⟨hus, hfits⟩, rfl⟩
        exact ⟨⟨t, ht, us, hus, rfl⟩, hfit, hfits⟩
    refine Judged.of_iff ?_ hsplit
    refine he.bind hc hs hf h₁ (hw₂.trans hw₃).grown fun ν₁ t ht hag₁ henv₁ hf₁ => ?_
    rw [← henv₁, typeDecsAll, ← Nat.add_assoc, ← hag₁.map_rename_eq hp, ← hag₁.map_rename_eq
      fun p hmem => hp p (List.mem_of_mem_tail hmem)]
    change e'.mark.ty = some t at ht
    have harg := hrule.judged
      (J := fun b => ∀ p, (params.map (·.rename ν₁)).head? = some p → b.Same (t.rename ν₁) p)
      (by simp [ht]) hf₁ fun b hb => by
        simp only [Rule.ArgOk, ht, Option.some.injEq, exists_eq_left', List.head?_map,
          Option.map_eq_some_iff, forall_exists_index, and_imp, forall_apply_eq_imp_iff₂]
        exact forall₂_congr fun p hmem => hb.same_iff hf₁.fits hclosed (hhas t ht) (hp₁ p hmem)
    refine harg.and hw₂.grown hw₂.sound.rest.closed hw₃.grown fun ν₂ hok hag₂ hf₂ => ?_
    have hrest := ih hes hw₂.sound hs₂ hf₂ hp₂ h₃
    rw [hw₂.env_eq hw₁.sound (hs.walked hw₁) hag₂,
      hag₂.map_rename_eq fun p hmem => hw₁.has (hp p (List.mem_of_mem_tail hmem))] at hrest
    refine hrest.map (f := fun us => t.rename ν₁ :: us) fun ν' us hag' _ hus => ?_
    refine ⟨by simp [hok, hus.1], .cons ⟨t, ht, ?_⟩ hus.2⟩
    rw [hag'.rename_eq (hw₂.has (hhas t ht)), hag₂.rename_eq (hhas t ht)]

/-- **The check of a record's initializers decides whether they fit its fields.** -/
theorem judged_checkInits {loc : Location} {typeName : String} {inits : List (Ident × Exp)}
    (h : ∀ i ∈ inits, ExpJudged i.2) :
    ∀ {fs : List Field} {c c' : Checker} {ν : Renaming} {n : ℕ} {r : List (Ident × Exp) × Bool},
      c.Sound → ctx.Sits c → c.Fine ν n → fs.length = inits.length →
      (∀ f ∈ fs, c.types.Has f.ty) →
      (checkInits ctx loc typeName (some fs) inits).run c = .ok (r, c') →
      Judged c ν c' (n + typeDecsInits inits)
        (fun b (_ : Unit) => InitsTyped b (c.env ν) n ctx.inLoop (fs.map (·.rename ν)) inits)
        (fun _ _ => r.2 = true) := by
  induction inits with
  | nil =>
    intro fs c c' ν n r _ _ hf hlen _ hrun
    rw [checkInits] at hrun
    cases hrun
    rw [List.eq_nil_of_length_eq_zero hlen]
    exact .same (x := ()) hf rfl fun b _ _ => iff_of_true (initsTyped_nil_iff.mpr rfl) rfl
  | cons i inits ih =>
    intro fs c c' ν n r hc hs hf hlen hhas hrun
    obtain ⟨name, e⟩ := i
    obtain ⟨he, hes⟩ := List.forall_mem_cons.mp h
    cases fs with
    | nil => cases hlen
    | cons f fs =>
    obtain ⟨hfty, hfs⟩ := List.forall_mem_cons.mp hhas
    obtain ⟨left, c₁, e', c₂, ok, c₃, r', h₁, h₂, h₃, h₄, rfl⟩ := exists_of_run_checkInits hrun
    have hplace := (Rule.yields_place typeName name (some (f :: fs))).of_run h₁
    have hw₁ := hplace.toSays.walked hc
    have hs₁ := hs.walked hw₁
    have hleft : ∀ gs, left = some gs → gs = f :: fs := fun gs hgs =>
      (Option.some.inj (hplace.some_iff.mp hgs).1).symm
    obtain ⟨hw₂, hty⟩ := walked_exp hw₁.sound hs₁ h₂
    have hclosed := hw₂.sound.rest.closed
    have hw₁₂ := hw₁.trans hw₂
    have hfield : ∀ g, left.bind (·.head?) = some g → c₂.types.Has g.ty := by
      intro g hg
      obtain ⟨gs, hgs, hhead⟩ := Option.bind_eq_some_iff.mp hg
      exact hw₁₂.has (hhas g (hleft gs hgs ▸ List.mem_of_mem_head? hhead))
    have hrule := (Rule.yields_init hclosed hfield hty).of_run h₃
    have hw₃ := hrule.toSays.walked hw₂.sound
    have hs₃ := (hs₁.walked hw₂).walked hw₃
    have hrest : ∀ gs, left.map (·.tail) = some gs → ∀ g ∈ gs, c₃.types.Has g.ty := by
      intro gs hgs g hg
      obtain ⟨gs', hgs', rfl⟩ := Option.map_eq_some_iff.mp hgs
      exact hw₃.has (hw₁₂.has (hhas g (hleft gs' hgs' ▸ List.mem_of_mem_tail hg)))
    have hw₄ := walked_checkInits hw₃.sound hs₃ hrest h₄
    have hsplit : ∀ b (y : Unit),
        InitsTyped b (c.env ν) n ctx.inLoop ((f :: fs).map (·.rename ν)) ((name, e) :: inits) ↔
      ∃ _ : Unit, name.name = f.name ∧ ∃ t, e.Typed b (c.env ν) n ctx.inLoop t ∧
        b.Matches t (f.ty.rename ν) ∧
        InitsTyped b (c.env ν) (n + e.typeDecs) ctx.inLoop (fs.map (·.rename ν)) inits := by
      intro b y
      rw [List.map_cons, initsTyped_cons_iff, exists_const]
      exact Iff.rfl
    refine Judged.of_iff ?_ hsplit
    -- first the name, then the value, then the rest
    have hname : Judged c ν c₁ n (fun _ (_ : Unit) => name.name = f.name)
        fun _ _ => left = some (f :: fs) := by
      cases hplace with
      | @found gs hgs =>
        cases hleft gs rfl
        refine .same (x := ()) hf rfl fun b _ _ => iff_of_true ?_ rfl
        exact ((hgs (f :: fs)).mpr rfl).2 f rfl
      | missing hm => cases hm
      | refused hno _ hlt =>
        refine .wrong hlt fun b _ _ hn => hno (f :: fs) ⟨rfl, fun g hg => ?_⟩
        cases hg
        exact hn
    refine hname.bind hw₁.grown hw₁.sound.rest.closed ((hw₂.trans hw₃).trans hw₄).grown
      fun ν₁ _ hl hag₁ hf₁ => ?_
    rw [hl] at h₄
    rw [hl, Option.bind_some, List.head?_cons] at hrule
    have hfs₁ : ∀ g ∈ fs, g.rename ν₁ = g.rename ν := fun g hg => by
      rw [Field.rename, Field.rename, hag₁.rename_eq (hfs g hg)]
    rw [← hw₁.env_eq hc hs hag₁, typeDecsInits, ← Nat.add_assoc, ← hag₁.rename_eq hfty,
      ← List.map_congr_left hfs₁]
    refine he.bind hw₁.sound hs₁ hf₁ h₂ (hw₃.trans hw₄).grown fun ν₂ t ht hag₂ henv₂ hf₂ => ?_
    have hfs₂ : ∀ g ∈ fs, g.rename ν₂ = g.rename ν₁ := fun g hg => by
      rw [Field.rename, Field.rename, hag₂.rename_eq (hw₁.has (hfs g hg))]
    rw [← henv₂, ← hag₂.rename_eq (hw₁.has hfty), ← List.map_congr_left hfs₂]
    change e'.mark.ty = some t at ht
    have hinit := hrule.judged (J := fun b => b.Matches (t.rename ν₂) (f.ty.rename ν₂))
      (by simp [ht]) hf₂ fun b hb => by
        simp only [Rule.InitOk, ht, Option.some.injEq, exists_eq_left', forall_eq']
        exact hb.matches_iff hf₂.fits hclosed (hty t ht) (hw₁₂.has hfty)
    refine hinit.and hw₃.grown hw₃.sound.rest.closed hw₄.grown fun ν₃ hok hag₃ hf₃ => ?_
    have hfs₃ : ∀ g ∈ fs, g.rename ν₃ = g.rename ν₂ := fun g hg => by
      rw [Field.rename, Field.rename, hag₃.rename_eq (hw₁₂.has (hfs g hg))]
    have hih := ih hes hw₃.sound hs₃ hf₃ (Nat.succ.inj hlen)
      (fun g hg => hw₃.has (hw₁₂.has (hfs g hg))) h₄
    rw [hw₃.env_eq hw₂.sound (hs₁.walked hw₂) hag₃, List.map_congr_left hfs₃] at hih
    refine (hih.map (f := id) (A := fun _ _ => (ok && r'.2) = true) fun ν' _ _ _ hr => ?_).of_iff
      fun b y => ?_
    · rw [hok, hr]
      rfl
    · simp

/-! ## Calls, sequences and record literals -/

theorem answers_lastTy {es : List Exp} {ts : List Ty}
    (h : List.Forall₂ (fun (e : Exp) t => Answers e.ty ν t) es ts) :
    Answers (lastTy es) ν (ts.getLast?.getD .void) := by
  induction h with
  | nil => exact ⟨.void, rfl, rfl⟩
  | cons he hes ih =>
    cases hes with
    | nil => exact he
    | cons => simpa only [lastTy, List.getLast?_cons_cons] using ih

theorem ExpJudged.seq {items : List Exp} (h : ∀ e ∈ items, ExpJudged e) :
    ExpJudged (.seq m items) := by
  intro ctx c c' ν n e' hc hs hf hrun
  obtain ⟨r, h₁, rfl⟩ := exists_of_run_seq hrun
  have heach := judged_checkEach h hc hs hf (List.forall_mem_nil _) h₁
  have hend := heach.map (f := fun ts => ts.getLast?.getD .void)
    (A := Answers (if r.2 = true then lastTy r.1 else none)) fun ν' ts _ _ hts => ?_
  · refine hend.of_iff fun b y => ?_
    simp only [Exp.typed_seq_iff, List.map_nil, argsFit_of_nil, and_true]
  · obtain ⟨hok, hall⟩ := hts
    rw [if_pos hok]
    exact answers_lastTy hall

/-- A target whose parameters are as many as the arguments expects these parameters. -/
theorem Rule.Target.expects_eq {id : FunctionId} {s : Signature} {args : ℕ}
    (h : s.params.length = args) : expects (some ⟨id, some s⟩) args = s.params := if_pos h

theorem length_checkEach {es : List Exp} : ∀ {params : List Ty} {c c' : Checker}
    {r : List Exp × Bool}, (checkEach ctx params es).run c = .ok (r, c') →
      r.1.length = es.length := by
  induction es with
  | nil =>
    intro params c c' r h
    rw [checkEach] at h
    cases h
    rfl
  | cons e es ih =>
    intro params c c' r h
    obtain ⟨e', c₁, ok, c₂, r', -, -, h₃, rfl⟩ := exists_of_run_checkEach h
    exact congrArg Nat.succ (ih h₃)

theorem ExpJudged.call {callee : Ident} {args : List Exp} {function : Option FunctionId}
    (h : ∀ e ∈ args, ExpJudged e) : ExpJudged (.call m callee args function) := by
  intro ctx c c' ν n e' hc hs hf hrun
  obtain ⟨target, c₀, r, c₁, ty, h₀, h₁, h₂, rfl⟩ := exists_of_run_call hrun
  obtain ⟨rfl, hlookup, hsigned⟩ := (Rule.yields_target? callee.name fun id hid => by
    obtain ⟨p, hp⟩ := hc.functions _ _ hid
    exact ⟨p, hp, fun sig hsig => (hc.signatures id p sig hp hsig).1⟩).of_run h₀
  simp only [← Checker.signed_eq_some_iff] at hsigned
  rw [length_checkEach h₁] at h₂
  have hfail : ∀ fault loc, (fail fault loc).run c₁ = .ok (ty, c') →
      c₁.diagnostics.size < c'.diagnostics.size := fun fault loc h => by
    obtain rfl := eq_of_run_fail h
    exact c₁.lt_reported fault loc
  cases target with
  | none =>
    obtain ⟨hw₁, -⟩ := walked_checkEach hc hs (List.forall_mem_nil _) h₁
    refine .wrong (Nat.lt_of_le_of_lt hw₁.grown.diagnostics_le (hfail _ _ h₂)) fun b _ y hy => ?_
    obtain ⟨s, hs', -⟩ := Exp.typed_call_iff.mp hy
    obtain ⟨s, hs', -⟩ := Option.map_eq_some_iff.mp hs'
    obtain ⟨id, hid⟩ := (hsigned s).mpr hs'
    cases hid
  | some target =>
    obtain ⟨id, signature⟩ := target
    obtain ⟨s, hs'⟩ := hf.functions callee.name id hlookup.symm
    obtain ⟨_, hid⟩ := (hsigned s).mpr hs'
    cases hid
    have hsig := has_signed hc (Checker.signed_eq_some_iff.mp hs')
    have hiff : ∀ b y, (Exp.call m callee args function).Typed b (c₀.env ν) n ctx.inLoop y ↔
        ∃ ts, (AllTyped b (c₀.env ν) n ctx.inLoop args ts ∧
          List.Forall₂ b.Same ts (s.params.map (·.rename ν))) ∧ y = s.result.rename ν := by
      intro b y
      rw [Exp.typed_call_iff, Checker.env_functions, hs']
      simp [Signature.rename]
    by_cases hlen : s.params.length = args.length
    · rw [Rule.call, if_pos hlen] at h₂
      rw [Rule.Target.expects_eq hlen] at h₁
      cases h₂
      have heach := (judged_checkEach h hc hs hf hsig.1 h₁).map
        (f := fun _ => s.result.rename ν) (A := Answers (if r.2 = true then some s.result else none))
        fun ν' ts hag _ hts => by
          rw [if_pos hts.1]
          exact ⟨s.result, rfl, (hag.rename_eq hsig.2).symm⟩
      refine heach.of_iff fun b y => (hiff b y).trans ?_
      refine exists_congr fun ts => and_congr_left fun _ => and_congr_right fun hts => ?_
      rw [argsFit_iff_forall₂ (by rw [List.length_map, hlen, hts.length_eq])]
    · rw [Rule.call, if_neg hlen] at h₂
      have hexpects : Rule.Target.expects (some ⟨id, some s⟩) args.length = [] := if_neg hlen
      rw [hexpects] at h₁
      obtain ⟨hw₁, -⟩ := walked_checkEach hc hs (List.forall_mem_nil _) h₁
      refine .wrong (Nat.lt_of_le_of_lt hw₁.grown.diagnostics_le (hfail _ _ h₂)) fun b _ y hy => ?_
      obtain ⟨ts, ⟨hts, hall⟩, -⟩ := (hiff b y).mp hy
      rw [← hts.length_eq, hall.length_eq, List.length_map] at hlen
      exact hlen rfl

theorem ExpJudged.record {typeName : Ident} {inits : List (Ident × Exp)}
    (h : ∀ i ∈ inits, ExpJudged i.2) : ExpJudged (.record m typeName inits) := by
  intro ctx c c' ν n e' hc hs hf hrun
  obtain ⟨ty, c₁, fields, c₂, r, h₁, h₂, h₃, rfl⟩ := exists_of_run_record hrun
  obtain ⟨hw₁, hty⟩ := walked_typeOf hc h₁
  have hs₁ := hs.walked hw₁
  have hrule := (Rule.yields_recordFields typeName inits.length hty).of_run h₂
  have hw₂ := hrule.toSays.walked hw₁.sound
  have hfields : ∀ fs, fields = some fs → ∀ f ∈ fs, c₂.types.Has f.ty := by
    intro fs hfs f hmem
    obtain ⟨t, e, -, he, -, rfl⟩ := hrule.some_iff.mp hfs
    have hshape := Arena.record?_eq_some_iff.mp he
    exact hw₂.has (hw₁.sound.rest.closed t _ hshape f.ty (List.mem_map_of_mem hmem))
  have hw₃ := walked_checkInits hw₂.sound (hs₁.walked hw₂) hfields h₃
  refine Judged.of_iff ?_ fun b y => Exp.typed_record_iff
  refine judged_typeOf hc hs hf h₁ (hw₂.trans hw₃).grown fun ν₁ t ht hag₁ henv₁ hf₁ => ?_
  rw [← henv₁]
  have hlook : Judged c₁ ν₁ c₂ n (fun b fs => (∃ e, b.record? (t.rename ν₁) = some e ∧
        fs = e.fields) ∧ fs.length = inits.length)
      fun ν' fs => ∃ gs, fields = some gs ∧ fs = gs.map (·.rename ν') := by
    refine hrule.judged (fun ν' gs => gs.map (·.rename ν')) (by simp [ht]) hf₁ fun b hb fs => ?_
    rw [hb.record?_rename (hty t ht)]
    simp only [Rule.FieldsOf, ht, Option.some.injEq, Option.map_eq_some_iff]
    constructor
    · rintro ⟨⟨_, ⟨e, he, rfl⟩, rfl⟩, hlen⟩
      rw [RecordEntry.rename, List.length_map] at hlen
      exact ⟨e.fields, ⟨t, e, rfl, he, hlen, rfl⟩, rfl⟩
    · rintro ⟨_, ⟨_, e, rfl, he, hlen, rfl⟩, rfl⟩
      exact ⟨⟨_, ⟨e, he, rfl⟩, rfl⟩, by rw [List.length_map, hlen]⟩
  have hall : Judged c₁ ν₁ c' (n + typeDecsInits inits)
      (fun b y => ∃ fs, ((∃ e, b.record? (t.rename ν₁) = some e ∧ fs = e.fields) ∧
        fs.length = inits.length) ∧
        InitsTyped b (c₁.env ν₁) n ctx.inLoop fs inits ∧ y = t.rename ν₁)
      (Answers (if r.2 = true then ty else none)) := by
    refine hlook.bind hw₂.grown hw₂.sound.rest.closed hw₃.grown fun ν₂ fs hfs hag₂ hf₂ => ?_
    obtain ⟨gs, hgs, rfl⟩ := hfs
    have hlen : gs.length = inits.length := by
      obtain ⟨_, e, -, -, hlen, rfl⟩ := hrule.some_iff.mp hgs
      exact hlen
    rw [hgs] at h₃
    have hinits := judged_checkInits h hw₂.sound (hs₁.walked hw₂) hf₂ hlen (hfields gs hgs) h₃
    rw [hw₂.env_eq hw₁.sound hs₁ hag₂] at hinits
    refine (hinits.map (f := fun _ => t.rename ν₁)
      (A := Answers (if r.2 = true then ty else none)) fun ν' _ hag' _ hr => ?_).of_iff fun b y => ?_
    · rw [if_pos hr]
      exact ⟨t, ht, by rw [hag'.rename_eq (hw₂.has (hty t ht)), hag₂.rename_eq (hty t ht)]⟩
    · simp
  refine hall.of_iff fun b y => ?_
  constructor
  · rintro ⟨fs, hfs, hinits, rfl⟩
    exact ⟨fs, ⟨hfs, hinits.length_eq⟩, hinits, rfl⟩
  · rintro ⟨fs, ⟨hfs, -⟩, hinits, rfl⟩
    exact ⟨fs, hfs, hinits, rfl⟩

end

end TigerCheck
