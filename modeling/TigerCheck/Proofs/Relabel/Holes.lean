import TigerCheck.Proofs.Relabel.Stop

/-!
# The walk to a place under a renumbering

The walk over a tree in which one expression is missing passes the stop before that expression: this is proved by
induction on the place. What was checked before the stop is at hand behind it and stays as it is; what is checked
behind it carries over.

* `ExpHole.Still`, `VarHole.Still`, `DecHole.Still`: nothing in a tree gets another number.
* **`ExpHole.passes`**, `VarHole.passes`, `DecHole.passes`.
-/

namespace TigerCheck

open Check Stage

variable {ρ : Relabelling}

/-! ## What stays as it is -/

theorem Exp.ty_self {e : Exp} (h : e.relabel ρ = e) : e.ty.map (·.relabel ρ) = e.ty := by
  rw [← Exp.ty_relabel, h]

theorem Exp.mark_self {e : Exp} (h : e.relabel ρ = e) : e.mark.relabel ρ = e.mark := by
  rw [← Exp.mark_relabel, h]

theorem Var.mark_self {v : Var} (h : v.relabel ρ = v) : v.mark.relabel ρ = v.mark := by
  rw [← Var.mark_relabel, h]

theorem Exp.withMark_mark (e : Exp) : e.withMark e.mark = e := by
  cases e <;> rfl

theorem map_self {α : Type} {f : α → α} {xs ys : List α} {x : α} (h : (xs ++ x :: ys).map f = xs ++ x :: ys) :
    xs.map f = xs ∧ f x = x ∧ ys.map f = ys := by
  rw [List.map_append, List.map_cons] at h
  obtain ⟨hxs, h⟩ := List.append_inj h (List.length_map f)
  exact ⟨hxs, List.cons.inj h⟩

theorem relabelAll_self {xs ys : List Exp} {e : Exp} (h : relabelAll ρ (xs ++ e :: ys) = xs ++ e :: ys) :
    relabelAll ρ xs = xs ∧ e.relabel ρ = e ∧ relabelAll ρ ys = ys := by
  simp only [relabelAll_eq_map] at h ⊢
  exact map_self h

theorem relabelInits_self {xs ys : List (Ident × Exp)} {name : Ident} {e : Exp}
    (h : relabelInits ρ (xs ++ (name, e) :: ys) = xs ++ (name, e) :: ys) :
    relabelInits ρ xs = xs ∧ (name.rename ρ.field = name ∧ e.relabel ρ = e) ∧ relabelInits ρ ys = ys := by
  simp only [relabelInits_eq_map] at h ⊢
  obtain ⟨hxs, h, hys⟩ := map_self h
  exact ⟨hxs, Prod.mk.inj h, hys⟩

theorem relabelDecs_self {xs ys : List Dec} {d : Dec} (h : relabelDecs ρ (xs ++ d :: ys) = xs ++ d :: ys) :
    relabelDecs ρ xs = xs ∧ d.relabel ρ = d ∧ relabelDecs ρ ys = ys := by
  simp only [relabelDecs_eq_map] at h ⊢
  exact map_self h

theorem lastTy_modify {g : Exp → Exp} (hg : ∀ e, (g e).ty = e.ty) (es : List Exp) (n : ℕ) :
    lastTy (es.modify n g) = lastTy es := by
  simp only [lastTy, List.getLast?_eq_getElem?, List.length_modify, List.getElem?_modify]
  cases es[es.length - 1]? with
  | none => rfl
  | some e =>
    simp only [Option.map_eq_map, Option.map_some]
    split_ifs
    · exact hg e
    · rfl

/-- A variable of which the initializer has no type gets its type from its type name alone. -/
theorem Rule.declared_of_none {typeName : Option Ident} {init : Mark} (h : init.ty = none) (literal literal' : Bool) :
    Rule.declared typeName init literal = Rule.declared typeName init literal' := by
  obtain ⟨loc, ty⟩ := init
  subst h
  cases typeName with
  | none => rfl
  | some typeName =>
    refine bind_congr fun declared => ?_
    cases declared <;> rfl

/-! ## Actions that are the same on both sides -/

namespace Stage

variable {T : Stage ρ} {ctx : Context}

theorem carries_alloc_self {name : String} {ty : Option Ty} {kind : SlotKind} (hctx : ctx.relabel ρ = ctx)
    (hty : ty.map (·.relabel ρ) = ty) :
    T.Carries (·.relabel ρ) (alloc ctx.frame name ty kind) (alloc ctx.frame name ty kind) := by
  have h := carries_alloc (S := T) ctx.frame name name ty kind
  rwa [hty, show ctx.frame.relabel ρ = ctx.frame from congrArg Context.frame hctx] at h

theorem carries_bindValue_self {name : String} (hname : ρ.value name = name) (v : VarId) :
    T.Carries id (bindValue name v) (bindValue name (v.relabel ρ)) := by
  have h := carries_bindValue (S := T) name v
  rwa [hname] at h

/-- The scope of a counter, and its body. -/
theorem carries_counting {counter : Ident} {body : Exp} {β : Type} {ψ : β → β} {k k' : VarId → Exp → Check β}
    (hctx : ctx.relabel ρ = ctx) (hcounter : counter.rename ρ.value = counter) (hbody : body.relabel ρ = body)
    (hk : ∀ slot body, T.Carries ψ (k slot body) (k' (slot.relabel ρ) (body.relabel ρ))) :
    T.Carries ψ
      (do
        enterValues
        let slot ← alloc ctx.frame counter.name (some .int) .loopCounter
        bindValue counter.name slot
        let body ← checkExp ctx.enterLoop body
        exitValues
        k slot body)
      (do
        enterValues
        let slot ← alloc ctx.frame counter.name (some .int) .loopCounter
        bindValue counter.name slot
        let body ← checkExp ctx.enterLoop body
        exitValues
        k' slot body) :=
  have hloop : ctx.enterLoop.relabel ρ = ctx.enterLoop := congrArg Context.enterLoop hctx
  carries_enterValues.bind fun _ => Relates.bind (carries_alloc_self hctx rfl) fun slot =>
    Relates.bind (carries_bindValue_self (congrArg Ident.name hcounter) slot) fun _ =>
      Relates.bind (carries_exp_self hloop hbody) fun body => carries_exitValues.bind fun _ => hk slot body

end Stage

theorem Plan.Like.header_eq {header : Header} {plan : Plan} (h : Plan.Like ρ (.functionBody header) plan) :
    plan = .functionBody (header.relabel ρ) := by
  cases h
  rfl

theorem Plan.Like.since_iff {first first' : ℕ} (h : Plan.Like ρ (.variable first) (.variable first')) :
    ∀ i, first ≤ i ↔ first' ≤ ρ.handle .var i := by
  cases h
  assumption

/-! ## What is put in place -/

section

variable (ρ) (x : Exp) (ctx : Context)

/-- No name and no number in the context and in the tree is another one afterwards. -/
def ExpHole.Still (h : ExpHole) : Prop := ctx.relabel ρ = ctx ∧ (h.plug x).relabel ρ = h.plug x

@[inherit_doc ExpHole.Still]
def VarHole.Still (h : VarHole) : Prop := ctx.relabel ρ = ctx ∧ (h.plug x).relabel ρ = h.plug x

@[inherit_doc ExpHole.Still]
def DecHole.Still (h : DecHole) : Prop := ctx.relabel ρ = ctx ∧ (h.plug x).relabel ρ = h.plug x

end

variable {x y₀ y : Exp}

/-- The stand-in at the place is replaced as it is. -/
theorem put_here (hmark : y.mark = y₀.mark) (hnone : y₀.ty = none) : ExpHole.here.put y (y₀.relabel ρ) = y := by
  have hfix : y₀.mark.relabel ρ = y₀.mark := by
    rw [Mark.relabel, show y₀.mark.ty = none from hnone]
    exact congrArg (Mark.mk y₀.mark.loc) hnone.symm
  change y.withMark (y₀.relabel ρ).mark = y
  rw [Exp.mark_relabel, hfix, ← hmark, y.withMark_mark]

/-- What is left of the check of a variable behind its initializer carries over. The rule looks at the syntax of the
initializer only if it has a type. -/
theorem carries_declaring {T : Stage ρ} {ctx : Context} {name : Ident} {typeName : Option Ident} {h : ExpHole}
    {init : Exp} (loc : Location) (slot : Option VarId) (hctx : ctx.relabel ρ = ctx)
    (hname : name.rename ρ.value = name) (htypeName : typeName.map (·.rename ρ.typeName) = typeName)
    (hliteral : init.ty ≠ none → (h.put y (init.relabel ρ)).isLiteral = init.isLiteral) :
    T.Carries (fun r : Dec × Bool => ((DecHole.var name typeName h loc slot).put y (r.1.relabel ρ), r.2))
      (do
        let (ty, ok) ← Rule.declared typeName init.mark init.isLiteral
        let slot ← alloc ctx.frame name.name ty .letBound
        bindValue name.name slot
        return (Dec.var name typeName init loc (some slot), ok))
      (do
        let (ty, ok) ← Rule.declared typeName (h.put y (init.relabel ρ)).mark (h.put y (init.relabel ρ)).isLiteral
        let slot ← alloc ctx.frame name.name ty .letBound
        bindValue name.name slot
        return (.var name typeName (h.put y (init.relabel ρ)) loc (some slot), ok)) := by
  have hmark : (h.put y (init.relabel ρ)).mark = init.mark.relabel ρ := by
    rw [ExpHole.mark_put, Exp.mark_relabel]
  have hrule : T.Carries (Prod.map (Option.map (·.relabel ρ)) id) (Rule.declared typeName init.mark init.isLiteral)
      (Rule.declared typeName (h.put y (init.relabel ρ)).mark (h.put y (init.relabel ρ)).isLiteral) := by
    have h' := carries_declared (S := T) typeName init.mark init.isLiteral
    rw [htypeName, ← hmark] at h'
    by_cases hnone : init.ty = none
    · have hnone' : (h.put y (init.relabel ρ)).mark.ty = none := by
        rw [hmark, Mark.relabel, show init.mark.ty = none from hnone, Option.map_none]
      rwa [Rule.declared_of_none hnone' _ init.isLiteral]
    · rwa [hliteral hnone]
  refine hrule.bind fun r => ?_
  have halloc := carries_alloc (S := T) ctx.frame name.name name.name r.1 .letBound
  rw [show ctx.frame.relabel ρ = ctx.frame from congrArg Context.frame hctx] at halloc
  refine Relates.bind halloc fun id => Relates.bind (carries_bindValue_self (congrArg Ident.name hname) id) fun _ =>
    relates_pure ?_
  simp [DecHole.put, Dec.relabel, hname, htypeName]

/-! ## The walk through a node -/

section

variable (S : Stage ρ) (x y₀ y : Exp)

/-- The walk over the expression passes the stop before the part. -/
def ExpHole.Passes (h : ExpHole) : Prop :=
  ∀ ctx, S.Passes (h.Still ρ x ctx) y₀ y (fun e => h.put y (e.relabel ρ)) (h.enter x ctx)

/-- The walk over the variable passes the stop before the part. -/
def VarHole.Passes (v : VarHole) : Prop :=
  ∀ ctx, S.Passes (v.Still ρ x ctx) y₀ y (fun w => v.put y (w.relabel ρ)) (v.enter x ctx)

/-- The walk over the declaration passes the stop before the part, as planned. -/
def DecHole.Passes (d : DecHole) : Prop :=
  ∀ ctx plan, S.Passes (d.Still ρ x ctx ∧ Plan.Like ρ plan plan) y₀ y
    (fun r => (d.put y (r.1.relabel ρ), r.2)) (d.enter x ctx plan)

end

section

variable {S : Stage ρ} {h : ExpHole} {v : VarHole} {d : DecHole} {m : Mark} {callee typeName name counter : Ident}
  {op : BinOp} {left right value test thenPart elsePart low high body size index : Exp} {base target : Var}
  {decs : List Dec} {head : FunctionHead} {loc : Location} {id : Option FunctionId}
  {slot : Option VarId} {position : Option ℕ}

theorem ExpHole.Passes.here (hmark : y.mark = y₀.mark) (hnone : y₀.ty = none) :
    ExpHole.here.Passes S x y₀ y := fun ctx => by
  rw [ExpHole.enter]
  exact .stop And.left fun _ T => relates_pure (put_here hmark hnone).symm

theorem ExpHole.Passes.var (hv : v.Passes S x y₀ y) : (ExpHole.var m v).Passes S x y₀ y := fun ctx => by
  rw [ExpHole.enter]
  refine ((hv ctx).mono ?_).andThen fun _ T v' => relates_pure ?_
  · rintro ⟨hctx, hfix⟩
    simp only [ExpHole.plug, Exp.relabel, Exp.var.injEq] at hfix
    exact ⟨hctx, hfix.2⟩
  · simp [ExpHole.put, Exp.relabel]

theorem ExpHole.Passes.arg {before after : List Exp} {function : Option FunctionId}
    (hh : h.Passes S x y₀ y) :
    (ExpHole.arg m callee before h after function).Passes S x y₀ y := fun ctx => by
  rw [ExpHole.enter]
  refine .mono (Q := h.Still ρ x ctx ∧ callee.rename ρ.function = callee ∧ relabelAll ρ before = before ∧
    relabelAll ρ after = after ∧ function.map (·.relabel ρ) = function) ?_ ?_
  · refine .bind (carries_target callee.name) ?_ fun target => ?_
    · rintro ⟨_, hcallee, -⟩
      rw [show ρ.function callee.name = callee.name from congrArg Ident.name hcallee]
    refine ((passes_each (h.mark_put y) (hh ctx) after before _).mono ?_).andThen
      fun ⟨⟨_, hcallee, _, _, hfunction⟩, htarget⟩ T r => ?_
    · rintro ⟨⟨hstill, -, hbefore, hafter, -⟩, htarget⟩
      refine ⟨hstill, hstill.1, ?_, hbefore, hafter⟩
      rw [← expects_relabel, ← htarget]
    have hcall := carries_call (S := T) m.loc callee target r.1.length r.2
    rw [hcallee, ← htarget] at hcall
    simp only [List.length_modify, relabelAll_eq_map, List.length_map]
    refine Relates.bind hcall fun ty => relates_pure ?_
    have hid : (target.map (·.id) <|> function).map (·.relabel ρ) = (target.map (·.id) <|> function) := by
      cases target with
      | none => exact hfunction
      | some t => exact congrArg (Option.map Rule.Target.id) htarget.symm
    simp only [ExpHole.put, Exp.relabel, hcallee, hid, relabelAll_eq_map, Mark.relabel_typed]
  · rintro ⟨hctx, hfix⟩
    simp only [ExpHole.plug, Exp.relabel, Exp.call.injEq] at hfix
    obtain ⟨-, hcallee, hargs, hfunction⟩ := hfix
    obtain ⟨hbefore, hplug, hafter⟩ := relabelAll_self hargs
    exact ⟨⟨hctx, hplug⟩, hcallee, hbefore, hafter, hfunction⟩

theorem ExpHole.Passes.binaryLeft (hh : h.Passes S x y₀ y) :
    (ExpHole.binaryLeft m op h right).Passes S x y₀ y := fun ctx => by
  rw [ExpHole.enter]
  refine .mono (Q := h.Still ρ x ctx ∧ right.relabel ρ = right) ?_ ?_
  · refine ((hh ctx).mono And.left).andThen fun ⟨hstill, hright⟩ T left => ?_
    refine Relates.bind (carries_exp_self hstill.1 hright) fun right => ?_
    rw [ExpHole.ty_put, Exp.ty_relabel, Exp.ty_relabel]
    refine (carries_binary op m.loc left.ty right.ty).bind fun ty => relates_pure ?_
    simp [ExpHole.put, Exp.relabel]
  · rintro ⟨hctx, hfix⟩
    simp only [ExpHole.plug, Exp.relabel, Exp.binary.injEq] at hfix
    exact ⟨⟨hctx, hfix.2.2.1⟩, hfix.2.2.2⟩

theorem ExpHole.Passes.binaryRight (hh : h.Passes S x y₀ y) :
    (ExpHole.binaryRight m op left h).Passes S x y₀ y := fun ctx => by
  rw [ExpHole.enter]
  refine .mono (Q := h.Still ρ x ctx ∧ left.relabel ρ = left) ?_ ?_
  · refine .bind (carries_exp left ctx) (fun ⟨hstill, hleft⟩ => by rw [hstill.1, hleft]) fun left' => ?_
    refine ((hh ctx).mono fun hP => hP.1.1).andThen fun ⟨_, hleft⟩ T right => ?_
    have hrule := carries_binary (S := T) op m.loc left'.ty right.ty
    rw [Exp.ty_self hleft.symm, ← Exp.ty_relabel right, ← ExpHole.ty_put y h (right.relabel ρ)] at hrule
    refine Relates.bind hrule fun ty => relates_pure ?_
    simp [ExpHole.put, Exp.relabel, ← hleft]
  · rintro ⟨hctx, hfix⟩
    simp only [ExpHole.plug, Exp.relabel, Exp.binary.injEq] at hfix
    exact ⟨⟨hctx, hfix.2.2.2⟩, hfix.2.2.1⟩

theorem ExpHole.Passes.init {before after : List (Ident × Exp)} (hh : h.Passes S x y₀ y) :
    (ExpHole.init m typeName before name h after).Passes S x y₀ y := fun ctx => by
  rw [ExpHole.enter]
  refine .mono (Q := h.Still ρ x ctx ∧ typeName.rename ρ.typeName = typeName ∧ name.rename ρ.field = name ∧
    relabelInits ρ before = before ∧ relabelInits ρ after = after) ?_ ?_
  · refine .bind (carries_typeOf typeName) (fun ⟨_, htypeName, _⟩ => by rw [htypeName]) fun ty =>
      .bind (carries_recordFields m.loc typeName _ ty) ?_ fun fields => ?_
    · rintro ⟨⟨-, htypeName, -⟩, hty⟩
      rw [htypeName, ← hty]
    refine ((passes_inits (h.mark_put y) (hh ctx) after before fields).mono ?_).andThen
      fun ⟨⟨⟨_, htypeName, _⟩, hty⟩, _⟩ T r => relates_pure ?_
    · rintro ⟨⟨⟨hstill, htypeName, hname, hbefore, hafter⟩, -⟩, hfields⟩
      exact ⟨hstill, hstill.1, hfields.symm, congrArg Ident.name htypeName, hname, hbefore, hafter⟩
    · obtain ⟨inits, fit⟩ := r
      cases fit <;> simp [ExpHole.put, Exp.relabel, htypeName, ← hty]
  · rintro ⟨hctx, hfix⟩
    simp only [ExpHole.plug, Exp.relabel, Exp.record.injEq] at hfix
    obtain ⟨-, htypeName, hinits⟩ := hfix
    obtain ⟨hbefore, ⟨hname, hplug⟩, hafter⟩ := relabelInits_self hinits
    exact ⟨⟨hctx, hplug⟩, htypeName, hname, hbefore, hafter⟩

theorem ExpHole.Passes.item {before after : List Exp} (hh : h.Passes S x y₀ y) :
    (ExpHole.item m before h after).Passes S x y₀ y := fun ctx => by
  rw [ExpHole.enter]
  refine .mono (Q := h.Still ρ x ctx ∧ relabelAll ρ before = before ∧ relabelAll ρ after = after) ?_ ?_
  · refine ((passes_each (h.mark_put y) (hh ctx) after before []).mono ?_).andThen
      fun _ T r => relates_pure ?_
    · rintro ⟨hstill, hbefore, hafter⟩
      exact ⟨hstill, hstill.1, rfl, hbefore, hafter⟩
    · obtain ⟨items, fit⟩ := r
      cases fit <;> simp [ExpHole.put, Exp.relabel, lastTy_modify (h.ty_put y), lastTy_relabelAll]
  · rintro ⟨hctx, hfix⟩
    simp only [ExpHole.plug, Exp.relabel, Exp.seq.injEq] at hfix
    obtain ⟨hbefore, hplug, hafter⟩ := relabelAll_self hfix.2
    exact ⟨⟨hctx, hplug⟩, hbefore, hafter⟩

theorem ExpHole.Passes.assignTarget (hv : v.Passes S x y₀ y) :
    (ExpHole.assignTarget m v value).Passes S x y₀ y := fun ctx => by
  rw [ExpHole.enter]
  refine .mono (Q := v.Still ρ x ctx ∧ value.relabel ρ = value) ?_ ?_
  · refine ((hv ctx).mono And.left).andThen fun ⟨hstill, hvalue⟩ T target => ?_
    refine Relates.bind (carries_exp_self hstill.1 hvalue) fun value => ?_
    rw [VarHole.mark_put, Var.mark_relabel, Exp.mark_relabel]
    refine (carries_assign target.mark value.mark).bind fun ty => relates_pure ?_
    simp [ExpHole.put, Exp.relabel]
  · rintro ⟨hctx, hfix⟩
    simp only [ExpHole.plug, Exp.relabel, Exp.assign.injEq] at hfix
    exact ⟨⟨hctx, hfix.2.1⟩, hfix.2.2⟩

theorem ExpHole.Passes.assignValue (hh : h.Passes S x y₀ y) :
    (ExpHole.assignValue m target h).Passes S x y₀ y := fun ctx => by
  rw [ExpHole.enter]
  refine .mono (Q := h.Still ρ x ctx ∧ target.relabel ρ = target) ?_ ?_
  · refine .bind (carries_var target ctx) (fun ⟨hstill, htarget⟩ => by rw [hstill.1, htarget]) fun target' => ?_
    refine ((hh ctx).mono fun hP => hP.1.1).andThen fun ⟨_, htarget⟩ T value => ?_
    have hrule := carries_assign (S := T) target'.mark value.mark
    rw [Var.mark_self htarget.symm, ← Exp.mark_relabel value, ← ExpHole.mark_put y h (value.relabel ρ)] at hrule
    refine Relates.bind hrule fun ty => relates_pure ?_
    simp [ExpHole.put, Exp.relabel, ← htarget]
  · rintro ⟨hctx, hfix⟩
    simp only [ExpHole.plug, Exp.relabel, Exp.assign.injEq] at hfix
    exact ⟨⟨hctx, hfix.2.2⟩, hfix.2.1⟩

theorem ExpHole.Passes.condTestNone (hh : h.Passes S x y₀ y) :
    (ExpHole.condTest m h thenPart none).Passes S x y₀ y := fun ctx => by
  rw [ExpHole.enter]
  refine .mono (Q := h.Still ρ x ctx ∧ thenPart.relabel ρ = thenPart) ?_ ?_
  · refine ((hh ctx).mono And.left).andThen fun ⟨hstill, hthen⟩ T test => ?_
    refine Relates.bind (carries_exp_self hstill.1 hthen) fun thenPart => ?_
    rw [ExpHole.mark_put, Exp.mark_relabel, Exp.mark_relabel]
    refine (carries_cond m.loc test.mark thenPart.mark none).bind fun ty => relates_pure ?_
    simp [ExpHole.put, Exp.relabel]
  · rintro ⟨hctx, hfix⟩
    simp only [ExpHole.plug, Exp.relabel, Exp.cond.injEq] at hfix
    exact ⟨⟨hctx, hfix.2.1⟩, hfix.2.2.1⟩

theorem ExpHole.Passes.condTestSome (hh : h.Passes S x y₀ y) :
    (ExpHole.condTest m h thenPart (some elsePart)).Passes S x y₀ y := fun ctx => by
  rw [ExpHole.enter]
  refine .mono (Q := h.Still ρ x ctx ∧ thenPart.relabel ρ = thenPart ∧ elsePart.relabel ρ = elsePart) ?_ ?_
  · refine ((hh ctx).mono And.left).andThen fun ⟨hstill, hthen, helse⟩ T test => ?_
    refine Relates.bind (carries_exp_self hstill.1 hthen) fun thenPart =>
      Relates.bind (carries_exp_self hstill.1 helse) fun elsePart => ?_
    rw [ExpHole.mark_put, Exp.mark_relabel, Exp.mark_relabel, Exp.mark_relabel]
    refine (carries_cond m.loc test.mark thenPart.mark (some elsePart.mark)).bind fun ty => relates_pure ?_
    simp [ExpHole.put, Exp.relabel]
  · rintro ⟨hctx, hfix⟩
    simp only [ExpHole.plug, Exp.relabel, Exp.cond.injEq, Option.some.injEq] at hfix
    exact ⟨⟨hctx, hfix.2.1⟩, hfix.2.2⟩

theorem ExpHole.Passes.condThenNone (hh : h.Passes S x y₀ y) :
    (ExpHole.condThen m test h none).Passes S x y₀ y := fun ctx => by
  rw [ExpHole.enter]
  refine .mono (Q := h.Still ρ x ctx ∧ test.relabel ρ = test) ?_ ?_
  · refine .bind (carries_exp test ctx) (fun ⟨hstill, htest⟩ => by rw [hstill.1, htest]) fun test' => ?_
    refine ((hh ctx).mono fun hP => hP.1.1).andThen fun ⟨_, htest⟩ T thenPart => ?_
    have hrule := carries_cond (S := T) m.loc test'.mark thenPart.mark none
    rw [Exp.mark_self htest.symm, ← Exp.mark_relabel thenPart, ← ExpHole.mark_put y h (thenPart.relabel ρ)]
      at hrule
    refine Relates.bind hrule fun ty => relates_pure ?_
    simp [ExpHole.put, Exp.relabel, ← htest]
  · rintro ⟨hctx, hfix⟩
    simp only [ExpHole.plug, Exp.relabel, Exp.cond.injEq] at hfix
    exact ⟨⟨hctx, hfix.2.2.1⟩, hfix.2.1⟩

theorem ExpHole.Passes.condThenSome (hh : h.Passes S x y₀ y) :
    (ExpHole.condThen m test h (some elsePart)).Passes S x y₀ y := fun ctx => by
  rw [ExpHole.enter]
  refine .mono (Q := (h.Still ρ x ctx ∧ elsePart.relabel ρ = elsePart) ∧ test.relabel ρ = test) ?_ ?_
  · refine .bind (carries_exp test ctx) (fun ⟨⟨hstill, _⟩, htest⟩ => by rw [hstill.1, htest]) fun test' => ?_
    refine ((hh ctx).mono fun hP => hP.1.1.1).andThen
      fun ⟨⟨⟨hstill, helse⟩, _⟩, htest⟩ T thenPart => Relates.bind (carries_exp_self hstill.1 helse) fun elsePart => ?_
    have hrule := carries_cond (S := T) m.loc test'.mark thenPart.mark (some elsePart.mark)
    rw [Exp.mark_self htest.symm, ← Exp.mark_relabel thenPart, ← ExpHole.mark_put y h (thenPart.relabel ρ),
      Option.map_some, ← Exp.mark_relabel elsePart] at hrule
    refine Relates.bind hrule fun ty => relates_pure ?_
    simp [ExpHole.put, Exp.relabel, ← htest]
  · rintro ⟨hctx, hfix⟩
    simp only [ExpHole.plug, Exp.relabel, Exp.cond.injEq, Option.some.injEq] at hfix
    exact ⟨⟨⟨hctx, hfix.2.2.1⟩, hfix.2.2.2⟩, hfix.2.1⟩

theorem ExpHole.Passes.condElse (hh : h.Passes S x y₀ y) :
    (ExpHole.condElse m test thenPart h).Passes S x y₀ y := fun ctx => by
  rw [ExpHole.enter]
  refine .mono (Q := h.Still ρ x ctx ∧ test.relabel ρ = test ∧ thenPart.relabel ρ = thenPart) ?_ ?_
  · refine .bind (carries_exp test ctx) (fun ⟨hstill, htest, _⟩ => by rw [hstill.1, htest]) fun test' =>
      .bind (carries_exp thenPart ctx) (fun ⟨⟨hstill, _, hthen⟩, _⟩ => by rw [hstill.1, hthen]) fun thenPart' => ?_
    refine ((hh ctx).mono fun hP => hP.1.1.1).andThen fun ⟨⟨_, htest⟩, hthen⟩ T elsePart => ?_
    have hrule := carries_cond (S := T) m.loc test'.mark thenPart'.mark (some elsePart.mark)
    rw [Exp.mark_self htest.symm, Exp.mark_self hthen.symm, Option.map_some, ← Exp.mark_relabel elsePart,
      ← ExpHole.mark_put y h (elsePart.relabel ρ)] at hrule
    refine Relates.bind hrule fun ty => relates_pure ?_
    simp [ExpHole.put, Exp.relabel, ← htest, ← hthen]
  · rintro ⟨hctx, hfix⟩
    simp only [ExpHole.plug, Exp.relabel, Exp.cond.injEq, Option.some.injEq] at hfix
    exact ⟨⟨hctx, hfix.2.2.2⟩, hfix.2.1, hfix.2.2.1⟩

theorem ExpHole.Passes.whileTest (hh : h.Passes S x y₀ y) :
    (ExpHole.whileTest m h body).Passes S x y₀ y := fun ctx => by
  rw [ExpHole.enter]
  refine .mono (Q := h.Still ρ x ctx ∧ body.relabel ρ = body) ?_ ?_
  · refine ((hh ctx).mono And.left).andThen fun ⟨hstill, hbody⟩ T test => ?_
    refine Relates.bind (carries_exp_self (congrArg Context.enterLoop hstill.1) hbody) fun body => ?_
    rw [ExpHole.mark_put, Exp.mark_relabel, Exp.mark_relabel]
    refine (carries_loop test.mark body.mark).bind fun ty => relates_pure ?_
    simp [ExpHole.put, Exp.relabel]
  · rintro ⟨hctx, hfix⟩
    simp only [ExpHole.plug, Exp.relabel, Exp.whileLoop.injEq] at hfix
    exact ⟨⟨hctx, hfix.2.1⟩, hfix.2.2⟩

theorem ExpHole.Passes.whileBody (hh : h.Passes S x y₀ y) :
    (ExpHole.whileBody m test h).Passes S x y₀ y := fun ctx => by
  rw [ExpHole.enter]
  refine .mono (Q := h.Still ρ x ctx ∧ test.relabel ρ = test) ?_ ?_
  · refine .bind (carries_exp test ctx) (fun ⟨hstill, htest⟩ => by rw [hstill.1, htest]) fun test' => ?_
    refine ((hh ctx.enterLoop).mono fun ⟨⟨⟨hctx, hplug⟩, _⟩, _⟩ =>
      ⟨congrArg Context.enterLoop hctx, hplug⟩).andThen fun ⟨_, htest⟩ T body => ?_
    have hrule := carries_loop (S := T) test'.mark body.mark
    rw [Exp.mark_self htest.symm, ← Exp.mark_relabel body, ← ExpHole.mark_put y h (body.relabel ρ)] at hrule
    refine Relates.bind hrule fun ty => relates_pure ?_
    simp [ExpHole.put, Exp.relabel, ← htest]
  · rintro ⟨hctx, hfix⟩
    simp only [ExpHole.plug, Exp.relabel, Exp.whileLoop.injEq] at hfix
    exact ⟨⟨hctx, hfix.2.2⟩, hfix.2.1⟩

theorem ExpHole.Passes.doBody (hh : h.Passes S x y₀ y) : (ExpHole.doBody m h test).Passes S x y₀ y := fun ctx => by
  rw [ExpHole.enter]
  refine .mono (Q := h.Still ρ x ctx ∧ test.relabel ρ = test) ?_ ?_
  · refine ((hh ctx.enterLoop).mono fun ⟨⟨hctx, hplug⟩, _⟩ =>
      ⟨congrArg Context.enterLoop hctx, hplug⟩).andThen fun ⟨hstill, htest⟩ T body => ?_
    refine Relates.bind (carries_exp_self hstill.1 htest) fun test => ?_
    rw [ExpHole.mark_put, Exp.mark_relabel, Exp.mark_relabel]
    refine (carries_loop test.mark body.mark).bind fun ty => relates_pure ?_
    simp [ExpHole.put, Exp.relabel]
  · rintro ⟨hctx, hfix⟩
    simp only [ExpHole.plug, Exp.relabel, Exp.doWhile.injEq] at hfix
    exact ⟨⟨hctx, hfix.2.1⟩, hfix.2.2⟩

theorem ExpHole.Passes.doTest (hh : h.Passes S x y₀ y) : (ExpHole.doTest m body h).Passes S x y₀ y := fun ctx => by
  rw [ExpHole.enter]
  refine .mono (Q := h.Still ρ x ctx ∧ body.relabel ρ = body) ?_ ?_
  · refine .bind (carries_exp body ctx.enterLoop) (fun ⟨hstill, hbody⟩ => by
      rw [enterLoop_relabel, hstill.1, hbody]) fun body' => ?_
    refine ((hh ctx).mono fun hP => hP.1.1).andThen fun ⟨_, hbody⟩ T test => ?_
    have hrule := carries_loop (S := T) test.mark body'.mark
    rw [Exp.mark_self hbody.symm, ← Exp.mark_relabel test, ← ExpHole.mark_put y h (test.relabel ρ)] at hrule
    refine Relates.bind hrule fun ty => relates_pure ?_
    simp [ExpHole.put, Exp.relabel, ← hbody]
  · rintro ⟨hctx, hfix⟩
    simp only [ExpHole.plug, Exp.relabel, Exp.doWhile.injEq] at hfix
    exact ⟨⟨hctx, hfix.2.2⟩, hfix.2.1⟩

theorem ExpHole.Passes.forLow (hh : h.Passes S x y₀ y) :
    (ExpHole.forLow m counter h high body slot).Passes S x y₀ y := fun ctx => by
  rw [ExpHole.enter]
  refine .mono (Q := h.Still ρ x ctx ∧ counter.rename ρ.value = counter ∧ high.relabel ρ = high ∧
    body.relabel ρ = body) ?_ ?_
  · refine ((hh ctx).mono And.left).andThen fun ⟨hstill, hcounter, hhigh, hbody⟩ T low => ?_
    refine Relates.bind (carries_exp_self hstill.1 hhigh) fun high => ?_
    rw [ExpHole.ty_put, Exp.ty_relabel, Exp.ty_relabel]
    refine (carries_bounds m.loc low.ty high.ty).bind fun fit =>
      carries_counting hstill.1 hcounter hbody fun slot body => relates_pure ?_
    rw [Exp.ty_relabel]
    cases fit <;> cases body.ty <;> simp [ExpHole.put, Exp.relabel, Ty.relabel, hcounter]
  · rintro ⟨hctx, hfix⟩
    simp only [ExpHole.plug, Exp.relabel, Exp.forLoop.injEq] at hfix
    exact ⟨⟨hctx, hfix.2.2.1⟩, hfix.2.1, hfix.2.2.2.1, hfix.2.2.2.2.1⟩

theorem ExpHole.Passes.forHigh (hh : h.Passes S x y₀ y) :
    (ExpHole.forHigh m counter low h body slot).Passes S x y₀ y := fun ctx => by
  rw [ExpHole.enter]
  refine .mono (Q := (h.Still ρ x ctx ∧ counter.rename ρ.value = counter ∧ body.relabel ρ = body) ∧
    low.relabel ρ = low) ?_ ?_
  · refine .bind (carries_exp low ctx) (fun ⟨⟨hstill, _⟩, hlow⟩ => by rw [hstill.1, hlow]) fun low' => ?_
    refine ((hh ctx).mono fun hP => hP.1.1.1).andThen
      fun ⟨⟨⟨hstill, hcounter, hbody⟩, _⟩, hlow⟩ T high => ?_
    have hrule := carries_bounds (S := T) m.loc low'.ty high.ty
    rw [Exp.ty_self hlow.symm, ← Exp.ty_relabel high, ← ExpHole.ty_put y h (high.relabel ρ)] at hrule
    refine Relates.bind hrule fun fit => carries_counting hstill.1 hcounter hbody fun slot body => relates_pure ?_
    rw [Exp.ty_relabel]
    cases fit <;> cases body.ty <;> simp [ExpHole.put, Exp.relabel, Ty.relabel, hcounter, ← hlow]
  · rintro ⟨hctx, hfix⟩
    simp only [ExpHole.plug, Exp.relabel, Exp.forLoop.injEq] at hfix
    exact ⟨⟨⟨hctx, hfix.2.2.2.1⟩, hfix.2.1, hfix.2.2.2.2.1⟩, hfix.2.2.1⟩

theorem ExpHole.Passes.forBody (hh : h.Passes S x y₀ y) :
    (ExpHole.forBody m counter low high h slot).Passes S x y₀ y := fun ctx => by
  rw [ExpHole.enter]
  refine .mono (Q := h.Still ρ x ctx ∧ counter.rename ρ.value = counter ∧ low.relabel ρ = low ∧
    high.relabel ρ = high) ?_ ?_
  · refine .bind (carries_exp low ctx) (fun ⟨hstill, _, hlow, _⟩ => by rw [hstill.1, hlow]) fun low' =>
      .bind (carries_exp high ctx) (fun ⟨⟨hstill, _, _, hhigh⟩, _⟩ => by rw [hstill.1, hhigh]) fun high' =>
      .bind (carries_bounds m.loc low'.ty high'.ty) (fun ⟨⟨_, hlow⟩, hhigh⟩ => by
        rw [Exp.ty_self hlow.symm, Exp.ty_self hhigh.symm]) fun fit =>
      .bind carries_enterValues (fun _ => rfl) fun _ =>
      .bind (carries_alloc ctx.frame counter.name counter.name (some .int) .loopCounter) ?_ fun slot =>
      .bind (carries_bindValue counter.name slot) ?_ fun _ => ?_
    · rintro ⟨⟨⟨⟨⟨hstill, -⟩, -⟩, -⟩, -⟩, -⟩
      rw [show ctx.frame.relabel ρ = ctx.frame from congrArg Context.frame hstill.1]
      rfl
    · rintro ⟨⟨⟨⟨⟨⟨_, hcounter, -⟩, -⟩, -⟩, -⟩, -⟩, hslot⟩
      rw [show ρ.value counter.name = counter.name from congrArg Ident.name hcounter]
      exact congrArg (bindValue counter.name) hslot.symm
    refine ((hh ctx.enterLoop).mono fun hP => ?_).andThen fun hP T body =>
      carries_exitValues.bind fun _ => relates_pure ?_
    · obtain ⟨⟨⟨⟨⟨⟨⟨hstill, -⟩, -⟩, -⟩, -⟩, -⟩, -⟩, -⟩ := hP
      exact ⟨congrArg Context.enterLoop hstill.1, hstill.2⟩
    · obtain ⟨⟨⟨⟨⟨⟨⟨_, hcounter, -⟩, hlow⟩, hhigh⟩, -⟩, -⟩, hslot⟩, -⟩ := hP
      have hlow : low'.relabel ρ = low' := hlow.symm
      have hhigh : high'.relabel ρ = high' := hhigh.symm
      have hslot : slot.relabel ρ = slot := hslot.symm
      rw [ExpHole.ty_put, Exp.ty_relabel]
      cases fit <;> cases body.ty <;> simp [ExpHole.put, Exp.relabel, Ty.relabel, hcounter, hlow, hhigh, hslot]
  · rintro ⟨hctx, hfix⟩
    simp only [ExpHole.plug, Exp.relabel, Exp.forLoop.injEq] at hfix
    exact ⟨⟨hctx, hfix.2.2.2.2.1⟩, hfix.2.1, hfix.2.2.1, hfix.2.2.2.1⟩

theorem ExpHole.Passes.letDec {before after : List Dec} (hd : d.Passes S x y₀ y) :
    (ExpHole.letDec m before d after body).Passes S x y₀ y := fun ctx => by
  rw [ExpHole.enter]
  refine .mono (Q := d.Still ρ x ctx ∧ relabelDecs ρ before = before ∧
    relabelDecs ρ (d.plug x :: after) = d.plug x :: after ∧ body.relabel ρ = body) ?_ ?_
  · refine .bind carries_enterScopes (fun _ => rfl) fun _ => ?_
    refine ((passes_decs (hd ctx) after before []).mono ?_).andThen
      fun ⟨⟨hstill, _, _, hbody⟩, _⟩ T r => ?_
    · rintro ⟨⟨hstill, hbefore, hafter, -⟩, -⟩
      exact ⟨hstill, hstill.1, .nil, hbefore, hafter⟩
    refine Relates.bind (carries_exp_self hstill.1 hbody) fun body => carries_exitScopes.bind fun _ =>
      relates_pure ?_
    obtain ⟨decs, fit⟩ := r
    cases fit <;> simp [ExpHole.put, Exp.relabel]
  · rintro ⟨hctx, hfix⟩
    simp only [ExpHole.plug, Exp.relabel, Exp.letIn.injEq] at hfix
    obtain ⟨-, hdecs, hbody⟩ := hfix
    obtain ⟨hbefore, hplug, hafter⟩ := relabelDecs_self hdecs
    exact ⟨⟨hctx, hplug⟩, hbefore, by rw [relabelDecs, hplug, hafter], hbody⟩

theorem ExpHole.Passes.letBody (hh : h.Passes S x y₀ y) : (ExpHole.letBody m decs h).Passes S x y₀ y := fun ctx => by
  rw [ExpHole.enter]
  refine .mono (Q := h.Still ρ x ctx ∧ relabelDecs ρ decs = decs) ?_ ?_
  · refine .bind carries_enterScopes (fun _ => rfl) fun _ =>
      .bind (carries_decs decs [] [] .nil ctx) (fun ⟨⟨hstill, hdecs⟩, _⟩ => by rw [hstill.1, hdecs]) fun r => ?_
    refine ((hh ctx).mono fun hP => hP.1.1.1).andThen fun ⟨_, hr⟩ T body =>
      carries_exitScopes.bind fun _ => relates_pure ?_
    have hdecs : relabelDecs ρ r.1 = r.1 := congrArg Prod.fst hr.symm
    obtain ⟨decs, fit⟩ := r
    cases fit <;> simp [ExpHole.put, Exp.relabel, hdecs]
  · rintro ⟨hctx, hfix⟩
    simp only [ExpHole.plug, Exp.relabel, Exp.letIn.injEq] at hfix
    exact ⟨⟨hctx, hfix.2.2⟩, hfix.2.1⟩

theorem ExpHole.Passes.arraySize {init : Exp} (hh : h.Passes S x y₀ y) :
    (ExpHole.arraySize m typeName h init).Passes S x y₀ y := fun ctx => by
  rw [ExpHole.enter]
  refine .mono (Q := h.Still ρ x ctx ∧ typeName.rename ρ.typeName = typeName ∧ init.relabel ρ = init) ?_ ?_
  · refine .bind (carries_typeOf typeName) (fun ⟨_, htypeName, _⟩ => by rw [htypeName]) fun ty => ?_
    refine ((hh ctx).mono fun hP => hP.1.1).andThen
      fun ⟨⟨hstill, htypeName, hinit⟩, hty⟩ T size => Relates.bind (carries_exp_self hstill.1 hinit) fun init => ?_
    have hrule := carries_array (S := T) typeName ty size.mark init.mark
    rw [htypeName, ← hty, ← Exp.mark_relabel size, ← ExpHole.mark_put y h (size.relabel ρ),
      ← Exp.mark_relabel init] at hrule
    refine Relates.bind hrule fun ty => relates_pure ?_
    simp [ExpHole.put, Exp.relabel, htypeName]
  · rintro ⟨hctx, hfix⟩
    simp only [ExpHole.plug, Exp.relabel, Exp.array.injEq] at hfix
    exact ⟨⟨hctx, hfix.2.2.1⟩, hfix.2.1, hfix.2.2.2⟩

theorem ExpHole.Passes.arrayInit (hh : h.Passes S x y₀ y) :
    (ExpHole.arrayInit m typeName size h).Passes S x y₀ y := fun ctx => by
  rw [ExpHole.enter]
  refine .mono (Q := h.Still ρ x ctx ∧ typeName.rename ρ.typeName = typeName ∧ size.relabel ρ = size) ?_ ?_
  · refine .bind (carries_typeOf typeName) (fun ⟨_, htypeName, _⟩ => by rw [htypeName]) fun ty =>
      .bind (carries_exp size ctx) (fun ⟨⟨hstill, _, hsize⟩, _⟩ => by rw [hstill.1, hsize]) fun size' => ?_
    refine ((hh ctx).mono fun hP => hP.1.1.1).andThen
      fun ⟨⟨⟨_, htypeName, _⟩, hty⟩, hsize⟩ T init => ?_
    have hrule := carries_array (S := T) typeName ty size'.mark init.mark
    rw [htypeName, ← hty, Exp.mark_self hsize.symm, ← Exp.mark_relabel init,
      ← ExpHole.mark_put y h (init.relabel ρ)] at hrule
    refine Relates.bind hrule fun ty => relates_pure ?_
    simp [ExpHole.put, Exp.relabel, htypeName, ← hsize]
  · rintro ⟨hctx, hfix⟩
    simp only [ExpHole.plug, Exp.relabel, Exp.array.injEq] at hfix
    exact ⟨⟨hctx, hfix.2.2.2⟩, hfix.2.1, hfix.2.2.1⟩

theorem VarHole.Passes.field (hv : v.Passes S x y₀ y) :
    (VarHole.field m v name position).Passes S x y₀ y := fun ctx => by
  rw [VarHole.enter]
  refine .mono (Q := v.Still ρ x ctx ∧ name.rename ρ.field = name) ?_ ?_
  · refine ((hv ctx).mono And.left).andThen fun ⟨_, hname⟩ T base => ?_
    have hrule := carries_field (S := T) m.loc base.mark name
    rw [hname, ← Var.mark_relabel base, ← VarHole.mark_put y v (base.relabel ρ)] at hrule
    refine Relates.bind hrule fun r => relates_pure ?_
    simp [VarHole.put, Var.relabel, hname]
  · rintro ⟨hctx, hfix⟩
    simp only [VarHole.plug, Var.relabel, Var.field.injEq] at hfix
    exact ⟨⟨hctx, hfix.2.1⟩, hfix.2.2.1⟩

theorem VarHole.Passes.elementBase (hv : v.Passes S x y₀ y) :
    (VarHole.elementBase m v index).Passes S x y₀ y := fun ctx => by
  rw [VarHole.enter]
  refine .mono (Q := v.Still ρ x ctx ∧ index.relabel ρ = index) ?_ ?_
  · refine ((hv ctx).mono And.left).andThen fun ⟨hstill, hindex⟩ T base => ?_
    refine Relates.bind (carries_exp_self hstill.1 hindex) fun index => ?_
    rw [VarHole.mark_put, Var.mark_relabel, Exp.mark_relabel]
    refine (carries_element base.mark index.mark).bind fun ty => relates_pure ?_
    simp [VarHole.put, Var.relabel]
  · rintro ⟨hctx, hfix⟩
    simp only [VarHole.plug, Var.relabel, Var.element.injEq] at hfix
    exact ⟨⟨hctx, hfix.2.1⟩, hfix.2.2⟩

theorem VarHole.Passes.elementIndex (hh : h.Passes S x y₀ y) :
    (VarHole.elementIndex m base h).Passes S x y₀ y := fun ctx => by
  rw [VarHole.enter]
  refine .mono (Q := h.Still ρ x ctx ∧ base.relabel ρ = base) ?_ ?_
  · refine .bind (carries_var base ctx) (fun ⟨hstill, hbase⟩ => by rw [hstill.1, hbase]) fun base' => ?_
    refine ((hh ctx).mono fun hP => hP.1.1).andThen fun ⟨_, hbase⟩ T index => ?_
    have hrule := carries_element (S := T) base'.mark index.mark
    rw [Var.mark_self hbase.symm, ← Exp.mark_relabel index, ← ExpHole.mark_put y h (index.relabel ρ)] at hrule
    refine Relates.bind hrule fun ty => relates_pure ?_
    simp [VarHole.put, Var.relabel, ← hbase]
  · rintro ⟨hctx, hfix⟩
    simp only [VarHole.plug, Var.relabel, Var.element.injEq] at hfix
    exact ⟨⟨hctx, hfix.2.2⟩, hfix.2.1⟩

theorem DecHole.Passes.function (hh : h.Passes S x y₀ y) :
    (DecHole.function head h loc id).Passes S x y₀ y := fun ctx plan => by
  cases plan with
  | functionBody header =>
    rw [DecHole.enter]
    refine .mono (Q := (h.plug x).relabel ρ = h.plug x ∧ head.relabel ρ = head ∧ header.relabel ρ = header) ?_ ?_
    · refine .bind carries_enterValues (fun _ => rfl) fun _ =>
        .bind (carries_bindParams head.params header.params) ?_ fun _ => ?_
      · rintro ⟨⟨-, hhead, hheader⟩, -⟩
        rw [show head.params.map (·.rename ρ.value ρ.typeName) = head.params from congrArg FunctionHead.params hhead,
          show header.params.map (·.relabel ρ) = header.params from congrArg Header.params hheader]
      refine ((hh ⟨header.level, header.frame, 0⟩).mono ?_).andThen
        fun ⟨⟨⟨_, hhead, hheader⟩, _⟩, _⟩ T body => carries_exitValues.bind fun _ => ?_
      · rintro ⟨⟨⟨hplug, -, hheader⟩, -⟩, -⟩
        exact ⟨congrArg (fun f => Context.mk header.level f 0) (congrArg Header.frame hheader), hplug⟩
      have hfinal := carries_finalize (S := T) header.frame
      rw [show header.frame.relabel ρ = header.frame from congrArg Header.frame hheader] at hfinal
      refine Relates.bind hfinal fun _ => ?_
      have hrule := carries_body (S := T) header.result body.mark
      rw [show header.result.map (·.relabel ρ) = header.result from congrArg Header.result hheader,
        ← Exp.mark_relabel body, ← ExpHole.mark_put y h (body.relabel ρ)] at hrule
      refine Relates.bind hrule fun ok => relates_pure ?_
      have hid : header.id.relabel ρ = header.id := congrArg Header.id hheader
      simp [DecHole.put, Dec.relabel, hhead, hid]
    · rintro ⟨⟨-, hfix⟩, hlike⟩
      simp only [DecHole.plug, Dec.relabel, Dec.function.injEq] at hfix
      exact ⟨hfix.2.1, hfix.1, (Plan.functionBody.inj hlike.header_eq).symm⟩
  | _ => exact .throw

theorem DecHole.Passes.var {typeName : Option Ident} (hmark : y.mark = y₀.mark) (hnone : y₀.ty = none)
    (hh : h.Passes S x y₀ y) :
    (DecHole.var name typeName h loc slot).Passes S x y₀ y := fun ctx plan => by
  cases plan with
  | «variable» first =>
    rw [DecHole.enter]
    refine .mono (Q := (h.Still ρ x ctx ∧ name.rename ρ.value = name ∧
      typeName.map (·.rename ρ.typeName) = typeName) ∧ Plan.Like ρ (.variable first) (.variable first)) ?_ ?_
    · obtain ⟨_, hfirst⟩ := Plan.exists_like S.faithful (.variable first)
      cases hfirst with
      | since hfirst =>
      refine .step (R := fun b b' => b' = id b) (fun c b c' hrun =>
        (carries_boundSince (S := S) hfirst name.name c b c' hrun).1) ?_ fun bound => .ite .throw ?_
      · rintro ⟨⟨_, hname, -⟩, hlike⟩
        have hbound := carries_boundSince (S := S) hlike.since_iff name.name
        rwa [show ρ.value name.name = name.name from congrArg Ident.name hname] at hbound
      by_cases hne : h = .here
      · subst hne
        rw [ExpHole.enter, pure_bind]
        refine .stop (fun hP => hP.1.1.1.1) fun ⟨⟨⟨hstill, hname, htypeName⟩, _⟩, _⟩ T => ?_
        have hrest := carries_declaring (T := T) (h := .here) (y := y) loc slot hstill.1 hname htypeName (absurd hnone)
        rwa [put_here hmark hnone] at hrest
      · exact ((hh ctx).mono fun hP => hP.1.1.1).andThen
          fun ⟨⟨⟨hstill, hname, htypeName⟩, _⟩, _⟩ T init => carries_declaring loc slot hstill.1 hname htypeName
            fun _ => by rw [h.isLiteral_put y hne, Exp.isLiteral_relabel]
    · rintro ⟨⟨hctx, hfix⟩, hlike⟩
      simp only [DecHole.plug, Dec.relabel, Dec.var.injEq] at hfix
      exact ⟨⟨⟨hctx, hfix.2.2.1⟩, hfix.1, hfix.2.1⟩, hlike⟩
  | _ => exact .throw

end

/-! ## The walk -/

variable {S : Stage ρ}

mutual

/-- **The walk over an expression passes the stop before a part.** -/
theorem ExpHole.passes (hmark : y.mark = y₀.mark) (hnone : y₀.ty = none) : ∀ h : ExpHole, h.Passes S x y₀ y
  | .here => .here hmark hnone
  | .var _ v => .var (v.passes hmark hnone)
  | .arg _ _ _ h _ _ => .arg (h.passes hmark hnone)
  | .binaryLeft _ _ h _ => .binaryLeft (h.passes hmark hnone)
  | .binaryRight _ _ _ h => .binaryRight (h.passes hmark hnone)
  | .init _ _ _ _ h _ => .init (h.passes hmark hnone)
  | .item _ _ h _ => .item (h.passes hmark hnone)
  | .assignTarget _ v _ => .assignTarget (v.passes hmark hnone)
  | .assignValue _ _ h => .assignValue (h.passes hmark hnone)
  | .condTest _ h _ none => .condTestNone (h.passes hmark hnone)
  | .condTest _ h _ (some _) => .condTestSome (h.passes hmark hnone)
  | .condThen _ _ h none => .condThenNone (h.passes hmark hnone)
  | .condThen _ _ h (some _) => .condThenSome (h.passes hmark hnone)
  | .condElse _ _ _ h => .condElse (h.passes hmark hnone)
  | .whileTest _ h _ => .whileTest (h.passes hmark hnone)
  | .whileBody _ _ h => .whileBody (h.passes hmark hnone)
  | .doBody _ h _ => .doBody (h.passes hmark hnone)
  | .doTest _ _ h => .doTest (h.passes hmark hnone)
  | .forLow _ _ h _ _ _ => .forLow (h.passes hmark hnone)
  | .forHigh _ _ _ h _ _ => .forHigh (h.passes hmark hnone)
  | .forBody _ _ _ _ h _ => .forBody (h.passes hmark hnone)
  | .letDec _ _ d _ _ => .letDec (d.passes hmark hnone)
  | .letBody _ _ h => .letBody (h.passes hmark hnone)
  | .arraySize _ _ h _ => .arraySize (h.passes hmark hnone)
  | .arrayInit _ _ _ h => .arrayInit (h.passes hmark hnone)

/-- The walk over a variable passes the stop before a part. -/
theorem VarHole.passes (hmark : y.mark = y₀.mark) (hnone : y₀.ty = none) : ∀ v : VarHole, v.Passes S x y₀ y
  | .field _ v _ _ => .field (v.passes hmark hnone)
  | .elementBase _ v _ => .elementBase (v.passes hmark hnone)
  | .elementIndex _ _ h => .elementIndex (h.passes hmark hnone)

/-- The walk over a declaration passes the stop before a part, as planned. -/
theorem DecHole.passes (hmark : y.mark = y₀.mark) (hnone : y₀.ty = none) : ∀ d : DecHole, d.Passes S x y₀ y
  | .function _ h _ _ => .function (h.passes hmark hnone)
  | .var _ _ h _ _ => .var hmark hnone (h.passes hmark hnone)

end

end TigerCheck
