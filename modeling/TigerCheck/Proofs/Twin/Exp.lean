import TigerCheck.Proofs.Tree.Cells
import TigerCheck.Proofs.Tree.Reordered
import TigerCheck.Proofs.Twin.Rule
import TigerCheck.Proofs.Walk.Steps

/-!
# Expressions in two runs

The same expression is checked in two states in which it means the same. Its parts are checked one after
another on both sides, and behind each of them the states are alike again; so are the answers. In the one
run the expression may have its functions in another order.

* `Stretch`: a stretch of two runs, with the type cells of what was checked.
* `Answered`: a stretch at whose end stands a mark on each side.
* `ExpTwinned`, `VarTwinned`: the statement for one expression and for one variable.
* **`ExpTwinned.binary`**, **`ExpTwinned.call`**, …: the forms of nodes, except let blocks.
-/

namespace TigerCheck

open Check

variable {free : Prop} {ρ ρ₁ ρ' : Pairing} {ctx ctx' ctx₁ ctx₁' : Context} {c d c₁ d₁ c' d' : Checker}
  {xs ys xs' ys' : List (Option Ty)}

/-- The type cells of two runs: types that were there before as they are paired, and new ones as they are
numbered. -/
def CellsAlike (ρ : Pairing) (c d : Checker) (xs ys : List (Option Ty)) : Prop :=
  List.Forall₂ (Option.Rel (c.types.Shifted ρ d.types)) xs ys

/-- A stretch of two runs, with the type cells of what was checked, which are compared unless functions
may come in another order. -/
structure Stretch (free : Prop) (ρ : Pairing) (ctx ctx' : Context) (c d : Checker)
    (xs ys : List (Option Ty)) (ρ' : Pairing) (c' d' : Checker) : Prop
    extends After free ρ ctx ctx' c d ρ' c' d' where
  cells : ¬ free → CellsAlike ρ c d xs ys

namespace Stretch

theorem refl (h : Twin ρ ctx ctx' c d) : Stretch free ρ ctx ctx' c d [] [] ρ c d :=
  ⟨.refl h, fun _ => .nil⟩

/-- **One stretch after another.** -/
theorem seq (h : Stretch free ρ ctx ctx' c d xs ys ρ₁ c₁ d₁)
    (h' : Stretch free ρ₁ ctx₁ ctx₁' c₁ d₁ xs' ys' ρ' c' d') :
    Stretch free ρ ctx₁ ctx₁' c d (xs ++ xs') (ys ++ ys') ρ' c' d' where
  toAfter := h.toAfter.trans h'.toAfter
  cells hf := List.rel_append (h.cells hf) <|
    (h'.cells hf).imp fun _ _ hst => rel_imp hst fun _ _ => h.grows.shift

theorem after (h : Stretch free ρ ctx ctx' c d xs ys ρ₁ c₁ d₁)
    (h' : After free ρ₁ ctx₁ ctx₁' c₁ d₁ ρ' c' d') :
    Stretch free ρ ctx₁ ctx₁' c d xs ys ρ' c' d' := ⟨h.toAfter.trans h', h.cells⟩

/-- After a stretch the same is reported on both sides. -/
theorem echo (h : Stretch free ρ ctx ctx' c d xs ys ρ' c₁ d₁) (he : Echo c₁ d₁ c' d') :
    Stretch free ρ ctx ctx' c d xs ys ρ' c' d' := h.after (.echo h.twin he)

/-- The two sides may differ in what they write to their journals. -/
theorem noted (h : Twin ρ ctx ctx' c d) (e e' : Event) :
    Stretch free ρ ctx ctx' c d [] [] ρ (c.note e) (d.note e') :=
  (Stretch.refl h).after ⟨.same h.alike.mirrors (.none rfl rfl rfl) (.none rfl rfl rfl),
    h.apart (Checker.walked_note h.alike.sound e) (Checker.walked_note h.alike.sound' e')⟩

/-- What stands on both sides of a loop's edge. -/
theorem exitLoop (h : Twin ρ ctx ctx' c d)
    (h' : Stretch free ρ ctx.enterLoop ctx'.enterLoop c d xs ys ρ' c' d') :
    Stretch free ρ ctx ctx' c d xs ys ρ' c' d' where
  grows := h'.grows
  twin := ⟨h'.twin.alike, h'.twin.sits.loops ctx.loops, h'.twin.sits'.loops ctx'.loops, h.inLoop_eq⟩
  cells := h'.cells

end Stretch

/-- A stretch of two runs at whose end stands a mark on each side. -/
def Answered (free : Prop) (ρ : Pairing) (ctx ctx' : Context) (c d : Checker) (m m' : Mark)
    (xs ys : List (Option Ty)) (c' d' : Checker) : Prop :=
  ∃ ρ', Stretch free ρ ctx ctx' c d xs ys ρ' c' d' ∧ m.Paired ρ' m'

/-- **A node after its parts**: the type that its rule gives is the first of its cells. -/
theorem Stretch.node (h : Stretch free ρ ctx ctx' c d xs ys ρ' c₁ d₁) (m : Mark) {ty ty' : Option Ty}
    (he : Echo c₁ d₁ c' d') (hty : Option.Rel ρ' ty ty') :
    Answered free ρ ctx ctx' c d (m.typed ty) (m.typed ty') (ty :: xs) (ty' :: ys) c' d' :=
  ⟨ρ', ⟨(h.echo he).toAfter, fun hf => .cons (rel_imp hty h.grows.shifted) (h.cells hf)⟩, .mk m.loc hty⟩

/-! ## Statements -/

/-- **Two checks of an expression**, the one in another order of functions, go alike. -/
def ExpTwinned (free : Prop) (e : Exp) : Prop :=
  ∀ ⦃f : Exp⦄ ⦃ρ : Pairing⦄ ⦃ctx ctx' : Context⦄ ⦃c d : Checker⦄, e.Reordered free f →
    Twin ρ ctx ctx' c d → Both (checkExp ctx e) (checkExp ctx' f) c d fun e' f' =>
      Answered free ρ ctx ctx' c d e'.mark f'.mark e'.live.tys f'.live.tys

/-- Two checks of a variable go alike. -/
def VarTwinned (free : Prop) (v : Var) : Prop :=
  ∀ ⦃w : Var⦄ ⦃ρ : Pairing⦄ ⦃ctx ctx' : Context⦄ ⦃c d : Checker⦄, v.Reordered free w →
    Twin ρ ctx ctx' c d → Both (checkVar ctx v) (checkVar ctx' w) c d fun v' w' =>
      Answered free ρ ctx ctx' c d v'.mark w'.mark v'.live.tys w'.live.tys

variable {m : Mark}

/-! ## Leaves -/

theorem ExpTwinned.nil : ExpTwinned free (.nil m) := by
  intro f ρ ctx ctx' c d hf h
  cases hf
  rw [checkExp, checkExp]
  exact both_pure ((Stretch.refl h).node m .quiet (.some h.alike.mirrors.nil))

theorem ExpTwinned.int {n : Int64} : ExpTwinned free (.int m n) := by
  intro f ρ ctx ctx' c d hf h
  cases hf
  rw [checkExp, checkExp]
  exact both_pure ((Stretch.refl h).node m .quiet (.some h.alike.mirrors.int))

theorem ExpTwinned.string {s : String} : ExpTwinned free (.string m s) := by
  intro f ρ ctx ctx' c d hf h
  cases hf
  rw [checkExp, checkExp]
  exact both_pure ((Stretch.refl h).node m .quiet (.some h.alike.mirrors.string))

theorem ExpTwinned.breakLoop : ExpTwinned free (.breakLoop m) := by
  intro f ρ ctx ctx' c d hf h
  cases hf
  rw [checkExp, checkExp, h.inLoop_eq]
  have h₀ : Stretch free ρ ctx ctx' c d [] [] ρ c d := .refl h
  refine both_ite Iff.rfl (fun _ _ => ?_) fun _ _ => ?_
  · exact both_pure (h₀.node m .quiet (.some h.alike.mirrors.void))
  · refine (both_fault (R := ρ)).bind ?_
    rintro ty ty' c' d' ⟨he, hty⟩
    exact both_pure (h₀.node m he hty)

/-! ## Nodes with parts -/

theorem ExpTwinned.var {v : Var} (hv : VarTwinned free v) : ExpTwinned free (.var m v) := by
  intro f ρ ctx ctx' c d hf h
  obtain ⟨w, rfl, hw⟩ := hf
  rw [checkExp, checkExp]
  refine (hv hw h).bind ?_
  rintro v' w' c₁ d₁ ⟨ρ₁, h₁, hm₁⟩
  exact both_pure (h₁.node m .quiet hm₁.ty)

theorem ExpTwinned.binary {op : BinOp} {left right : Exp} (hl : ExpTwinned free left)
    (hr : ExpTwinned free right) : ExpTwinned free (.binary m op left right) := by
  intro f ρ ctx ctx' c d hf h
  obtain ⟨l, r, rfl, hl', hr'⟩ := hf
  rw [checkExp, checkExp]
  refine (hl hl' h).bind ?_
  rintro left' l' c₁ d₁ ⟨ρ₁, h₁, hm₁⟩
  refine (hr hr' h₁.twin).bind ?_
  rintro right' r' c₂ d₂ ⟨ρ₂, h₂, hm₂⟩
  refine (Rule.both_binary h₂.twin.alike op (hm₁.imp h₂.grows.le).ty hm₂.ty).bind ?_
  rintro ty ty' c₃ d₃ ⟨he, hty⟩
  exact both_pure ((h₁.seq h₂).node m he hty)

theorem ExpTwinned.assign {target : Var} {value : Exp} (ht : VarTwinned free target)
    (hv : ExpTwinned free value) : ExpTwinned free (.assign m target value) := by
  intro f ρ ctx ctx' c d hf h
  obtain ⟨t, v, rfl, ht', hv'⟩ := hf
  rw [checkExp, checkExp]
  refine (ht ht' h).bind ?_
  rintro target' t' c₁ d₁ ⟨ρ₁, h₁, hm₁⟩
  refine (hv hv' h₁.twin).bind ?_
  rintro value' v' c₂ d₂ ⟨ρ₂, h₂, hm₂⟩
  refine (Rule.both_assign h₂.twin.alike (hm₁.imp h₂.grows.le) hm₂).bind ?_
  rintro ty ty' c₃ d₃ ⟨he, hty⟩
  exact both_pure ((h₁.seq h₂).node m he hty)

theorem ExpTwinned.condNone {test thenPart : Exp} (ht : ExpTwinned free test)
    (hp : ExpTwinned free thenPart) : ExpTwinned free (.cond m test thenPart none) := by
  intro f ρ ctx ctx' c d hf h
  obtain ⟨t, p, rfl, ht', hp'⟩ := hf
  rw [checkExp, checkExp]
  refine (ht ht' h).bind ?_
  rintro test' t' c₁ d₁ ⟨ρ₁, h₁, hm₁⟩
  refine (hp hp' h₁.twin).bind ?_
  rintro thenPart' p' c₂ d₂ ⟨ρ₂, h₂, hm₂⟩
  refine (Rule.both_condNone h₂.twin.alike (hm₁.imp h₂.grows.le) hm₂).bind ?_
  rintro ty ty' c₃ d₃ ⟨he, hty⟩
  exact both_pure ((h₁.seq h₂).node m he hty)

theorem ExpTwinned.condSome {test thenPart elsePart : Exp} (ht : ExpTwinned free test)
    (hp : ExpTwinned free thenPart) (he : ExpTwinned free elsePart) :
    ExpTwinned free (.cond m test thenPart (some elsePart)) := by
  intro f ρ ctx ctx' c d hf h
  obtain ⟨t, p, e, rfl, ht', hp', he'⟩ := hf
  rw [checkExp, checkExp]
  refine (ht ht' h).bind ?_
  rintro test' t' c₁ d₁ ⟨ρ₁, h₁, hm₁⟩
  refine (hp hp' h₁.twin).bind ?_
  rintro thenPart' p' c₂ d₂ ⟨ρ₂, h₂, hm₂⟩
  refine (he he' h₂.twin).bind ?_
  rintro elsePart' e' c₃ d₃ ⟨ρ₃, h₃, hm₃⟩
  have hm₁' := (hm₁.imp h₂.grows.le).imp h₃.grows.le
  refine (Rule.both_condSome h₃.twin.alike hm₁' (hm₂.imp h₃.grows.le) hm₃).bind ?_
  rintro ty ty' c₄ d₄ ⟨he, hty⟩
  exact both_pure (((h₁.seq h₂).seq h₃).node m he hty)

theorem ExpTwinned.whileLoop {test body : Exp} (ht : ExpTwinned free test) (hb : ExpTwinned free body) :
    ExpTwinned free (.whileLoop m test body) := by
  intro f ρ ctx ctx' c d hf h
  obtain ⟨t, b, rfl, ht', hb'⟩ := hf
  rw [checkExp, checkExp]
  refine (ht ht' h).bind ?_
  rintro test' t' c₁ d₁ ⟨ρ₁, h₁, hm₁⟩
  refine (hb hb' h₁.twin.enterLoop).bind ?_
  rintro body' b' c₂ d₂ ⟨ρ₂, h₂, hm₂⟩
  have h₂' := h₂.exitLoop h₁.twin
  refine (Rule.both_loop h₂'.twin.alike (hm₁.imp h₂.grows.le) hm₂).bind ?_
  rintro ty ty' c₃ d₃ ⟨he, hty⟩
  exact both_pure ((h₁.seq h₂').node m he hty)

theorem ExpTwinned.doWhile {body test : Exp} (hb : ExpTwinned free body) (ht : ExpTwinned free test) :
    ExpTwinned free (.doWhile m body test) := by
  intro f ρ ctx ctx' c d hf h
  obtain ⟨b, t, rfl, hb', ht'⟩ := hf
  rw [checkExp, checkExp]
  refine (hb hb' h.enterLoop).bind ?_
  rintro body' b' c₁ d₁ ⟨ρ₁, h₁, hm₁⟩
  have h₁' := h₁.exitLoop h
  refine (ht ht' h₁'.twin).bind ?_
  rintro test' t' c₂ d₂ ⟨ρ₂, h₂, hm₂⟩
  refine (Rule.both_loop h₂.twin.alike hm₂ (hm₁.imp h₂.grows.le)).bind ?_
  rintro ty ty' c₃ d₃ ⟨he, hty⟩
  exact both_pure ((h₁'.seq h₂).node m he hty)

theorem ExpTwinned.array {typeName : Ident} {size init : Exp} (hz : ExpTwinned free size)
    (hi : ExpTwinned free init) : ExpTwinned free (.array m typeName size init) := by
  intro f ρ ctx ctx' c d hf h
  obtain ⟨z, i, rfl, hz', hi'⟩ := hf
  rw [checkExp, checkExp]
  refine (both_typeOf h.alike typeName).bind ?_
  rintro ty₀ ty₀' c₀ d₀ ⟨he₀, hty₀⟩
  have h₀ : Stretch free ρ ctx ctx' c d [] [] ρ c₀ d₀ := (Stretch.refl h).echo he₀
  refine (hz hz' h₀.twin).bind ?_
  rintro size' z' c₁ d₁ ⟨ρ₁, h₁, hm₁⟩
  refine (hi hi' h₁.twin).bind ?_
  rintro init' i' c₂ d₂ ⟨ρ₂, h₂, hm₂⟩
  have hty₂ := rel_imp (rel_imp hty₀ h₁.grows.le) h₂.grows.le
  refine (Rule.both_array h₂.twin.alike typeName hty₂ (hm₁.imp h₂.grows.le) hm₂).bind ?_
  rintro ty ty' c₃ d₃ ⟨he, hty⟩
  exact both_pure (((h₀.seq h₁).seq h₂).node m he hty)

/-! ## Lists of parts -/

/-- The types of the last items, where the items before them are checked first. -/
theorem lastTy_cons {e f : Exp} {es fs : List Exp} (hlen : es.length = fs.length)
    (he : Option.Rel ρ e.ty f.ty) (hes : es ≠ [] → Option.Rel ρ (lastTy es) (lastTy fs)) :
    Option.Rel ρ (lastTy (e :: es)) (lastTy (f :: fs)) := by
  cases es with
  | nil =>
    obtain rfl := List.eq_nil_of_length_eq_zero hlen.symm
    exact he
  | cons x xs =>
    cases fs with
    | nil => cases hlen
    | cons y ys => exact hes (List.cons_ne_nil _ _)

/-- Parts that are checked one after another, each against a parameter if there is one. -/
theorem both_checkEach {es : List Exp} (h : ∀ e ∈ es, ExpTwinned free e) :
    ∀ {fs : List Exp} {params params' : List Ty} {ρ : Pairing} {c d : Checker},
      reorderedAll free es fs → Twin ρ ctx ctx' c d → List.Forall₂ ρ params params' →
      Both (checkEach ctx params es) (checkEach ctx' params' fs) c d fun r r' c' d' => ∃ ρ',
        Stretch free ρ ctx ctx' c d (tysAll (liveAll r.1)) (tysAll (liveAll r'.1)) ρ' c' d' ∧
        r.2 = r'.2 ∧ r.1.length = r'.1.length ∧ Option.Rel ρ' (lastTy r.1) (lastTy r'.1) := by
  induction es with
  | nil =>
    intro fs params params' ρ c d hfs ht _
    cases hfs
    rw [checkEach, checkEach]
    exact both_pure ⟨ρ, .refl ht, rfl, rfl, .some ht.alike.mirrors.void⟩
  | cons e es ih =>
    intro fs params params' ρ c d hfs ht hparams
    obtain ⟨he, hes⟩ := List.forall_mem_cons.mp h
    obtain ⟨f, fs, rfl, hf, hfs⟩ := hfs
    rw [checkEach, checkEach]
    refine (he hf ht).bind ?_
    rintro e' f' c₁ d₁ ⟨ρ₁, h₁, hm₁⟩
    have hhead : Option.Rel ρ₁ params.head? params'.head? := by
      cases hparams with
      | nil => exact .none
      | cons hp _ => exact .some (h₁.grows.le _ _ hp)
    have htail : List.Forall₂ ρ₁ params.tail params'.tail := by
      cases hparams with
      | nil => exact .nil
      | cons _ hps => exact hps.imp h₁.grows.le
    refine (Rule.both_arg h₁.twin.alike hhead hm₁).bind ?_
    rintro ok _ c₂ d₂ ⟨he₂, rfl⟩
    have h₂ := h₁.echo he₂
    refine (ih hes hfs h₂.twin htail).bind ?_
    rintro ⟨es', oks⟩ ⟨fs', _⟩ c₃ d₃ ⟨ρ₃, h₃, rfl, hlen, hlast⟩
    refine both_pure ⟨ρ₃, h₂.seq h₃, rfl, congrArg Nat.succ hlen, ?_⟩
    exact lastTy_cons hlen (rel_imp hm₁.ty h₃.grows.le) fun _ => hlast

/-- The initializers of a record literal, against the fields that are left. -/
theorem both_checkInits (loc : Location) (typeName : String) {inits : List (Ident × Exp)}
    (h : ∀ i ∈ inits, ExpTwinned free i.2) :
    ∀ {inits' : List (Ident × Exp)} {o o' : Option (List Field)} {ρ : Pairing} {c d : Checker},
      reorderedInits free inits inits' → Twin ρ ctx ctx' c d →
      Option.Rel (List.Forall₂ (Field.Paired ρ)) o o' →
      Both (checkInits ctx loc typeName o inits) (checkInits ctx' loc typeName o' inits') c d
        fun r r' c' d' => ∃ ρ',
          Stretch free ρ ctx ctx' c d (tysInits (liveInits r.1)) (tysInits (liveInits r'.1)) ρ' c' d' ∧
          r.2 = r'.2 := by
  induction inits with
  | nil =>
    intro inits' o o' ρ c d hi ht ho
    cases hi
    rw [checkInits, checkInits]
    exact both_pure ⟨ρ, .refl ht, isSome_eq_of_rel ho⟩
  | cons i inits ih =>
    intro inits' o o' ρ c d hi ht ho
    obtain ⟨he, hinits⟩ := List.forall_mem_cons.mp h
    obtain ⟨name, e⟩ := i
    obtain ⟨f, inits', rfl, hf, hi⟩ := hi
    rw [checkInits, checkInits]
    refine (Rule.both_place typeName name ho).bind ?_
    rintro o₁ o₁' c₀ d₀ ⟨he₀, ho₁⟩
    have h₀ : Stretch free ρ ctx ctx' c d [] [] ρ c₀ d₀ := (Stretch.refl ht).echo he₀
    refine (he hf h₀.twin).bind ?_
    rintro e' f' c₁ d₁ ⟨ρ₁, h₁, hm₁⟩
    have hfields : Option.Rel (List.Forall₂ (Field.Paired ρ₁)) o₁ o₁' :=
      rel_imp ho₁ fun _ _ hfs => hfs.imp fun _ _ hf => ⟨hf.name_eq, h₁.grows.le _ _ hf.ty⟩
    have hhead : Option.Rel (Field.Paired ρ₁) (o₁.bind (·.head?)) (o₁'.bind (·.head?)) := by
      cases hfields with
      | none => exact .none
      | some hfs =>
        cases hfs with
        | nil => exact .none
        | cons hx _ => exact .some hx
    have htail : Option.Rel (List.Forall₂ (Field.Paired ρ₁)) (o₁.map (·.tail)) (o₁'.map (·.tail)) := by
      cases hfields with
      | none => exact .none
      | some hfs =>
        cases hfs with
        | nil => exact .some .nil
        | cons _ hfs => exact .some hfs
    refine (Rule.both_init h₁.twin.alike hhead hm₁).bind ?_
    rintro ok _ c₂ d₂ ⟨he₂, rfl⟩
    have h₂ := h₁.echo he₂
    refine (ih hinits hi h₂.twin htail).bind ?_
    rintro ⟨is, oks⟩ ⟨is', _⟩ c₃ d₃ ⟨ρ₃, h₃, rfl⟩
    exact both_pure ⟨ρ₃, (h₀.seq h₂).seq h₃, rfl⟩

theorem ExpTwinned.seq {items : List Exp} (hi : ∀ e ∈ items, ExpTwinned free e) :
    ExpTwinned free (.seq m items) := by
  intro f ρ ctx ctx' c d hf h
  obtain ⟨items', rfl, hi'⟩ := hf
  rw [checkExp, checkExp]
  refine (both_checkEach hi hi' h .nil).bind ?_
  rintro ⟨es, fit⟩ ⟨fs, _⟩ c₁ d₁ ⟨ρ₁, h₁, rfl, -, hlast⟩
  refine both_pure (h₁.node m .quiet ?_)
  split
  · exact hlast
  · exact .none

theorem ExpTwinned.record {typeName : Ident} {inits : List (Ident × Exp)}
    (hi : ∀ i ∈ inits, ExpTwinned free i.2) : ExpTwinned free (.record m typeName inits) := by
  intro f ρ ctx ctx' c d hf h
  obtain ⟨inits', rfl, hi'⟩ := hf
  rw [checkExp, checkExp, (length_eq_of_reorderedInits hi' : inits.length = inits'.length)]
  refine (both_typeOf h.alike typeName).bind ?_
  rintro ty ty' c₀ d₀ ⟨he₀, hty⟩
  have h₀ : Stretch free ρ ctx ctx' c d [] [] ρ c₀ d₀ := (Stretch.refl h).echo he₀
  refine (Rule.both_recordFields h₀.twin.alike typeName _ hty).bind ?_
  rintro o o' c₁ d₁ ⟨he₁, ho⟩
  have h₁ := h₀.echo he₁
  refine (both_checkInits m.loc typeName.name hi hi' h₁.twin ho).bind ?_
  rintro ⟨is, fit⟩ ⟨is', _⟩ c₂ d₂ ⟨ρ₂, h₂, rfl⟩
  refine both_pure ((h₁.seq h₂).node m .quiet ?_)
  split
  · exact rel_imp hty h₂.grows.le
  · exact .none

theorem ExpTwinned.call {callee : Ident} {args : List Exp} {function : Option FunctionId}
    (ha : ∀ e ∈ args, ExpTwinned free e) : ExpTwinned free (.call m callee args function) := by
  intro f ρ ctx ctx' c d hf h
  obtain ⟨args', rfl, ha'⟩ := hf
  rw [checkExp, checkExp, (reorderedAll_iff.mp ha').length_eq]
  refine (Rule.both_target? h.alike callee.name).bind ?_
  rintro t t' c₀ d₀ ⟨he₀, ht⟩
  have h₀ : Stretch free ρ ctx ctx' c d [] [] ρ c₀ d₀ := (Stretch.refl h).echo he₀
  refine (both_checkEach ha ha' h₀.twin (Rule.Target.expects_paired ht _)).bind ?_
  rintro ⟨es, fit⟩ ⟨fs, _⟩ c₁ d₁ ⟨ρ₁, h₁, rfl, hlen, -⟩
  have ht₁ : Option.Rel (Rule.Target.Paired ρ₁) t t' :=
    rel_imp ht fun _ _ hp => rel_imp hp fun _ _ hs => hs.imp h₁.grows.le
  have hrule : Both (Rule.call m.loc callee t es.length fit) (Rule.call m.loc callee t' es.length fit) c₁ d₁
      (Echoes c₁ d₁ (Option.Rel ρ₁)) := Rule.both_call callee ht₁ es.length fit
  refine Both.bind (by dsimp only at hlen ⊢; rw [← hlen]; exact hrule) ?_
  rintro ty ty' c₂ d₂ ⟨he₂, hty⟩
  exact both_pure ((h₀.seq h₁).node m he₂ hty)

/-! ## Variables -/

theorem VarTwinned.simple {name : String} {binding : Option VarId} :
    VarTwinned free (.simple m name binding) := by
  intro w ρ ctx ctx' c d hw h
  cases hw
  rw [checkVar, checkVar]
  refine (Rule.both_simple h name).bind ?_
  rintro ⟨slot, ty⟩ ⟨slot', ty'⟩ c₁ d₁ ⟨he, hty⟩
  exact both_pure ((Stretch.refl h).node m he hty)

theorem VarTwinned.field {base : Var} {name : Ident} {position : Option ℕ} (hb : VarTwinned free base) :
    VarTwinned free (.field m base name position) := by
  intro w ρ ctx ctx' c d hw h
  obtain ⟨b, rfl, hb'⟩ := hw
  rw [checkVar, checkVar]
  refine (hb hb' h).bind ?_
  rintro base' b' c₁ d₁ ⟨ρ₁, h₁, hm₁⟩
  refine (Rule.both_field h₁.twin.alike hm₁ name).bind ?_
  rintro ⟨found, ty⟩ ⟨found', ty'⟩ c₂ d₂ ⟨he, hty⟩
  exact both_pure (h₁.node m he hty)

theorem VarTwinned.element {base : Var} {index : Exp} (hb : VarTwinned free base)
    (hi : ExpTwinned free index) : VarTwinned free (.element m base index) := by
  intro w ρ ctx ctx' c d hw h
  obtain ⟨b, i, rfl, hb', hi'⟩ := hw
  rw [checkVar, checkVar]
  refine (hb hb' h).bind ?_
  rintro base' b' c₁ d₁ ⟨ρ₁, h₁, hm₁⟩
  refine (hi hi' h₁.twin).bind ?_
  rintro index' i' c₂ d₂ ⟨ρ₂, h₂, hm₂⟩
  refine (Rule.both_element h₂.twin.alike (hm₁.imp h₂.grows.le) hm₂).bind ?_
  rintro ty ty' c₃ d₃ ⟨he, hty⟩
  exact both_pure ((h₁.seq h₂).node m he hty)

end TigerCheck
