import TigerCheck.Proofs.Tree.Hole
import TigerCheck.Proofs.Walk.Run

/-!
# Stopping before a check

The walk over a tree can be stopped where the check of one of its expressions begins. What is left of the
walk then depends on the outcome of that check alone.

* `Stop`: the context of the check that comes next, and the walk behind it.
* `ExpHole.enter`, `VarHole.enter`, `DecHole.enter`: the walk as far as the missing expression. It does not
  end if there is no check of that expression, since it stands in a declaration that is passed over.
* `Check.Splits`: an action goes on where another one stops. **`ExpHole.splits`**: so does the walk.
* **`ExpHole.enter_eq`**: the walk as far as the missing expression does not depend on it.
-/

namespace TigerCheck

open Check

/-- Where the walk is before the check of an expression, and how it goes on behind it. -/
structure Stop (α : Type) where
  ctx : Context
  next : Exp → Check α

/-- Go on with something else behind the walk. -/
def Stop.andThen {α β : Type} (s : Stop α) (f : α → Check β) : Stop β := ⟨s.ctx, fun y => s.next y >>= f⟩

/-! ## The walk as far as a missing expression -/

section

variable (ctx : Context) (hole : Check (Stop Exp))

/-- Walk over expressions of which one has a missing part, given the walk over that one. -/
def enterEach (after : List Exp) : List Ty → List Exp → Check (Stop (List Exp × Bool))
  | params, [] => do
    let s ← hole
    return s.andThen fun e => do
      let ok ← Rule.arg params.head? e.mark
      let (es, oks) ← checkEach ctx params.tail after
      return (e :: es, ok && oks)
  | params, e :: before => do
    let e ← checkExp ctx e
    let ok ← Rule.arg params.head? e.mark
    let s ← enterEach after params.tail before
    return s.andThen fun r => return (e :: r.1, ok && r.2)

/-- Walk over initializers of which one has a missing part. -/
def enterInits (loc : Location) (typeName : String) (name : Ident) (after : List (Ident × Exp)) :
    Option (List Field) → List (Ident × Exp) → Check (Stop (List (Ident × Exp) × Bool))
  | fields, [] => do
    let fields ← Rule.place loc typeName name fields
    let s ← hole
    return s.andThen fun e => do
      let ok ← Rule.init (fields.bind (·.head?)) e.mark
      let (inits, oks) ← checkInits ctx loc typeName (fields.map (·.tail)) after
      return ((name, e) :: inits, ok && oks)
  | fields, (other, e) :: before => do
    let fields ← Rule.place loc typeName other fields
    let e ← checkExp ctx e
    let ok ← Rule.init (fields.bind (·.head?)) e.mark
    let s ← enterInits loc typeName name after (fields.map (·.tail)) before
    return s.andThen fun r => return ((other, e) :: r.1, ok && r.2)

end

/-- Walk over declarations of which one has a missing part, given the walk over that one as planned. -/
def enterDecs (ctx : Context) (d : Dec) (hole : Plan → Check (Stop (Dec × Bool))) (after : List Dec) :
    List Plan → List Dec → Check (Stop (List Dec × Bool))
  | plans, [] => do
    let plans ← if plans.isEmpty then openRun ctx (Dec.leadingRun (d :: after)) else pure plans
    let s ← hole (plans.headD .dropped)
    return s.andThen fun r => do
      let (ds, oks) ← checkDecs ctx plans.tail after
      return (r.1 :: ds, r.2 && oks)
  | plans, e :: before => do
    let plans ← if plans.isEmpty then openRun ctx (Dec.leadingRun (e :: (before ++ d :: after))) else pure plans
    let (e, ok) ← checkDec ctx (plans.headD .dropped) e
    let s ← enterDecs ctx d hole after plans.tail before
    return s.andThen fun r => return (e :: r.1, ok && r.2)

mutual

/-- Walk over an expression as far as its missing part, where `x` is to be checked. -/
def ExpHole.enter (x : Exp) (ctx : Context) : ExpHole → Check (Stop Exp)
  | .here => return ⟨ctx, pure⟩
  | .var m v => do
    let s ← v.enter x ctx
    return s.andThen fun v => return .var (m.typed v.ty) v
  | .arg m callee before h after function => do
    let target ← Rule.target? callee.name
    let s ← enterEach ctx (h.enter x ctx) after
      (Rule.Target.expects target (before ++ h.plug x :: after).length) before
    return s.andThen fun r => do
      let ty ← Rule.call m.loc callee target r.1.length r.2
      return .call (m.typed ty) callee r.1 (target.map (·.id) <|> function)
  | .binaryLeft m op h right => do
    let s ← h.enter x ctx
    return s.andThen fun left => do
      let right ← checkExp ctx right
      let ty ← Rule.binary op m.loc left.ty right.ty
      return .binary (m.typed ty) op left right
  | .binaryRight m op left h => do
    let left ← checkExp ctx left
    let s ← h.enter x ctx
    return s.andThen fun right => do
      let ty ← Rule.binary op m.loc left.ty right.ty
      return .binary (m.typed ty) op left right
  | .init m typeName before name h after => do
    let ty ← typeOf typeName
    let fields ← Rule.recordFields m.loc typeName (before ++ (name, h.plug x) :: after).length ty
    let s ← enterInits ctx (h.enter x ctx) m.loc typeName.name name after fields before
    return s.andThen fun r => return .record (m.typed (if r.2 then ty else none)) typeName r.1
  | .item m before h after => do
    let s ← enterEach ctx (h.enter x ctx) after [] before
    return s.andThen fun r => return .seq (m.typed (if r.2 then lastTy r.1 else none)) r.1
  | .assignTarget m v value => do
    let s ← v.enter x ctx
    return s.andThen fun target => do
      let value ← checkExp ctx value
      let ty ← Rule.assign target.mark value.mark
      return .assign (m.typed ty) target value
  | .assignValue m target h => do
    let target ← checkVar ctx target
    let s ← h.enter x ctx
    return s.andThen fun value => do
      let ty ← Rule.assign target.mark value.mark
      return .assign (m.typed ty) target value
  | .condTest m h thenPart none => do
    let s ← h.enter x ctx
    return s.andThen fun test => do
      let thenPart ← checkExp ctx thenPart
      let ty ← Rule.cond m.loc test.mark thenPart.mark none
      return .cond (m.typed ty) test thenPart none
  | .condTest m h thenPart (some elsePart) => do
    let s ← h.enter x ctx
    return s.andThen fun test => do
      let thenPart ← checkExp ctx thenPart
      let elsePart ← checkExp ctx elsePart
      let ty ← Rule.cond m.loc test.mark thenPart.mark (some elsePart.mark)
      return .cond (m.typed ty) test thenPart (some elsePart)
  | .condThen m test h none => do
    let test ← checkExp ctx test
    let s ← h.enter x ctx
    return s.andThen fun thenPart => do
      let ty ← Rule.cond m.loc test.mark thenPart.mark none
      return .cond (m.typed ty) test thenPart none
  | .condThen m test h (some elsePart) => do
    let test ← checkExp ctx test
    let s ← h.enter x ctx
    return s.andThen fun thenPart => do
      let elsePart ← checkExp ctx elsePart
      let ty ← Rule.cond m.loc test.mark thenPart.mark (some elsePart.mark)
      return .cond (m.typed ty) test thenPart (some elsePart)
  | .condElse m test thenPart h => do
    let test ← checkExp ctx test
    let thenPart ← checkExp ctx thenPart
    let s ← h.enter x ctx
    return s.andThen fun elsePart => do
      let ty ← Rule.cond m.loc test.mark thenPart.mark (some elsePart.mark)
      return .cond (m.typed ty) test thenPart (some elsePart)
  | .whileTest m h body => do
    let s ← h.enter x ctx
    return s.andThen fun test => do
      let body ← checkExp ctx.enterLoop body
      let ty ← Rule.loop test.mark body.mark
      return .whileLoop (m.typed ty) test body
  | .whileBody m test h => do
    let test ← checkExp ctx test
    let s ← h.enter x ctx.enterLoop
    return s.andThen fun body => do
      let ty ← Rule.loop test.mark body.mark
      return .whileLoop (m.typed ty) test body
  | .doBody m h test => do
    let s ← h.enter x ctx.enterLoop
    return s.andThen fun body => do
      let test ← checkExp ctx test
      let ty ← Rule.loop test.mark body.mark
      return .doWhile (m.typed ty) body test
  | .doTest m body h => do
    let body ← checkExp ctx.enterLoop body
    let s ← h.enter x ctx
    return s.andThen fun test => do
      let ty ← Rule.loop test.mark body.mark
      return .doWhile (m.typed ty) body test
  | .forLow m counter h high body _ => do
    let s ← h.enter x ctx
    return s.andThen fun low => do
      let high ← checkExp ctx high
      let fit ← Rule.bounds m.loc low.ty high.ty
      enterValues
      let slot ← alloc ctx.frame counter.name (some .int) .loopCounter
      bindValue counter.name slot
      let body ← checkExp ctx.enterLoop body
      exitValues
      let ty := if fit && body.ty.isSome then some .void else none
      return .forLoop (m.typed ty) counter low high body (some slot)
  | .forHigh m counter low h body _ => do
    let low ← checkExp ctx low
    let s ← h.enter x ctx
    return s.andThen fun high => do
      let fit ← Rule.bounds m.loc low.ty high.ty
      enterValues
      let slot ← alloc ctx.frame counter.name (some .int) .loopCounter
      bindValue counter.name slot
      let body ← checkExp ctx.enterLoop body
      exitValues
      let ty := if fit && body.ty.isSome then some .void else none
      return .forLoop (m.typed ty) counter low high body (some slot)
  | .forBody m counter low high h _ => do
    let low ← checkExp ctx low
    let high ← checkExp ctx high
    let fit ← Rule.bounds m.loc low.ty high.ty
    enterValues
    let slot ← alloc ctx.frame counter.name (some .int) .loopCounter
    bindValue counter.name slot
    let s ← h.enter x ctx.enterLoop
    return s.andThen fun body => do
      exitValues
      let ty := if fit && body.ty.isSome then some .void else none
      return .forLoop (m.typed ty) counter low high body (some slot)
  | .letDec m before d after body => do
    enterScopes
    let s ← enterDecs ctx (d.plug x) (d.enter x ctx) after [] before
    return s.andThen fun r => do
      let body ← checkExp ctx body
      exitScopes
      return .letIn (m.typed (if r.2 then body.ty else none)) r.1 body
  | .letBody m decs h => do
    enterScopes
    let (decs, fit) ← checkDecs ctx [] decs
    let s ← h.enter x ctx
    return s.andThen fun body => do
      exitScopes
      return .letIn (m.typed (if fit then body.ty else none)) decs body
  | .arraySize m typeName h init => do
    let ty ← typeOf typeName
    let s ← h.enter x ctx
    return s.andThen fun size => do
      let init ← checkExp ctx init
      let ty ← Rule.array typeName ty size.mark init.mark
      return .array (m.typed ty) typeName size init
  | .arrayInit m typeName size h => do
    let ty ← typeOf typeName
    let size ← checkExp ctx size
    let s ← h.enter x ctx
    return s.andThen fun init => do
      let ty ← Rule.array typeName ty size.mark init.mark
      return .array (m.typed ty) typeName size init

/-- Walk over a variable as far as its missing part. -/
def VarHole.enter (x : Exp) (ctx : Context) : VarHole → Check (Stop Var)
  | .field m v name position => do
    let s ← v.enter x ctx
    return s.andThen fun base => do
      let (found, ty) ← Rule.field m.loc base.mark name
      return .field (m.typed ty) base name (found <|> position)
  | .elementBase m v index => do
    let s ← v.enter x ctx
    return s.andThen fun base => do
      let index ← checkExp ctx index
      let ty ← Rule.element base.mark index.mark
      return .element (m.typed ty) base index
  | .elementIndex m base h => do
    let base ← checkVar ctx base
    let s ← h.enter x ctx
    return s.andThen fun index => do
      let ty ← Rule.element base.mark index.mark
      return .element (m.typed ty) base index

/-- Walk over a declaration as planned, as far as its missing part. -/
def DecHole.enter (x : Exp) (ctx : Context) : DecHole → Plan → Check (Stop (Dec × Bool))
  | .function head h loc _, .functionBody header => do
    enterValues
    bindParams head.params header.params
    let s ← h.enter x ⟨header.level, header.frame, 0⟩
    return s.andThen fun body => do
      exitValues
      finalize header.frame
      let ok ← Rule.body header.result body.mark
      return (.function head body loc (some header.id), ok)
  | .var name typeName h loc _, .variable first => do
    if ← boundSince first name.name then throw .exhausted
    else
      let s ← h.enter x ctx
      return s.andThen fun init => do
        let (ty, ok) ← Rule.declared typeName init.mark init.isLiteral
        let slot ← alloc ctx.frame name.name ty .letBound
        bindValue name.name slot
        return (.var name typeName init loc (some slot), ok)
  | _, _ => throw .exhausted

end

/-! ## Going on where the walk has stopped -/

/-- Where an action stops before the check of `x`, another one goes on; and it does stop if the other one ends,
unless the missing part is passed over. -/
structure Check.Splits {α : Type} (x : Exp) (m : Check α) (pre : Check (Stop α)) : Prop where
  goes_on : ∀ c s c₀, pre.run c = .ok (s, c₀) → m.run c = (checkExp s.ctx x >>= s.next).run c₀
  stops : ∀ c a c', m.run c = .ok (a, c') →
    (∃ s c₀, pre.run c = .ok (s, c₀)) ∨ pre.run c = .error .exhausted

namespace Check.Splits

variable {α β γ : Type} {x : Exp} {m : Check α} {pre : Check (Stop α)}

theorem andThen {f : α → Check β} (h : Splits x m pre) :
    Splits x (m >>= f) (pre >>= fun s => pure (s.andThen f)) where
  goes_on c s c₀ hpre := by
    obtain ⟨s', c₁, h₁, h₂⟩ := exists_of_run_bind hpre
    cases h₂
    rw [StateT.run_bind, h.goes_on c s' c₀ h₁, ← StateT.run_bind, bind_assoc]
    rfl
  stops c b c' hrun := by
    obtain ⟨a, c₁, h₁, -⟩ := exists_of_run_bind hrun
    rcases h.stops c a c₁ h₁ with ⟨s, c₀, hs⟩ | hs
    · exact .inl ⟨s.andThen f, c₀, run_bind_of_run hs⟩
    · rw [StateT.run_bind, hs]
      exact .inr rfl

theorem bind {n : Check γ} {f : γ → Check α} {g : γ → Check (Stop α)} (h : ∀ b, Splits x (f b) (g b)) :
    Splits x (n >>= f) (n >>= g) where
  goes_on c s c₀ hpre := by
    obtain ⟨b, c₁, h₁, h₂⟩ := exists_of_run_bind hpre
    rw [run_bind_of_run h₁]
    exact (h b).goes_on c₁ s c₀ h₂
  stops c a c' hrun := by
    obtain ⟨b, c₁, h₁, h₂⟩ := exists_of_run_bind hrun
    rw [run_bind_of_run h₁]
    exact (h b).stops c₁ a c' h₂

theorem ite {b : Prop} [Decidable b] {m' : Check α} {pre' : Check (Stop α)} (h : Splits x m pre)
    (h' : Splits x m' pre') : Splits x (if b then m else m') (if b then pre else pre') := by
  split
  · exact h
  · exact h'

theorem throw : Splits x m (MonadExcept.throw .exhausted) where
  goes_on _ _ _ hpre := nomatch hpre
  stops _ _ _ _ := .inr rfl

end Check.Splits

section

variable {ctx : Context} {x y : Exp} {hole : Check (Stop Exp)}

theorem splits_each (h : Splits x (checkExp ctx y) hole) (after : List Exp) : ∀ (before : List Exp)
    (params : List Ty), Splits x (checkEach ctx params (before ++ y :: after))
      (enterEach ctx hole after params before)
  | [], params => by
    rw [List.nil_append, checkEach, enterEach]
    exact h.andThen
  | e :: before, params => by
    rw [List.cons_append, checkEach, enterEach]
    exact .bind fun _ => .bind fun _ => (splits_each h after before _).andThen

theorem splits_inits (h : Splits x (checkExp ctx y) hole) {loc : Location} {typeName : String} {name : Ident}
    (after : List (Ident × Exp)) : ∀ (before : List (Ident × Exp)) (fields : Option (List Field)),
      Splits x (checkInits ctx loc typeName fields (before ++ (name, y) :: after))
        (enterInits ctx hole loc typeName name after fields before)
  | [], fields => by
    rw [List.nil_append, checkInits, enterInits]
    exact .bind fun _ => h.andThen
  | (other, e) :: before, fields => by
    rw [List.cons_append, checkInits, enterInits]
    exact .bind fun _ => .bind fun _ => .bind fun _ => (splits_inits h after before _).andThen

theorem splits_decs {d : Dec} {hole : Plan → Check (Stop (Dec × Bool))}
    (h : ∀ plan, Splits x (checkDec ctx plan d) (hole plan)) (after : List Dec) : ∀ (before : List Dec)
      (plans : List Plan), Splits x (checkDecs ctx plans (before ++ d :: after))
        (enterDecs ctx d hole after plans before)
  | [], plans => by
    rw [List.nil_append, checkDecs, enterDecs]
    exact .ite (.bind fun _ => (h _).andThen) (.bind fun _ => (h _).andThen)
  | e :: before, plans => by
    have hrest (plans : List Plan) := splits_decs h after before plans
    rw [List.cons_append, checkDecs, enterDecs]
    exact .ite (.bind fun _ => .bind fun _ => (hrest _).andThen) (.bind fun _ => .bind fun _ => (hrest _).andThen)

end

mutual

/-- **The walk over an expression goes on where it stops before the check of a part.** -/
theorem ExpHole.splits (x : Exp) (ctx : Context) : ∀ h : ExpHole,
    Splits x (checkExp ctx (h.plug x)) (h.enter x ctx)
  | .here =>
    { goes_on := fun c s c₀ hpre => by
        cases hpre
        rw [bind_pure]
        rfl
      stops := fun c _ _ _ => .inl ⟨⟨ctx, pure⟩, c, rfl⟩ }
  | .var m v => by
    rw [ExpHole.plug, checkExp, ExpHole.enter]
    exact (v.splits x ctx).andThen
  | .arg m callee before h after function => by
    rw [ExpHole.plug, checkExp, ExpHole.enter]
    exact .bind fun _ => (splits_each (h.splits x ctx) after before _).andThen
  | .binaryLeft m op h right => by
    rw [ExpHole.plug, checkExp, ExpHole.enter]
    exact (h.splits x ctx).andThen
  | .binaryRight m op left h => by
    rw [ExpHole.plug, checkExp, ExpHole.enter]
    exact .bind fun _ => (h.splits x ctx).andThen
  | .init m typeName before name h after => by
    rw [ExpHole.plug, checkExp, ExpHole.enter]
    exact .bind fun _ => .bind fun _ => (splits_inits (h.splits x ctx) after before _).andThen
  | .item m before h after => by
    rw [ExpHole.plug, checkExp, ExpHole.enter]
    exact (splits_each (h.splits x ctx) after before _).andThen
  | .assignTarget m v value => by
    rw [ExpHole.plug, checkExp, ExpHole.enter]
    exact (v.splits x ctx).andThen
  | .assignValue m target h => by
    rw [ExpHole.plug, checkExp, ExpHole.enter]
    exact .bind fun _ => (h.splits x ctx).andThen
  | .condTest m h thenPart none => by
    rw [ExpHole.plug, checkExp, ExpHole.enter]
    exact (h.splits x ctx).andThen
  | .condTest m h thenPart (some elsePart) => by
    rw [ExpHole.plug, checkExp, ExpHole.enter]
    exact (h.splits x ctx).andThen
  | .condThen m test h none => by
    rw [ExpHole.plug, checkExp, ExpHole.enter]
    exact .bind fun _ => (h.splits x ctx).andThen
  | .condThen m test h (some elsePart) => by
    rw [ExpHole.plug, checkExp, ExpHole.enter]
    exact .bind fun _ => (h.splits x ctx).andThen
  | .condElse m test thenPart h => by
    rw [ExpHole.plug, checkExp, ExpHole.enter]
    exact .bind fun _ => .bind fun _ => (h.splits x ctx).andThen
  | .whileTest m h body => by
    rw [ExpHole.plug, checkExp, ExpHole.enter]
    exact (h.splits x ctx).andThen
  | .whileBody m test h => by
    rw [ExpHole.plug, checkExp, ExpHole.enter]
    exact .bind fun _ => (h.splits x ctx.enterLoop).andThen
  | .doBody m h test => by
    rw [ExpHole.plug, checkExp, ExpHole.enter]
    exact (h.splits x ctx.enterLoop).andThen
  | .doTest m body h => by
    rw [ExpHole.plug, checkExp, ExpHole.enter]
    exact .bind fun _ => (h.splits x ctx).andThen
  | .forLow m counter h high body slot => by
    rw [ExpHole.plug, checkExp, ExpHole.enter]
    exact (h.splits x ctx).andThen
  | .forHigh m counter low h body slot => by
    rw [ExpHole.plug, checkExp, ExpHole.enter]
    exact .bind fun _ => (h.splits x ctx).andThen
  | .forBody m counter low high h slot => by
    rw [ExpHole.plug, checkExp, ExpHole.enter]
    exact .bind fun _ => .bind fun _ => .bind fun _ => .bind fun _ => .bind fun _ => .bind fun _ =>
      (h.splits x ctx.enterLoop).andThen
  | .letDec m before d after body => by
    rw [ExpHole.plug, checkExp, ExpHole.enter]
    exact .bind fun _ => (splits_decs (d.splits x ctx) after before _).andThen
  | .letBody m decs h => by
    rw [ExpHole.plug, checkExp, ExpHole.enter]
    exact .bind fun _ => .bind fun _ => (h.splits x ctx).andThen
  | .arraySize m typeName h init => by
    rw [ExpHole.plug, checkExp, ExpHole.enter]
    exact .bind fun _ => (h.splits x ctx).andThen
  | .arrayInit m typeName size h => by
    rw [ExpHole.plug, checkExp, ExpHole.enter]
    exact .bind fun _ => .bind fun _ => (h.splits x ctx).andThen

theorem VarHole.splits (x : Exp) (ctx : Context) : ∀ h : VarHole,
    Splits x (checkVar ctx (h.plug x)) (h.enter x ctx)
  | .field m v name position => by
    rw [VarHole.plug, checkVar, VarHole.enter]
    exact (v.splits x ctx).andThen
  | .elementBase m v index => by
    rw [VarHole.plug, checkVar, VarHole.enter]
    exact (v.splits x ctx).andThen
  | .elementIndex m base h => by
    rw [VarHole.plug, checkVar, VarHole.enter]
    exact .bind fun _ => (h.splits x ctx).andThen

theorem DecHole.splits (x : Exp) (ctx : Context) : ∀ (h : DecHole) (plan : Plan),
    Splits x (checkDec ctx plan (h.plug x)) (h.enter x ctx plan)
  | .function head h loc id, .functionBody header => by
    rw [DecHole.plug, checkDec, DecHole.enter]
    exact .bind fun _ => .bind fun _ => (h.splits x _).andThen
  | .var name typeName h loc slot, .variable first => by
    rw [DecHole.plug, checkDec, DecHole.enter]
    refine .bind fun again => ?_
    cases again with
    | true => exact .throw
    | false => exact (h.splits x ctx).andThen
  | .function .., .dropped => .throw
  | .function .., .typeBody _ => .throw
  | .function .., .variable _ => .throw
  | .var .., .dropped => .throw
  | .var .., .typeBody _ => .throw
  | .var .., .functionBody _ => .throw

end

/-! ## What is missing is not looked at -/

/-- The declaration without its body or its initializer. -/
def Dec.shell : Dec → Dec
  | .type dec => .type dec
  | .function head _ loc _ => .function head (.nil {}) loc none
  | .var name typeName _ loc _ => .var name typeName (.nil {}) loc none

@[simp] theorem Dec.kind_shell (d : Dec) : d.shell.kind = d.kind := by cases d <;> rfl

@[simp] theorem Dec.name_shell (d : Dec) : d.shell.name = d.name := by cases d <;> rfl

theorem DecHole.shell_plug (x x' : Exp) (h : DecHole) : (h.plug x).shell = (h.plug x').shell := by
  cases h <;> rfl

theorem leadingRun_shell (ds : List Dec) :
    Dec.leadingRun (ds.map Dec.shell) = (Dec.leadingRun ds).map Dec.shell := by
  cases ds with
  | nil => rfl
  | cons d ds =>
    have hsame : Dec.sameKind d.shell ∘ Dec.shell = Dec.sameKind d := by
      funext e
      simp [Dec.sameKind]
    simp only [List.map_cons, Dec.leadingRun, List.takeWhile_map, hsame]

theorem bindHeaders_shell (ctx : Context) : ∀ (ds : List Dec) (seen : List String),
    bindHeaders ctx seen (ds.map Dec.shell) = bindHeaders ctx seen ds
  | [], _ => rfl
  | d :: ds, seen => by
    simp only [List.map_cons, bindHeaders, Dec.name_shell, bindHeaders_shell ctx ds]
    cases d <;> rfl

/-- A run is opened by its kind and its headers. -/
theorem openRun_eq_of_shell {ctx : Context} {ds es : List Dec} (h : ds.map Dec.shell = es.map Dec.shell) :
    openRun ctx ds = openRun ctx es := by
  have hself (ds : List Dec) : openRun ctx (ds.map Dec.shell) = openRun ctx ds := by
    cases ds with
    | nil => rfl
    | cons d ds =>
      have hheaders := bindHeaders_shell ctx (d :: ds) []
      rw [List.map_cons] at hheaders
      simp only [List.map_cons, openRun, Dec.kind_shell, hheaders, List.length_cons, List.length_map, List.map_map]
      rfl
  rw [← hself ds, h, hself es]

theorem enterDecs_eq_of_shell {ctx : Context} {d d' : Dec} {hole : Plan → Check (Stop (Dec × Bool))}
    (hd : d.shell = d'.shell) (after : List Dec) : ∀ (before : List Dec) (plans : List Plan),
      enterDecs ctx d hole after plans before = enterDecs ctx d' hole after plans before
  | [], plans => by
    have hrun : openRun ctx (Dec.leadingRun (d :: after)) = openRun ctx (Dec.leadingRun (d' :: after)) :=
      openRun_eq_of_shell (by rw [← leadingRun_shell, ← leadingRun_shell, List.map_cons, List.map_cons, hd])
    rw [enterDecs, enterDecs, hrun]
  | e :: before, plans => by
    have hrun : openRun ctx (Dec.leadingRun (e :: (before ++ d :: after))) =
        openRun ctx (Dec.leadingRun (e :: (before ++ d' :: after))) := by
      refine openRun_eq_of_shell ?_
      rw [← leadingRun_shell, ← leadingRun_shell]
      simp only [List.map_cons, List.map_append, hd]
    simp only [enterDecs, hrun, enterDecs_eq_of_shell hd after before]

mutual

/-- **The walk as far as the missing expression does not depend on it.** -/
theorem ExpHole.enter_eq (x x' : Exp) : ∀ (h : ExpHole) (ctx : Context), h.enter x ctx = h.enter x' ctx
  | .here, _ => rfl
  | .var _ v, ctx | .assignTarget _ v _, ctx => by simp only [ExpHole.enter, v.enter_eq x x' ctx]
  | .letDec _ before d after _, ctx => by
    have hhole : d.enter x ctx = d.enter x' ctx := funext (d.enter_eq x x' ctx)
    simp only [ExpHole.enter, hhole, enterDecs_eq_of_shell (d.shell_plug x x') after before]
  | .condTest _ h _ elsePart, ctx | .condThen _ _ h elsePart, ctx => by
    cases elsePart <;> simp only [ExpHole.enter, h.enter_eq x x' ctx]
  | .arg _ _ _ h _ _, ctx | .init _ _ _ _ h _, ctx => by
    simp only [ExpHole.enter, h.enter_eq x x' ctx, List.length_append, List.length_cons]
  | .binaryLeft _ _ h _, ctx | .binaryRight _ _ _ h, ctx | .item _ _ h _, ctx | .assignValue _ _ h, ctx
  | .condElse _ _ _ h, ctx | .whileTest _ h _, ctx | .doTest _ _ h, ctx | .forLow _ _ h _ _ _, ctx
  | .forHigh _ _ _ h _ _, ctx | .letBody _ _ h, ctx | .arraySize _ _ h _, ctx | .arrayInit _ _ _ h, ctx => by
    simp only [ExpHole.enter, h.enter_eq x x' ctx]
  | .whileBody _ _ h, ctx | .doBody _ h _, ctx | .forBody _ _ _ _ h _, ctx => by
    simp only [ExpHole.enter, h.enter_eq x x' ctx.enterLoop]

theorem VarHole.enter_eq (x x' : Exp) : ∀ (h : VarHole) (ctx : Context), h.enter x ctx = h.enter x' ctx
  | .field _ v _ _, ctx | .elementBase _ v _, ctx => by simp only [VarHole.enter, v.enter_eq x x' ctx]
  | .elementIndex _ _ h, ctx => by simp only [VarHole.enter, h.enter_eq x x' ctx]

theorem DecHole.enter_eq (x x' : Exp) : ∀ (h : DecHole) (ctx : Context) (plan : Plan),
    h.enter x ctx plan = h.enter x' ctx plan
  | .function _ h _ _, ctx, plan => by
    cases plan <;> simp only [DecHole.enter, h.enter_eq x x']
  | .var _ _ h _ _, ctx, plan => by
    cases plan <;> simp only [DecHole.enter, h.enter_eq x x']

end

end TigerCheck
