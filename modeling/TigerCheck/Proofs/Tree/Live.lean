import TigerCheck.Proofs.Tree.Induction
import TigerCheck.Tree.Run

/-!
# Live nodes

A declaration is dropped if its name occurs earlier in its run: the checker leaves it as it is, with all
that is in it. The other nodes of a program are live. Where the dropped declarations are pruned away, the
live nodes are left.

* `Exp.blank`, `Var.blank`, `Dec.blank`: a tree with all cells emptied.
* `OpenRun`: the run that a declaration may continue. `OpenRun.Repeats`: its name occurs there.
* `Exp.live`, `Var.live`, `Dec.live`: a tree without the dropped declarations in it.
* `Exp.dropped`, `Var.dropped`, `Dec.dropped`: the outermost dropped declarations.
* `Exp.ownSlots`, `Var.ownSlots`, `Dec.ownSlots`: the slots that a tree puts into the frame of its function.
* `liveDecs_append`, `droppedDecs_append`, …: one run of declarations after another.
-/

namespace TigerCheck

/-! ## Empty cells -/

/-- The mark with its type cell emptied. -/
def Mark.blank (m : Mark) : Mark := m.typed none

@[simp] theorem Mark.blank_typed (m : Mark) (ty : Option Ty) : (m.typed ty).blank = m.blank := rfl

mutual

/-- An expression with all its cells emptied. -/
def Exp.blank : Exp → Exp
  | .var m v => .var m.blank v.blank
  | .nil m => .nil m.blank
  | .int m n => .int m.blank n
  | .string m s => .string m.blank s
  | .call m callee args _ => .call m.blank callee (blankAll args) none
  | .binary m op left right => .binary m.blank op left.blank right.blank
  | .record m typeName inits => .record m.blank typeName (blankInits inits)
  | .seq m items => .seq m.blank (blankAll items)
  | .assign m target value => .assign m.blank target.blank value.blank
  | .cond m test thenPart none => .cond m.blank test.blank thenPart.blank none
  | .cond m test thenPart (some elsePart) =>
    .cond m.blank test.blank thenPart.blank (some elsePart.blank)
  | .whileLoop m test body => .whileLoop m.blank test.blank body.blank
  | .doWhile m body test => .doWhile m.blank body.blank test.blank
  | .forLoop m counter low high body _ =>
    .forLoop m.blank counter low.blank high.blank body.blank none
  | .breakLoop m => .breakLoop m.blank
  | .letIn m decs body => .letIn m.blank (blankDecs decs) body.blank
  | .array m typeName size init => .array m.blank typeName size.blank init.blank

/-- A variable with all its cells emptied. -/
def Var.blank : Var → Var
  | .simple m name _ => .simple m.blank name none
  | .field m base name _ => .field m.blank base.blank name none
  | .element m base index => .element m.blank base.blank index.blank

/-- A declaration with all its cells emptied. -/
def Dec.blank : Dec → Dec
  | .type dec => .type dec
  | .function head body loc _ => .function head body.blank loc none
  | .var name typeName init loc _ => .var name typeName init.blank loc none

def blankAll : List Exp → List Exp
  | [] => []
  | e :: es => e.blank :: blankAll es

def blankInits : List (Ident × Exp) → List (Ident × Exp)
  | [] => []
  | (name, e) :: inits => (name, e.blank) :: blankInits inits

def blankDecs : List Dec → List Dec
  | [] => []
  | d :: ds => d.blank :: blankDecs ds

end

attribute [simp] Exp.blank Var.blank Dec.blank blankAll blankInits blankDecs

theorem blankDecs_eq_map (ds : List Dec) : blankDecs ds = ds.map Dec.blank := by
  induction ds with
  | nil => rfl
  | cons d ds ih => rw [blankDecs, ih, List.map_cons]

theorem Dec.kind_blank (d : Dec) : d.blank.kind = d.kind := by
  cases d <;> rfl

theorem Dec.name_blank (d : Dec) : d.blank.name = d.name := by
  cases d <;> rfl

/-- What the runs of declarations depend on: the kind and the name of each. -/
def Dec.header (d : Dec) : Dec.Kind × Ident := (d.kind, d.name)

/-- Declarations that differ in their cells only have the same headers. -/
theorem map_header_of_blank {ds es : List Dec} (h : blankDecs es = blankDecs ds) :
    es.map Dec.header = ds.map Dec.header := by
  have hself (ds : List Dec) : ds.map Dec.header = (blankDecs ds).map Dec.header := by
    rw [blankDecs_eq_map, List.map_map]
    refine List.map_congr_left fun d _ => ?_
    rw [Function.comp_apply, Dec.header, Dec.header, d.kind_blank, d.name_blank]
  rw [hself es, h, hself ds]

theorem kind_of_mem_map_header {k : Dec.Kind} {ds es : List Dec}
    (h : es.map Dec.header = ds.map Dec.header) (hk : ∀ d ∈ ds, d.kind = k) : ∀ e ∈ es, e.kind = k := by
  intro e he
  obtain ⟨d, hd, hde⟩ := List.mem_map.mp (h ▸ List.mem_map_of_mem he : e.header ∈ ds.map Dec.header)
  exact (congrArg Prod.fst hde).symm.trans (hk d hd)

theorem kind_of_mem_blankDecs {k : Dec.Kind} {ds es : List Dec} (h : blankDecs es = blankDecs ds)
    (hk : ∀ d ∈ ds, d.kind = k) : ∀ e ∈ es, e.kind = k :=
  kind_of_mem_map_header (map_header_of_blank h) hk

/-- Declarations that differ in their cells only are of one kind. -/
theorem Dec.kind_eq_of_blank {d e : Dec} (h : d.blank = e.blank) : d.kind = e.kind := by
  rw [← d.kind_blank, h, e.kind_blank]

theorem Dec.name_eq_of_blank {d e : Dec} (h : d.blank = e.blank) : d.name = e.name := by
  rw [← d.name_blank, h, e.name_blank]

/-! ## Runs of names -/

/-- The run that a declaration may continue: its kind, if there is one, and its names so far. -/
structure OpenRun where
  kind : Option Dec.Kind := none
  names : List String := []

namespace OpenRun

/-- The names that come before a declaration in its run. One of another kind opens a run. -/
def before (r : OpenRun) (d : Dec) : List String := if r.kind = some d.kind then r.names else []

/-- The name of a declaration occurs earlier in its run. -/
def Repeats (r : OpenRun) (d : Dec) : Prop := d.name.name ∈ r.before d

instance (r : OpenRun) (d : Dec) : Decidable (r.Repeats d) := by unfold Repeats; infer_instance

/-- The run up to a declaration. -/
def next (r : OpenRun) (d : Dec) : OpenRun := ⟨some d.kind, (r.before d).insert d.name.name⟩

variable {k : Dec.Kind} {seen : List String} {d : Dec}

theorem before_of_kind (h : d.kind = k) : before ⟨some k, seen⟩ d = seen := by
  rw [before, h, if_pos rfl]

theorem repeats_iff (h : d.kind = k) : Repeats ⟨some k, seen⟩ d ↔ d.name.name ∈ seen := by
  rw [Repeats, before_of_kind h]

theorem next_of_mem (h : d.kind = k) (hd : d.name.name ∈ seen) :
    next ⟨some k, seen⟩ d = ⟨some k, seen⟩ := by
  rw [next, before_of_kind h, List.insert_of_mem hd, h]

theorem next_of_not_mem (h : d.kind = k) (hd : d.name.name ∉ seen) :
    next ⟨some k, seen⟩ d = ⟨some k, d.name.name :: seen⟩ := by
  rw [next, before_of_kind h, List.insert_of_not_mem hd, h]

end OpenRun

/-! ## Pruned trees -/

mutual

/-- An expression without the dropped declarations in it. -/
def Exp.live : Exp → Exp
  | .var m v => .var m v.live
  | .nil m => .nil m
  | .int m n => .int m n
  | .string m s => .string m s
  | .call m callee args function => .call m callee (liveAll args) function
  | .binary m op left right => .binary m op left.live right.live
  | .record m typeName inits => .record m typeName (liveInits inits)
  | .seq m items => .seq m (liveAll items)
  | .assign m target value => .assign m target.live value.live
  | .cond m test thenPart none => .cond m test.live thenPart.live none
  | .cond m test thenPart (some elsePart) => .cond m test.live thenPart.live (some elsePart.live)
  | .whileLoop m test body => .whileLoop m test.live body.live
  | .doWhile m body test => .doWhile m body.live test.live
  | .forLoop m counter low high body slot => .forLoop m counter low.live high.live body.live slot
  | .breakLoop m => .breakLoop m
  | .letIn m decs body => .letIn m (liveDecs {} decs) body.live
  | .array m typeName size init => .array m typeName size.live init.live

/-- A variable without the dropped declarations in it. -/
def Var.live : Var → Var
  | .simple m name binding => .simple m name binding
  | .field m base name position => .field m base.live name position
  | .element m base index => .element m base.live index.live

/-- A declaration without the dropped declarations in it. -/
def Dec.live : Dec → Dec
  | .type dec => .type dec
  | .function head body loc id => .function head body.live loc id
  | .var name typeName init loc slot => .var name typeName init.live loc slot

def liveAll : List Exp → List Exp
  | [] => []
  | e :: es => e.live :: liveAll es

def liveInits : List (Ident × Exp) → List (Ident × Exp)
  | [] => []
  | (name, e) :: inits => (name, e.live) :: liveInits inits

/-- The declarations that are not dropped, given the run before them. -/
def liveDecs (r : OpenRun) : List Dec → List Dec
  | [] => []
  | d :: ds => if r.Repeats d then liveDecs (r.next d) ds else d.live :: liveDecs (r.next d) ds

end

attribute [grind =] Exp.live Var.live Dec.live liveAll liveInits liveDecs

mutual

/-- The outermost dropped declarations in an expression. -/
def Exp.dropped : Exp → List Dec
  | .nil _ | .int _ _ | .string _ _ | .breakLoop _ => []
  | .var _ v => v.dropped
  | .call _ _ args _ => droppedAll args
  | .binary _ _ left right => left.dropped ++ right.dropped
  | .record _ _ inits => droppedInits inits
  | .seq _ items => droppedAll items
  | .assign _ target value => target.dropped ++ value.dropped
  | .cond _ test thenPart none => test.dropped ++ thenPart.dropped
  | .cond _ test thenPart (some elsePart) => test.dropped ++ thenPart.dropped ++ elsePart.dropped
  | .whileLoop _ test body => test.dropped ++ body.dropped
  | .doWhile _ body test => body.dropped ++ test.dropped
  | .forLoop _ _ low high body _ => low.dropped ++ high.dropped ++ body.dropped
  | .letIn _ decs body => droppedDecs {} decs ++ body.dropped
  | .array _ _ size init => size.dropped ++ init.dropped

/-- The outermost dropped declarations in a variable. -/
def Var.dropped : Var → List Dec
  | .simple .. => []
  | .field _ base _ _ => base.dropped
  | .element _ base index => base.dropped ++ index.dropped

/-- The outermost dropped declarations in a declaration. -/
def Dec.dropped : Dec → List Dec
  | .type _ => []
  | .function _ body _ _ => body.dropped
  | .var _ _ init _ _ => init.dropped

def droppedAll : List Exp → List Dec
  | [] => []
  | e :: es => e.dropped ++ droppedAll es

def droppedInits : List (Ident × Exp) → List Dec
  | [] => []
  | (_, e) :: inits => e.dropped ++ droppedInits inits

/-- The outermost dropped declarations among some declarations, given the run before them. -/
def droppedDecs (r : OpenRun) : List Dec → List Dec
  | [] => []
  | d :: ds => (if r.Repeats d then [d] else d.dropped) ++ droppedDecs (r.next d) ds

end

attribute [grind =] Exp.dropped Var.dropped Dec.dropped droppedAll droppedInits droppedDecs

section

variable {k : Dec.Kind} {seen : List String} {d : Dec} {ds : List Dec}

/-- A declaration of a run whose name occurred before is dropped. -/
theorem liveDecs_of_mem (h : d.kind = k) (hd : d.name.name ∈ seen) :
    liveDecs ⟨some k, seen⟩ (d :: ds) = liveDecs ⟨some k, seen⟩ ds := by
  rw [liveDecs, if_pos ((OpenRun.repeats_iff h).mpr hd), OpenRun.next_of_mem h hd]

theorem liveDecs_of_not_mem (h : d.kind = k) (hd : d.name.name ∉ seen) :
    liveDecs ⟨some k, seen⟩ (d :: ds) = d.live :: liveDecs ⟨some k, d.name.name :: seen⟩ ds := by
  rw [liveDecs, if_neg (mt (OpenRun.repeats_iff h).mp hd), OpenRun.next_of_not_mem h hd]

theorem liveDecs_function {head : FunctionHead} {body : Exp} {loc : Location} {id : Option FunctionId}
    (hd : head.name.name ∉ seen) :
    liveDecs ⟨some .function, seen⟩ (.function head body loc id :: ds) =
      .function head body.live loc id :: liveDecs ⟨some .function, head.name.name :: seen⟩ ds :=
  liveDecs_of_not_mem (d := .function head body loc id) rfl hd

theorem liveDecs_var {name : Ident} {typeName : Option Ident} {init : Exp} {loc : Location}
    {slot : Option VarId} (hd : name.name ∉ seen) :
    liveDecs ⟨some .var, seen⟩ (.var name typeName init loc slot :: ds) =
      .var name typeName init.live loc slot :: liveDecs ⟨some .var, name.name :: seen⟩ ds :=
  liveDecs_of_not_mem (d := .var name typeName init loc slot) rfl hd

theorem droppedDecs_of_mem (h : d.kind = k) (hd : d.name.name ∈ seen) :
    droppedDecs ⟨some k, seen⟩ (d :: ds) = d :: droppedDecs ⟨some k, seen⟩ ds := by
  rw [droppedDecs, if_pos ((OpenRun.repeats_iff h).mpr hd), OpenRun.next_of_mem h hd]
  rfl

theorem droppedDecs_of_not_mem (h : d.kind = k) (hd : d.name.name ∉ seen) :
    droppedDecs ⟨some k, seen⟩ (d :: ds) =
      d.dropped ++ droppedDecs ⟨some k, d.name.name :: seen⟩ ds := by
  rw [droppedDecs, if_neg (mt (OpenRun.repeats_iff h).mp hd), OpenRun.next_of_not_mem h hd]

end

/-! ## Dropped declarations of a fresh tree -/

/-- Every dropped declaration of a list has empty cells. -/
def AllBlank (ds : List Dec) : Prop := ∀ d ∈ ds, d.blank = d

theorem AllBlank.append {ds es : List Dec} (h : AllBlank ds) (h' : AllBlank es) : AllBlank (ds ++ es) :=
  List.forall_mem_append.mpr ⟨h, h'⟩

theorem AllBlank.nil : AllBlank [] := List.forall_mem_nil _

theorem allBlank_droppedAll {es : List Exp} (h : ∀ e ∈ es, e.blank = e → AllBlank e.dropped)
    (hes : blankAll es = es) : AllBlank (droppedAll es) := by
  induction es with
  | nil => exact .nil
  | cons e es ih =>
    obtain ⟨he, hrest⟩ := List.forall_mem_cons.mp h
    simp only [blankAll, List.cons.injEq] at hes
    exact (he hes.1).append (ih hrest hes.2)

theorem allBlank_droppedInits {inits : List (Ident × Exp)}
    (h : ∀ i ∈ inits, i.2.blank = i.2 → AllBlank i.2.dropped) (hinits : blankInits inits = inits) :
    AllBlank (droppedInits inits) := by
  induction inits with
  | nil => exact .nil
  | cons i inits ih =>
    obtain ⟨hi, hrest⟩ := List.forall_mem_cons.mp h
    simp only [blankInits, List.cons.injEq, Prod.ext_iff] at hinits
    exact (hi hinits.1.2).append (ih hrest hinits.2)

theorem allBlank_droppedDecs {ds : List Dec} (h : ∀ d ∈ ds, d.blank = d → AllBlank d.dropped)
    (hds : blankDecs ds = ds) (o : OpenRun) : AllBlank (droppedDecs o ds) := by
  induction ds generalizing o with
  | nil => exact .nil
  | cons d ds ih =>
    obtain ⟨hd, hrest⟩ := List.forall_mem_cons.mp h
    simp only [blankDecs, List.cons.injEq] at hds
    refine AllBlank.append ?_ (ih hrest hds.2 _)
    split
    · exact List.forall_mem_singleton.mpr hds.1
    · exact hd hds.1

theorem allBlankCases : Tree.Cases (fun e => e.blank = e → AllBlank e.dropped)
    (fun v => v.blank = v → AllBlank v.dropped) (fun d => d.blank = d → AllBlank d.dropped) where
  var _ _ hv h := hv (Exp.var.inj h).2
  nil _ _ := .nil
  int _ _ _ := .nil
  string _ _ _ := .nil
  call _ _ _ _ ha h := allBlank_droppedAll ha (Exp.call.inj h).2.2.1
  binary _ _ _ _ hl hr h := (hl (Exp.binary.inj h).2.2.1).append (hr (Exp.binary.inj h).2.2.2)
  record _ _ _ hi h := allBlank_droppedInits hi (Exp.record.inj h).2.2
  seq _ _ hi h := allBlank_droppedAll hi (Exp.seq.inj h).2
  assign _ _ _ ht hv h := (ht (Exp.assign.inj h).2.1).append (hv (Exp.assign.inj h).2.2)
  condNone _ _ _ ht hp h := (ht (Exp.cond.inj h).2.1).append (hp (Exp.cond.inj h).2.2.1)
  condSome _ _ _ _ ht hp he h := ((ht (Exp.cond.inj h).2.1).append (hp (Exp.cond.inj h).2.2.1)).append
    (he (Option.some.inj (Exp.cond.inj h).2.2.2))
  whileLoop _ _ _ ht hb h := (ht (Exp.whileLoop.inj h).2.1).append (hb (Exp.whileLoop.inj h).2.2)
  doWhile _ _ _ hb ht h := (hb (Exp.doWhile.inj h).2.1).append (ht (Exp.doWhile.inj h).2.2)
  forLoop _ _ _ _ _ _ hl hh hb h := ((hl (Exp.forLoop.inj h).2.2.1).append
    (hh (Exp.forLoop.inj h).2.2.2.1)).append (hb (Exp.forLoop.inj h).2.2.2.2.1)
  breakLoop _ _ := .nil
  letIn _ _ _ hd hb h := (allBlank_droppedDecs hd (Exp.letIn.inj h).2.1 {}).append
    (hb (Exp.letIn.inj h).2.2)
  array _ _ _ _ hz hi h := (hz (Exp.array.inj h).2.2.1).append (hi (Exp.array.inj h).2.2.2)
  simple _ _ _ _ := .nil
  field _ _ _ _ hb h := hb (Var.field.inj h).2.1
  element _ _ _ hb hi h := (hb (Var.element.inj h).2.1).append (hi (Var.element.inj h).2.2)
  type _ _ := .nil
  function _ _ _ _ hb h := hb (Dec.function.inj h).2.1
  varDec _ _ _ _ _ hi h := hi (Dec.var.inj h).2.2.1

/-- **In a tree whose cells are empty, so are those of the dropped declarations.** -/
theorem Exp.allBlank_dropped (e : Exp) (h : e.blank = e) : AllBlank e.dropped := allBlankCases.all.1 e h

theorem Dec.kind_live (d : Dec) : d.live.kind = d.kind := by
  cases d <;> rfl

theorem kind_of_mem_liveDecs {k : Dec.Kind} {ds : List Dec} (h : ∀ d ∈ ds, d.kind = k) :
    ∀ (r : OpenRun), ∀ d ∈ liveDecs r ds, d.kind = k := by
  induction ds with
  | nil => exact fun r d hd => by cases hd
  | cons d ds ih =>
    obtain ⟨hd, hds⟩ := List.forall_mem_cons.mp h
    intro r
    rw [liveDecs]
    split
    · exact ih hds _
    · exact List.forall_mem_cons.mpr ⟨d.kind_live.trans hd, ih hds _⟩

/-! ## The slots of a function -/

mutual

/-- The slots of the variables and counters that are declared in an expression but not in a function
nested in it: a variable after its initializer, a counter after its bounds and before its body. -/
def Exp.ownSlots : Exp → List (Option VarId)
  | .nil _ | .int _ _ | .string _ _ | .breakLoop _ => []
  | .var _ v => v.ownSlots
  | .call _ _ args _ => ownSlotsAll args
  | .binary _ _ left right => left.ownSlots ++ right.ownSlots
  | .record _ _ inits => ownSlotsInits inits
  | .seq _ items => ownSlotsAll items
  | .assign _ target value => target.ownSlots ++ value.ownSlots
  | .cond _ test thenPart none => test.ownSlots ++ thenPart.ownSlots
  | .cond _ test thenPart (some elsePart) =>
    test.ownSlots ++ thenPart.ownSlots ++ elsePart.ownSlots
  | .whileLoop _ test body => test.ownSlots ++ body.ownSlots
  | .doWhile _ body test => body.ownSlots ++ test.ownSlots
  | .forLoop _ _ low high body slot => low.ownSlots ++ high.ownSlots ++ [slot] ++ body.ownSlots
  | .letIn _ decs body => ownSlotsDecs decs ++ body.ownSlots
  | .array _ _ size init => size.ownSlots ++ init.ownSlots

/-- The slots that a variable puts into the frame of its function. -/
def Var.ownSlots : Var → List (Option VarId)
  | .simple .. => []
  | .field _ base _ _ => base.ownSlots
  | .element _ base index => base.ownSlots ++ index.ownSlots

/-- The slots that a declaration puts into the frame of its function. Those of a function's body go into
a frame of their own. -/
def Dec.ownSlots : Dec → List (Option VarId)
  | .type _ | .function .. => []
  | .var _ _ init _ slot => init.ownSlots ++ [slot]

def ownSlotsAll : List Exp → List (Option VarId)
  | [] => []
  | e :: es => e.ownSlots ++ ownSlotsAll es

def ownSlotsInits : List (Ident × Exp) → List (Option VarId)
  | [] => []
  | (_, e) :: inits => e.ownSlots ++ ownSlotsInits inits

def ownSlotsDecs : List Dec → List (Option VarId)
  | [] => []
  | d :: ds => d.ownSlots ++ ownSlotsDecs ds

end

attribute [grind =] Exp.ownSlots Var.ownSlots Dec.ownSlots ownSlotsAll ownSlotsInits ownSlotsDecs

/-! ## One run after another -/

section

variable {o : OpenRun} {k : Dec.Kind} {d : Dec} {ds es : List Dec}

/-- A run is opened where the kind of the declarations changes. -/
def OpenRun.Ends (o : OpenRun) (ds : List Dec) : Prop := ∀ d ∈ ds.head?, o.kind ≠ some d.kind

theorem liveDecs_opens (h : o.kind ≠ some d.kind) :
    liveDecs o (d :: ds) = liveDecs ⟨some d.kind, []⟩ (d :: ds) := by
  have hbefore : o.before d = OpenRun.before ⟨some d.kind, []⟩ d := by
    rw [OpenRun.before, if_neg h, OpenRun.before_of_kind rfl]
  simp only [liveDecs, OpenRun.Repeats, OpenRun.next, hbefore]

theorem droppedDecs_opens (h : o.kind ≠ some d.kind) :
    droppedDecs o (d :: ds) = droppedDecs ⟨some d.kind, []⟩ (d :: ds) := by
  have hbefore : o.before d = OpenRun.before ⟨some d.kind, []⟩ d := by
    rw [OpenRun.before, if_neg h, OpenRun.before_of_kind rfl]
  simp only [droppedDecs, OpenRun.Repeats, OpenRun.next, hbefore]

/-- Whether a run ends depends on kinds only. -/
theorem OpenRun.Ends.of_header (h : o.Ends ds) (he : es.map Dec.header = ds.map Dec.header) : o.Ends es := by
  intro e hmem
  have hhead := congrArg List.head? he
  rw [List.head?_map, List.head?_map, hmem] at hhead
  obtain ⟨d, hd, hde⟩ := Option.map_eq_some_iff.mp hhead.symm
  have hkind : d.kind = e.kind := congrArg Prod.fst hde
  exact hkind ▸ h d hd

/-- Whether a run ends does not depend on cells. -/
theorem OpenRun.Ends.of_blank (h : o.Ends ds) (he : blankDecs es = blankDecs ds) : o.Ends es :=
  h.of_header (map_header_of_blank he)

/-- The run after some declarations. -/
def OpenRun.after (o : OpenRun) (ds : List Dec) : OpenRun := ds.foldl OpenRun.next o

theorem OpenRun.after_opens (h : o.kind ≠ some d.kind) :
    o.after (d :: ds) = OpenRun.after ⟨some d.kind, []⟩ (d :: ds) := by
  have hbefore : o.before d = OpenRun.before ⟨some d.kind, []⟩ d := by
    rw [OpenRun.before, if_neg h, OpenRun.before_of_kind rfl]
  rw [after, after, List.foldl_cons, List.foldl_cons, next, next, hbefore]

theorem OpenRun.after_eq_of_header (he : es.map Dec.header = ds.map Dec.header) : o.after es = o.after ds := by
  have hnext : ∀ ds : List Dec, o.after ds = (ds.map Dec.header).foldl (fun o h =>
      ⟨some h.1, (if o.kind = some h.1 then o.names else []).insert h.2.name⟩) o := by
    intro ds
    rw [List.foldl_map]
    rfl
  rw [hnext, hnext, he]

theorem OpenRun.after_eq_of_blank (he : blankDecs es = blankDecs ds) : o.after es = o.after ds :=
  after_eq_of_header (map_header_of_blank he)

theorem liveDecs_append (o : OpenRun) (ds es : List Dec) :
    liveDecs o (ds ++ es) = liveDecs o ds ++ liveDecs (o.after ds) es := by
  induction ds generalizing o with
  | nil => rfl
  | cons d ds ih =>
    rw [List.cons_append, liveDecs, liveDecs, ih]
    split
    · rfl
    · rfl

theorem droppedDecs_append (o : OpenRun) (ds es : List Dec) :
    droppedDecs o (ds ++ es) = droppedDecs o ds ++ droppedDecs (o.after ds) es := by
  induction ds generalizing o with
  | nil => rfl
  | cons d ds ih =>
    rw [List.cons_append, droppedDecs, droppedDecs, ih, List.append_assoc]
    rfl

theorem OpenRun.kind_after (h : ∀ e ∈ d :: ds, e.kind = k) : (o.after (d :: ds)).kind = some k := by
  induction ds generalizing o d with
  | nil => exact congrArg some (h d List.mem_cons_self)
  | cons e ds ih => exact ih (o := o.next d) fun f hf => h f (List.mem_cons_of_mem _ hf)

/-- The run of a declaration ends where the kind changes. -/
theorem OpenRun.ends_dropWhile (h : o.kind = some d.kind) (ds : List Dec) :
    o.Ends (ds.dropWhile (Dec.sameKind d)) := by
  intro e he
  have hne := List.head?_dropWhile_not (Dec.sameKind d) ds
  rw [he] at hne
  rw [h]
  intro heq
  exact Bool.false_ne_true (hne.symm.trans (Dec.sameKind_iff.mpr (Option.some.inj heq)))

/-- The leading run ends where the kind changes. -/
theorem leadingRun_append (h : ∀ e ∈ d :: ds, e.kind = k) (hes : OpenRun.Ends ⟨some k, []⟩ es) :
    Dec.leadingRun (d :: ds ++ es) = d :: ds := by
  obtain ⟨hd, hds⟩ := List.forall_mem_cons.mp h
  have hsame : ∀ e ∈ ds, Dec.sameKind d e = true := fun e he =>
    Dec.sameKind_iff.mpr (hd.trans (hds e he).symm)
  rw [List.cons_append, Dec.leadingRun, List.takeWhile_append_of_pos hsame]
  cases es with
  | nil => rw [List.takeWhile_nil, List.append_nil]
  | cons e es =>
    have hne : ¬ Dec.sameKind d e = true := fun he =>
      hes e rfl (congrArg some (hd.symm.trans (Dec.sameKind_iff.mp he)))
    rw [List.takeWhile_cons_of_neg hne, List.append_nil]

theorem blankDecs_append (ds es : List Dec) : blankDecs (ds ++ es) = blankDecs ds ++ blankDecs es := by
  simp [blankDecs_eq_map]

theorem ownSlotsDecs_append (ds es : List Dec) :
    ownSlotsDecs (ds ++ es) = ownSlotsDecs ds ++ ownSlotsDecs es := by
  induction ds with
  | nil => rfl
  | cons d ds ih => rw [List.cons_append, ownSlotsDecs, ownSlotsDecs, ih, List.append_assoc]

/-- The first live declaration is of the kind of the first declaration. -/
theorem OpenRun.Ends.live (h : o.Ends ds) : o.Ends (liveDecs o ds) := by
  cases ds with
  | nil => exact h
  | cons d ds =>
    have hd := h d rfl
    have hnot : ¬ o.Repeats d := by
      rw [Repeats, before, if_neg hd]
      exact List.not_mem_nil
    rw [liveDecs, if_neg hnot]
    intro e he
    cases he
    rw [d.kind_live]
    exact hd

end

end TigerCheck
