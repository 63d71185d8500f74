import Mathlib.Data.List.Induction
import TigerCheck.Proofs.Tree.Live

/-!
# Trimmed trees

Of a dropped declaration only its kind and its name are read, which is how it is found to be dropped. A tree
is trimmed by cutting off all the rest of its dropped declarations. Two trees that are the same when they are
trimmed differ within their dropped declarations only.

* `Dec.stub`: a declaration without anything but its kind and its name.
* `Exp.trim`, `Var.trim`, `Dec.trim`, `trimDecs`, `Program.trim`: trees whose dropped declarations are stubs.
* `repeatedDecs`, `heldDecs`: the dropped declarations of a run, and those inside its other declarations.
* `OpenRun.mem_before_after`: the names before a declaration, in the unbroken stretch of its kind.
* **`trimDecs_replace`**: a dropped declaration may be exchanged for any other one of its kind and name.
-/

namespace TigerCheck

/-- The declaration without anything but its kind and its name. -/
def Dec.stub : Dec → Dec
  | .type dec => .type ⟨dec.name, .record [], .unknown⟩
  | .function head _ _ _ => .function ⟨head.name, [], none⟩ (.nil {}) .unknown none
  | .var name _ _ _ _ => .var name none (.nil {}) .unknown none

mutual

/-- The expression with stubs for the dropped declarations in it. -/
@[simp] def Exp.trim : Exp → Exp
  | .var m v => .var m v.trim
  | .nil m => .nil m
  | .int m n => .int m n
  | .string m s => .string m s
  | .call m callee args function => .call m callee (trimAll args) function
  | .binary m op left right => .binary m op left.trim right.trim
  | .record m typeName inits => .record m typeName (trimInits inits)
  | .seq m items => .seq m (trimAll items)
  | .assign m target value => .assign m target.trim value.trim
  | .cond m test thenPart none => .cond m test.trim thenPart.trim none
  | .cond m test thenPart (some elsePart) => .cond m test.trim thenPart.trim (some elsePart.trim)
  | .whileLoop m test body => .whileLoop m test.trim body.trim
  | .doWhile m body test => .doWhile m body.trim test.trim
  | .forLoop m counter low high body slot => .forLoop m counter low.trim high.trim body.trim slot
  | .breakLoop m => .breakLoop m
  | .letIn m decs body => .letIn m (trimDecs {} decs) body.trim
  | .array m typeName size init => .array m typeName size.trim init.trim

/-- The variable with stubs for the dropped declarations in it. -/
@[simp] def Var.trim : Var → Var
  | .simple m name binding => .simple m name binding
  | .field m base name position => .field m base.trim name position
  | .element m base index => .element m base.trim index.trim

/-- The declaration with stubs for the dropped declarations in it. -/
@[simp] def Dec.trim : Dec → Dec
  | .type dec => .type dec
  | .function head body loc id => .function head body.trim loc id
  | .var name typeName init loc slot => .var name typeName init.trim loc slot

@[simp] def trimAll : List Exp → List Exp
  | [] => []
  | e :: es => e.trim :: trimAll es

@[simp] def trimInits : List (Ident × Exp) → List (Ident × Exp)
  | [] => []
  | (name, e) :: inits => (name, e.trim) :: trimInits inits

/-- The declarations with stubs for those that are dropped, given the run before them. -/
@[simp] def trimDecs (o : OpenRun) : List Dec → List Dec
  | [] => []
  | d :: ds => (if o.Repeats d then d.stub else d.trim) :: trimDecs (o.next d) ds

end

/-- The program with stubs for the dropped declarations in it. -/
def Program.trim (p : Program) : Program := ⟨p.body.trim⟩

/-! ## What is left -/

@[simp] theorem Exp.mark_trim (e : Exp) : e.trim.mark = e.mark := by
  cases e with
  | cond m test thenPart elsePart => cases elsePart <;> simp only [trim, mark]
  | _ => simp only [trim, mark]

@[simp] theorem Exp.ty_trim (e : Exp) : e.trim.ty = e.ty := congrArg Mark.ty e.mark_trim

@[simp] theorem Exp.isLiteral_trim (e : Exp) : e.trim.isLiteral = e.isLiteral := by
  cases e with
  | cond m test thenPart elsePart => cases elsePart <;> rfl
  | _ => rfl

@[simp] theorem Var.mark_trim (v : Var) : v.trim.mark = v.mark := by
  cases v <;> simp only [trim, mark]

@[simp] theorem Var.ty_trim (v : Var) : v.trim.ty = v.ty := congrArg Mark.ty v.mark_trim

@[simp] theorem Dec.kind_stub (d : Dec) : d.stub.kind = d.kind := by
  cases d <;> rfl

@[simp] theorem Dec.name_stub (d : Dec) : d.stub.name = d.name := by
  cases d <;> rfl

@[simp] theorem Dec.kind_trim (d : Dec) : d.trim.kind = d.kind := by
  cases d <;> rfl

@[simp] theorem Dec.name_trim (d : Dec) : d.trim.name = d.name := by
  cases d <;> rfl

/-- A stub is made from a kind and a name. -/
theorem Dec.stub_eq {d e : Dec} (hk : d.kind = e.kind) (hn : d.name = e.name) : d.stub = e.stub := by
  cases d <;> cases e <;> simp_all [kind, name, stub]

theorem trimAll_eq_map (es : List Exp) : trimAll es = es.map Exp.trim := by
  induction es with
  | nil => rfl
  | cons e es ih => rw [trimAll, ih, List.map_cons]

@[simp] theorem length_trimAll (es : List Exp) : (trimAll es).length = es.length := by
  rw [trimAll_eq_map, List.length_map]

@[simp] theorem length_trimInits (inits : List (Ident × Exp)) : (trimInits inits).length = inits.length := by
  induction inits with
  | nil => rfl
  | cons i inits ih => exact congrArg Nat.succ ih

/-- Declarations keep their headers. -/
@[simp] theorem map_header_trimDecs (o : OpenRun) (ds : List Dec) :
    (trimDecs o ds).map Dec.header = ds.map Dec.header := by
  induction ds generalizing o with
  | nil => rfl
  | cons d ds ih =>
    rw [trimDecs, List.map_cons, List.map_cons, ih]
    split
    · rw [Dec.header, d.kind_stub, d.name_stub, Dec.header]
    · rw [Dec.header, d.kind_trim, d.name_trim, Dec.header]

@[simp] theorem length_trimDecs (o : OpenRun) (ds : List Dec) : (trimDecs o ds).length = ds.length := by
  have h := congrArg List.length (map_header_trimDecs o ds)
  rwa [List.length_map, List.length_map] at h

/-! ## Runs -/

section

variable {o : OpenRun} {k : Dec.Kind} {seen : List String} {d : Dec} {ds es : List Dec}

theorem trimDecs_of_mem (h : d.kind = k) (hd : d.name.name ∈ seen) :
    trimDecs ⟨some k, seen⟩ (d :: ds) = d.stub :: trimDecs ⟨some k, seen⟩ ds := by
  rw [trimDecs, if_pos ((OpenRun.repeats_iff h).mpr hd), OpenRun.next_of_mem h hd]

theorem trimDecs_of_not_mem (h : d.kind = k) (hd : d.name.name ∉ seen) :
    trimDecs ⟨some k, seen⟩ (d :: ds) = d.trim :: trimDecs ⟨some k, d.name.name :: seen⟩ ds := by
  rw [trimDecs, if_neg (mt (OpenRun.repeats_iff h).mp hd), OpenRun.next_of_not_mem h hd]

/-- A run is opened where the kind changes. -/
theorem trimDecs_opens (ho : o.Ends ds) (hk : ∀ d ∈ ds, d.kind = k) : trimDecs o ds = trimDecs ⟨some k, []⟩ ds := by
  cases ds with
  | nil => rfl
  | cons d ds =>
    have hd := hk d List.mem_cons_self
    have hbefore : o.before d = OpenRun.before ⟨some k, []⟩ d := by
      rw [OpenRun.before, if_neg (ho d rfl), OpenRun.before_of_kind hd]
    simp only [trimDecs, OpenRun.Repeats, OpenRun.next, hbefore]

theorem trimDecs_append (o : OpenRun) (ds es : List Dec) :
    trimDecs o (ds ++ es) = trimDecs o ds ++ trimDecs (o.after ds) es := by
  induction ds generalizing o with
  | nil => rfl
  | cons d ds ih =>
    rw [List.cons_append, trimDecs, trimDecs, ih]
    rfl

theorem OpenRun.after_concat (o : OpenRun) (ds : List Dec) (d : Dec) : o.after (ds ++ [d]) = (o.after ds).next d := by
  rw [after, List.foldl_append]
  rfl

/-- The names before a declaration are those of the unbroken stretch of its kind in front of it. -/
theorem OpenRun.mem_before_after {name : String} :
    name ∈ (OpenRun.after {} ds).before d ↔
      ∃ e ∈ ds.reverse.takeWhile (·.kind = d.kind), e.name.name = name := by
  induction ds using List.reverseRecOn generalizing d with
  | nil => simp [after, before]
  | append_singleton ds e ih =>
    rw [after_concat, before, next]
    dsimp only
    by_cases hk : e.kind = d.kind
    · rw [if_pos (congrArg some hk), List.mem_insert_iff, ih, hk]
      simp [hk, eq_comm]
    · rw [if_neg (mt Option.some.inj hk)]
      simp [hk]

/-- **A dropped declaration may be exchanged** for any other one of its kind and name. -/
theorem trimDecs_replace {before after : List Dec} {d d' : Dec} (h : (o.after before).Repeats d)
    (hk : d'.kind = d.kind) (hn : d'.name = d.name) :
    trimDecs o (before ++ d' :: after) = trimDecs o (before ++ d :: after) := by
  have hbefore : (o.after before).before d' = (o.after before).before d := by
    rw [OpenRun.before, OpenRun.before, hk]
  have h' : (o.after before).Repeats d' := by
    rw [OpenRun.Repeats, hbefore, hn]
    exact h
  have hnext : (o.after before).next d' = (o.after before).next d := by
    rw [OpenRun.next, OpenRun.next, hbefore, hk, hn]
  rw [trimDecs_append, trimDecs_append, trimDecs, trimDecs, if_pos h, if_pos h', hnext, Dec.stub_eq hk hn]

end

/-! ## The dropped declarations of a run -/

/-- The declarations that are dropped themselves, given the run before them. -/
def repeatedDecs (o : OpenRun) : List Dec → List Dec
  | [] => []
  | d :: ds => if o.Repeats d then d :: repeatedDecs (o.next d) ds else repeatedDecs (o.next d) ds

/-- The outermost dropped declarations inside those that are not dropped, given the run before them. -/
def heldDecs (o : OpenRun) : List Dec → List Dec
  | [] => []
  | d :: ds => if o.Repeats d then heldDecs (o.next d) ds else d.dropped ++ heldDecs (o.next d) ds

section

variable {k : Dec.Kind} {seen : List String} {d : Dec} {ds : List Dec}

theorem repeatedDecs_of_mem (h : d.kind = k) (hd : d.name.name ∈ seen) :
    repeatedDecs ⟨some k, seen⟩ (d :: ds) = d :: repeatedDecs ⟨some k, seen⟩ ds := by
  rw [repeatedDecs, if_pos ((OpenRun.repeats_iff h).mpr hd), OpenRun.next_of_mem h hd]

theorem repeatedDecs_of_not_mem (h : d.kind = k) (hd : d.name.name ∉ seen) :
    repeatedDecs ⟨some k, seen⟩ (d :: ds) = repeatedDecs ⟨some k, d.name.name :: seen⟩ ds := by
  rw [repeatedDecs, if_neg (mt (OpenRun.repeats_iff h).mp hd), OpenRun.next_of_not_mem h hd]

theorem heldDecs_of_mem (h : d.kind = k) (hd : d.name.name ∈ seen) :
    heldDecs ⟨some k, seen⟩ (d :: ds) = heldDecs ⟨some k, seen⟩ ds := by
  rw [heldDecs, if_pos ((OpenRun.repeats_iff h).mpr hd), OpenRun.next_of_mem h hd]

theorem heldDecs_of_not_mem (h : d.kind = k) (hd : d.name.name ∉ seen) :
    heldDecs ⟨some k, seen⟩ (d :: ds) = d.dropped ++ heldDecs ⟨some k, d.name.name :: seen⟩ ds := by
  rw [heldDecs, if_neg (mt (OpenRun.repeats_iff h).mp hd), OpenRun.next_of_not_mem h hd]

end

theorem perm_droppedDecs (o : OpenRun) (ds : List Dec) :
    (repeatedDecs o ds ++ heldDecs o ds).Perm (droppedDecs o ds) := by
  induction ds generalizing o with
  | nil => rfl
  | cons d ds ih =>
    rw [repeatedDecs, heldDecs, droppedDecs]
    split
    · exact (ih _).cons d
    · refine List.Perm.trans ?_ ((ih _).append_left d.dropped)
      exact (List.perm_append_comm_assoc _ _ _)

end TigerCheck
