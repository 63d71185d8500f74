import TigerCheck.Proofs.Walk.Program
import TigerCheck.Proofs.Walk.Traced

/-!
# Cells and tables

What the checker writes into the cells of a tree was read off its tables. Records and arrays are completed
after they have been handed out, and frames grow, but an entry that was read once is not touched again: at
the end every cell still agrees with the tables.

* `Note`: what the cells of a node say about the tables. `Note.Holds`: it is so.
* `Exp.notes`, `Var.notes`, `Dec.notes`: all that is noted in a tree.
* `Rule.holds_of_run_simple`, `Rule.holds_of_run_field`, …: a rule has read its answer off the tables.
* **`Traced.notes_hold`**: what is noted in a checked part holds.
-/

namespace TigerCheck

open Check

/-- What the cells of a node say about the tables. -/
inductive Note where
  /-- The type at a name, and the slot that it is bound to. -/
  | simple (ty : Option Ty) (binding : Option VarId)
  /-- The type of a field, its position, and the type of its record. -/
  | field (base : Option Ty) (name : String) (position : Option ℕ) (ty : Option Ty)
  /-- The type of an element, and that of its array. -/
  | element (base ty : Option Ty)
  /-- The type of a call, and the function that is called. -/
  | call (function : Option FunctionId) (ty : Option Ty)

/-- What is noted agrees with the tables. -/
def Note.Holds (a : Arena) (t : FrameTable) : Note → Prop
  | simple ty (some v) => ∃ s, t.vars[v.index]? = some s ∧ ty = s.ty
  | field base name (some i) ty => ∃ r e f, base = some (.record r) ∧ a.records[r.index]? = some e ∧
      e.fields[i]? = some f ∧ f.name = name ∧ (∀ j g, j < i → e.fields[j]? = some g → g.name ≠ name) ∧
      ty = some f.ty
  | element base (some u) => ∃ r e, base = some (.array r) ∧ a.arrays[r.index]? = some e ∧ e.element = some u
  | call function (some u) => ∃ id p s, function = some id ∧ t.functions[id.index]? = some p ∧
      p.signature = some s ∧ s.result = u
  | _ => True

mutual

/-- What is noted in an expression. -/
def Exp.notes : Exp → List Note
  | .nil _ | .int _ _ | .string _ _ | .breakLoop _ => []
  | .var _ v => v.notes
  | .call m _ args function => .call function m.ty :: notesAll args
  | .binary _ _ left right => left.notes ++ right.notes
  | .record _ _ inits => notesInits inits
  | .seq _ items => notesAll items
  | .assign _ target value => target.notes ++ value.notes
  | .cond _ test thenPart none => test.notes ++ thenPart.notes
  | .cond _ test thenPart (some elsePart) => test.notes ++ thenPart.notes ++ elsePart.notes
  | .whileLoop _ test body => test.notes ++ body.notes
  | .doWhile _ body test => body.notes ++ test.notes
  | .forLoop _ _ low high body _ => low.notes ++ high.notes ++ body.notes
  | .letIn _ decs body => notesDecs decs ++ body.notes
  | .array _ _ size init => size.notes ++ init.notes

/-- What is noted in a variable. -/
def Var.notes : Var → List Note
  | .simple m _ binding => [.simple m.ty binding]
  | .field m base name position => .field base.ty name.name position m.ty :: base.notes
  | .element m base index => .element base.ty m.ty :: (base.notes ++ index.notes)

/-- What is noted in a declaration. -/
def Dec.notes : Dec → List Note
  | .type _ => []
  | .function _ body _ _ => body.notes
  | .var _ _ init _ _ => init.notes

def notesAll : List Exp → List Note
  | [] => []
  | e :: es => e.notes ++ notesAll es

def notesInits : List (Ident × Exp) → List Note
  | [] => []
  | (_, e) :: inits => e.notes ++ notesInits inits

def notesDecs : List Dec → List Note
  | [] => []
  | d :: ds => d.notes ++ notesDecs ds

end

theorem notesDecs_append (ds es : List Dec) : notesDecs (ds ++ es) = notesDecs ds ++ notesDecs es := by
  induction ds with
  | nil => rfl
  | cons d ds ih => rw [List.cons_append, notesDecs, notesDecs, ih, List.append_assoc]

theorem notesDecs_types (ts : List TypeDec) : notesDecs (ts.map .type) = [] := by
  induction ts with
  | nil => rfl
  | cons t ts ih => exact ih

/-! ## Empty cells -/

/-- Everything that is noted holds. -/
def AllHold (a : Arena) (t : FrameTable) (ns : List Note) : Prop := ∀ n ∈ ns, n.Holds a t

section

variable {a : Arena} {t : FrameTable} {ns ks : List Note}

theorem AllHold.nil : AllHold a t [] := List.forall_mem_nil _

theorem AllHold.cons {n : Note} (h : n.Holds a t) (hs : AllHold a t ns) : AllHold a t (n :: ns) :=
  List.forall_mem_cons.mpr ⟨h, hs⟩

theorem AllHold.append (h : AllHold a t ns) (h' : AllHold a t ks) : AllHold a t (ns ++ ks) :=
  List.forall_mem_append.mpr ⟨h, h'⟩

theorem allHold_blankAll {es : List Exp} (h : ∀ e ∈ es, AllHold a t e.blank.notes) :
    AllHold a t (notesAll (blankAll es)) := by
  induction es with
  | nil => exact .nil
  | cons e es ih =>
    obtain ⟨he, hes⟩ := List.forall_mem_cons.mp h
    exact he.append (ih hes)

theorem allHold_blankInits {inits : List (Ident × Exp)} (h : ∀ i ∈ inits, AllHold a t i.2.blank.notes) :
    AllHold a t (notesInits (blankInits inits)) := by
  induction inits with
  | nil => exact .nil
  | cons i inits ih =>
    obtain ⟨hi, his⟩ := List.forall_mem_cons.mp h
    exact AllHold.append hi (ih his)

theorem allHold_blankDecs {ds : List Dec} (h : ∀ d ∈ ds, AllHold a t d.blank.notes) :
    AllHold a t (notesDecs (blankDecs ds)) := by
  induction ds with
  | nil => exact .nil
  | cons d ds ih =>
    obtain ⟨hd, hds⟩ := List.forall_mem_cons.mp h
    exact hd.append (ih hds)

/-- Empty cells say nothing. -/
theorem allHold_blank (a : Arena) (t : FrameTable) : Tree.Cases (fun e => AllHold a t e.blank.notes)
    (fun v => AllHold a t v.blank.notes) (fun d => AllHold a t d.blank.notes) where
  var _ _ hv := hv
  nil _ := .nil
  int _ _ := .nil
  string _ _ := .nil
  call _ _ _ _ ha := .cons trivial (allHold_blankAll ha)
  binary _ _ _ _ hl hr := hl.append hr
  record _ _ _ hi := allHold_blankInits hi
  seq _ _ hi := allHold_blankAll hi
  assign _ _ _ ht hv := ht.append hv
  condNone _ _ _ ht hp := ht.append hp
  condSome _ _ _ _ ht hp he := (ht.append hp).append he
  whileLoop _ _ _ ht hb := ht.append hb
  doWhile _ _ _ hb ht := hb.append ht
  forLoop _ _ _ _ _ _ hl hh hb := (hl.append hh).append hb
  breakLoop _ := .nil
  letIn _ _ _ hd hb := (allHold_blankDecs hd).append hb
  array _ _ _ _ hz hi := hz.append hi
  simple _ _ _ := .cons trivial .nil
  field _ _ _ _ hb := .cons trivial hb
  element _ _ _ hb hi := .cons trivial (hb.append hi)
  type _ := .nil
  function _ _ _ _ hb := hb
  varDec _ _ _ _ _ hi := hi

end

/-! ## Growing tables -/

namespace Checker

variable {c c' : Checker}

theorem Extends.record (h : c.Extends c') {i : ℕ} {e : RecordEntry} (he : c.types.records[i]? = some e) :
    c'.types.records[i]? = some e := by
  have hs := h.shape (.record ⟨i⟩) (.record e) (by simp [he])
  simpa using hs

theorem Extends.array (h : c.Extends c') {i : ℕ} {e : ArrayEntry} (he : c.types.arrays[i]? = some e) :
    c'.types.arrays[i]? = some e := by
  have hs := h.shape (.array ⟨i⟩) (.array e) (by simp [he])
  simpa using hs

end Checker

/-- What agrees with the tables does so for good. -/
theorem Note.Holds.extends {c c' : Checker} (hg : c.Extends c') {n : Note} (h : n.Holds c.types c.frames) :
    n.Holds c'.types c'.frames := by
  cases n with
  | simple ty binding =>
    cases binding with
    | none => trivial
    | some v =>
      obtain ⟨s, hs, hty⟩ := h
      exact ⟨s, hg.frames.slot v s hs, hty⟩
  | field base name position ty =>
    cases position with
    | none => trivial
    | some i =>
      obtain ⟨r, e, f, hb, he, hf⟩ := h
      exact ⟨r, e, f, hb, hg.record he, hf⟩
  | element base ty =>
    cases ty with
    | none => trivial
    | some u =>
      obtain ⟨r, e, hb, he, hu⟩ := h
      exact ⟨r, e, hb, hg.array he, hu⟩
  | call function ty =>
    cases ty with
    | none => trivial
    | some u =>
      obtain ⟨id, p, s, hf, hp, hs⟩ := h
      exact ⟨id, p, s, hf, hg.frames.function id p hp, hs⟩

theorem AllHold.extends {c c' : Checker} (hg : c.Extends c') {ns : List Note}
    (h : AllHold c.types c.frames ns) : AllHold c'.types c'.frames ns := fun n hn => (h n hn).extends hg

/-! ## Where rules read -/

namespace Rule

variable {c c' : Checker} {loc : Location}

/-- The type of a bound name was read off its slot. -/
theorem holds_of_run_simple {name : String} {r : Option VarId × Option Ty}
    (h : (simple loc name).run c = .ok (r, c')) : (Note.simple r.2 r.1).Holds c'.types c'.frames := by
  have hend := yields_of_run h
  unfold simple at hend
  rw [yields_bind, yields_get] at hend
  cases hl : c.values.lookup name with
  | none =>
    rw [hl] at hend
    dsimp only at hend
    rw [yields_bind, yields_fail, yields_pure] at hend
    obtain ⟨rfl, rfl⟩ := hend
    trivial
  | some v =>
    rw [hl] at hend
    simp only [yields_bind, yields_get, yields_lift, FrameTable.var, entry_eq_ok_iff, yields_pure] at hend
    obtain ⟨s, hs, rfl, rfl⟩ := hend
    exact ⟨s, hs, rfl⟩

/-- The type of a field was read off the record of its base, and so was its position. -/
theorem holds_of_run_field {base : Mark} {name : Ident} {r : Option ℕ × Option Ty}
    (h : (field loc base name).run c = .ok (r, c')) :
    (Note.field base.ty name.name r.1 r.2).Holds c'.types c'.frames := by
  have hend := yields_of_run h
  unfold field at hend
  cases hb : base.ty with
  | none =>
    rw [hb, yields_pure] at hend
    obtain ⟨rfl, rfl⟩ := hend
    trivial
  | some t =>
    simp only [hb, yields_bind, yields_get, yields_lift] at hend
    obtain ⟨e?, he?, hend⟩ := hend
    cases e? with
    | none =>
      dsimp only at hend
      rw [yields_bind, yields_fail, yields_pure] at hend
      obtain ⟨rfl, rfl⟩ := hend
      trivial
    | some e =>
      dsimp only at hend
      cases hi : e.fieldIndex name.name with
      | none =>
        rw [hi] at hend
        dsimp only at hend
        rw [yields_bind, yields_fail, yields_pure] at hend
        obtain ⟨rfl, rfl⟩ := hend
        trivial
      | some i =>
        obtain ⟨id, rfl, he⟩ := Arena.exists_of_asRecord he?
        obtain ⟨f, hf, hfind⟩ := getElem?_fieldIndex hi
        obtain ⟨hlt, hp, hmin⟩ := List.findIdx?_eq_some_iff_getElem.mp hi
        simp only [hi, hf, yields_pure] at hend
        obtain ⟨rfl, rfl⟩ := hend
        refine ⟨id, e, f, rfl, he, hf, ?_, fun j g hj hg => ?_, rfl⟩
        · simpa using List.find?_some hfind
        · obtain ⟨hjlt, rfl⟩ := List.getElem?_eq_some_iff.mp hg
          simpa using hmin j hj

/-- The type of an element was read off the array of its base. -/
theorem holds_of_run_element {base index : Mark} {ty : Option Ty}
    (h : (element base index).run c = .ok (ty, c')) : (Note.element base.ty ty).Holds c'.types c'.frames := by
  cases ty with
  | none => trivial
  | some u =>
    have hend := yields_of_run h
    unfold element at hend
    split at hend
    · exact absurd (yields_pure.mp hend).1 nofun
    · next t hb =>
      by_cases harr : t.isArray = true
      · rw [if_pos harr] at hend
        split at hend
        · exact absurd (yields_pure.mp hend).1 nofun
        · next i hi =>
          by_cases hint : i.isInt = true
          · simp only [if_pos hint, yields_bind, yields_get, yields_lift] at hend
            obtain ⟨_, hu, rfl, rfl⟩ := hend
            obtain ⟨id, e, rfl, he⟩ := Arena.exists_of_elementOf hu
            exact ⟨id, e, hb, he⟩
          · rw [if_neg hint, yields_fail] at hend
            exact absurd hend.1 nofun
      · rw [if_neg harr, yields_fail] at hend
        exact absurd hend.1 nofun

/-- The function of a call was found under its name. -/
theorem exists_of_run_target {name : String} {id : FunctionId} {s : Signature}
    (h : (target? name).run c = .ok (some ⟨id, some s⟩, c')) :
    ∃ p sig, c.frames.functions[id.index]? = some p ∧ p.signature = some sig ∧ s.result = sig.result := by
  have hend := yields_of_run h
  unfold target? at hend
  rw [yields_bind, yields_get] at hend
  cases hl : c.functions.lookup name with
  | none =>
    rw [hl] at hend
    exact absurd (yields_pure.mp hend).1 nofun
  | some f =>
    simp only [hl, yields_bind, yields_get, yields_lift, FrameTable.function, entry_eq_ok_iff, yields_pure] at hend
    obtain ⟨p, hp, sig?, hvis, heq, -⟩ := hend
    cases heq
    unfold visible at hvis
    cases hsig : p.signature with
    | none =>
      rw [hsig] at hvis
      cases hvis
    | some sig =>
      simp only [hsig] at hvis
      split at hvis
      · cases hvis
        exact ⟨p, sig, hp, hsig, rfl⟩
      · cases hvis

/-- The type of a call was read off the signature of the function. -/
theorem holds_of_run_call {callee : Ident} {target : Option Target} {c₁ c₂ : Checker} {args : ℕ} {fit : Bool}
    {ty : Option Ty} {function : Option FunctionId} (ht : (target? callee.name).run c = .ok (target, c₁))
    (h : (call loc callee target args fit).run c₂ = .ok (ty, c')) (hg : c.Extends c') :
    (Note.call (target.map (·.id) <|> function) ty).Holds c'.types c'.frames := by
  cases ty with
  | none => trivial
  | some u =>
    have hend := yields_of_run h
    unfold call at hend
    split at hend
    · rw [yields_fail] at hend
      exact absurd hend.1 nofun
    · exact absurd (yields_pure.mp hend).1 nofun
    · next id s =>
      split at hend
      · cases fit with
        | false => exact absurd (yields_pure.mp hend).1 nofun
        | true =>
          obtain ⟨p, sig, hp, hsig, hresult⟩ := exists_of_run_target ht
          obtain ⟨heq, -⟩ := yields_pure.mp hend
          exact ⟨id, p, sig, rfl, hg.frames.function id p hp, hsig, hresult.symm.trans (Option.some.inj heq)⟩
      · rw [yields_fail] at hend
        exact absurd hend.1 nofun

end Rule

/-! ## The course of a check -/

/-- The cells of a part are empty before its check. -/
def Part.Blank : Part → Prop
  | .exp e _ => e.blank = e
  | .var v _ => v.blank = v
  | .items es _ => blankAll es = es
  | .inits is _ => blankInits is = is
  | .decs _ ds _ => blankDecs ds = ds

/-- What is noted in a part by its check. -/
def Part.notes : Part → List Note
  | .exp _ e' => e'.notes
  | .var _ v' => v'.notes
  | .items _ es' => notesAll es'
  | .inits _ is' => notesInits is'
  | .decs _ _ ds' => notesDecs ds'

/-- **What is noted in a checked part holds**, whatever is wrong there. -/
theorem Traced.notes_hold {ctx : Context} {part : Part} {c c' : Checker} (h : Traced ctx part c c') :
    part.Blank → AllHold c'.types c'.frames part.notes := by
  induction h with
  | nil | int | string | jump | stray | noItem | noInit | noDec => exact fun _ => .nil
  | var _ ih => exact fun hb => ih (Exp.var.inj hb).2
  | seq _ ih => exact fun hb => ih (Exp.seq.inj hb).2
  | call htarget hargs hrule ih =>
    intro hb
    have hg := Check.Passive.extends (passive_call (F := anyFault) (fun _ _ => trivial) _ fun _ => trivial) hrule
    exact .cons (Rule.holds_of_run_call htarget hrule (hargs.grown.trans hg))
      ((ih (Exp.call.inj hb).2.2.1).extends hg)
  | binary _ hr hrule ihl ihr =>
    intro hb
    obtain ⟨-, -, hbl, hbr⟩ := Exp.binary.inj hb
    exact (((ihl hbl).extends hr.grown).append (ihr hbr)).extends ((passive_binary _ _).extends hrule)
  | record _ _ _ _ ih => exact fun hb => ih (Exp.record.inj hb).2.2
  | assign _ hv hrule iht ihv =>
    intro hb
    obtain ⟨-, hbt, hbv⟩ := Exp.assign.inj hb
    exact (((iht hbt).extends hv.grown).append (ihv hbv)).extends ((passive_assign _ _).extends hrule)
  | condNone _ hp hrule iht ihp =>
    intro hb
    obtain ⟨-, hbt, hbp, -⟩ := Exp.cond.inj hb
    exact (((iht hbt).extends hp.grown).append (ihp hbp)).extends ((passive_cond _ _ _).extends hrule)
  | condSome _ hp he hrule iht ihp ihe =>
    intro hb
    obtain ⟨-, hbt, hbp, hbe⟩ := Exp.cond.inj hb
    have hbranches := (((iht hbt).extends hp.grown).append (ihp hbp)).extends he.grown
    exact (hbranches.append (ihe (Option.some.inj hbe))).extends ((passive_cond _ _ _).extends hrule)
  | whileLoop _ hbody hrule iht ihb =>
    intro hb
    obtain ⟨-, hbt, hbb⟩ := Exp.whileLoop.inj hb
    exact (((iht hbt).extends hbody.grown).append (ihb hbb)).extends ((passive_loop _ _).extends hrule)
  | doWhile _ ht hrule ihb iht =>
    intro hb
    obtain ⟨-, hbb, hbt⟩ := Exp.doWhile.inj hb
    exact (((ihb hbb).extends ht.grown).append (iht hbt)).extends ((passive_loop _ _).extends hrule)
  | forLoop _ hh hbounds _ hcounter hbody ihl ihh ihb =>
    intro hb
    obtain ⟨-, -, hbl, hbh, hbb, -⟩ := Exp.forLoop.inj hb
    have hg := (((passive_bounds _ _).extends hbounds).trans hcounter).trans hbody.grown
    exact ((((ihl hbl).extends hh.grown).append (ihh hbh)).extends hg).append (ihb hbb)
  | letIn _ hbody ihd ihb =>
    intro hb
    obtain ⟨-, hbd, hbb⟩ := Exp.letIn.inj hb
    exact ((ihd hbd).extends hbody.grown).append (ihb hbb)
  | array _ _ _ hi hrule ihz ihi =>
    intro hb
    obtain ⟨-, -, hbz, hbi⟩ := Exp.array.inj hb
    exact (((ihz hbz).extends hi.grown).append (ihi hbi)).extends ((passive_array _ _ _).extends hrule)
  | @simple _ _ _ _ _ _ r hrule =>
    intro hb
    obtain ⟨-, -, hbinding⟩ := Var.simple.inj hb
    refine .cons ?_ .nil
    have hkept : (r.1 <|> none) = r.1 := orElse_failure _
    rw [← hbinding, hkept]
    exact Rule.holds_of_run_simple hrule
  | @field _ _ _ _ _ _ _ _ _ r _ hrule ih =>
    intro hb
    obtain ⟨-, hbase, -, hposition⟩ := Var.field.inj hb
    refine .cons ?_ ((ih hbase).extends ((passive_field _).extends hrule))
    have hkept : (r.1 <|> none) = r.1 := orElse_failure _
    rw [← hposition, hkept]
    exact Rule.holds_of_run_field hrule
  | element _ hi hrule ihb ihi =>
    intro hb
    obtain ⟨-, hbase, hindex⟩ := Var.element.inj hb
    exact .cons (Rule.holds_of_run_element hrule)
      ((((ihb hbase).extends hi.grown).append (ihi hindex)).extends ((passive_element _ _).extends hrule))
  | item _ harg hs ih ihs =>
    intro hb
    obtain ⟨hbe, hbs⟩ := List.cons.inj hb
    exact ((ih hbe).extends (((passive_arg _ _).extends harg).trans hs.grown)).append (ihs hbs)
  | init _ _ hinit hs ih ihs =>
    intro hb
    obtain ⟨hbi, hbs⟩ := List.cons.inj hb
    exact ((ih (Prod.mk.inj hbi).2).extends (((passive_init _ _).extends hinit).trans hs.grown)).append (ihs hbs)
  | @types _ _ _ _ _ ts _ _ _ _ _ _ ih =>
    intro hb
    rw [Part.Blank, blankDecs_append] at hb
    have hlen : (blankDecs (ts.map .type)).length = (ts.map Dec.type).length := by
      rw [blankDecs_eq_map, List.length_map]
    rw [Part.notes, notesDecs_append, notesDecs_types]
    exact ih (List.append_inj hb hlen).2
  | opened _ _ _ _ _ ih => exact ih
  | dropped _ _ _ _ ih =>
    intro hb
    obtain ⟨hbd, hbs⟩ := List.cons.inj hb
    refine AllHold.append ?_ (ih hbs)
    rw [← hbd]
    exact (allHold_blank _ _).all.2.2 _
  | function _ _ _ hg hbody hs ih ihs =>
    intro hb
    obtain ⟨hbd, hbs⟩ := List.cons.inj hb
    have hg' := (hg.trans ((passive_body _ _).extends hbody)).trans hs.grown
    exact ((ih (Dec.function.inj hbd).2.1).extends hg').append (ihs hbs)
  | «variable» _ _ _ _ hg hs ih ihs =>
    intro hb
    obtain ⟨hbd, hbs⟩ := List.cons.inj hb
    exact ((ih (Dec.var.inj hbd).2.2.1).extends (hg.trans hs.grown)).append (ihs hbs)

end TigerCheck
