import Mathlib.Data.List.Nodup
import Mathlib.Data.List.TakeWhile
import Mathlib.Logic.Relation
import TigerCheck.Checker.TypeName
import TigerCheck.Proofs.TypeName.Resolves

/-!
# The order in which declarations are settled

Which declarations of a run are met before they are settled depends on the run alone: a declaration is
settled as soon as the names of its right-hand side were visited, from left to right, where those that
are being visited already are passed over.

* `visit`, `visitAll`, `finishOrder`: the order, as a depth-first visit.
* `Before`: one name stands before another in an order.
* `SynonymOf`, `Fails`: the synonyms of a run, and how a failure spreads from one declaration to another.
* **`Fails.of_append`**: a failure that spreads along an order depends on the part before it.
-/

namespace TigerCheck

/-- The names of a run. -/
def names (run : List TypeDec) : List String := run.map (·.name.name)

/-- Visit a name, given the names that are being visited and those that are finished. A name of the run
that is neither is finished after the names of its right-hand side. -/
def visit (run : List TypeDec) : ℕ → List String → List String → String → List String
  | 0, _, done, _ => done
  | steps + 1, chain, done, name =>
    if name ∈ done ∨ name ∈ chain then done
    else
      match run.find? (·.name.name = name) with
      | none => done
      | some d =>
        d.body.mentions.foldl (fun done m => visit run steps (chain ++ [name]) done m.name) done ++
          [name]

/-- Visit one name after another. -/
def visitAll (run : List TypeDec) (steps : ℕ) (chain done : List String) (ms : List Ident) :
    List String :=
  ms.foldl (fun done m => visit run steps chain done m.name) done

/-- The names of a run in the order in which its declarations are settled. -/
def finishOrder (run : List TypeDec) : List String :=
  visitAll run (run.length + 1) [] [] (run.map (·.name))

/-- One name stands before another in an order. -/
def Before (order : List String) (m n : String) : Prop :=
  n ∈ order ∧ m ∈ order.takeWhile (· ≠ n)

instance (order : List String) (m n : String) : Decidable (Before order m n) :=
  inferInstanceAs (Decidable (_ ∧ _))

/-- One name of a run is declared as a synonym of another. -/
def SynonymOf (run : List TypeDec) (n m : String) : Prop :=
  ∃ d ∈ run, d.name.name = n ∧ ∃ target, d.body = .synonym target ∧ target.name = m

/-- A declaration of a run fails: it mentions a name that is not of the run and stands for no type, or it
lies on a circle of synonyms, or it mentions a declaration that fails. The failure of a declaration
spreads only where `via` says so; `outer` are the types of the names from before the run. -/
inductive Fails (outer : String → Option Ty) (run : List TypeDec) (via : String → String → Prop) :
    String → Prop where
  | missing {d : TypeDec} {m : Ident} : d ∈ run → m ∈ d.body.mentions → m.name ∉ names run →
      outer m.name = none → Fails outer run via d.name.name
  | loop {n : String} : Relation.TransGen (SynonymOf run) n n → Fails outer run via n
  | mention {d : TypeDec} {m : Ident} : d ∈ run → m ∈ d.body.mentions → via m.name d.name.name →
      Fails outer run via m.name → Fails outer run via d.name.name

variable {outer : String → Option Ty} {run : List TypeDec} {steps : ℕ}
  {chain done more order : List String} {m n name : String}

/-! ## Visits -/

theorem visit_of_mem (h : name ∈ done ∨ name ∈ chain) : visit run steps chain done name = done := by
  cases steps with
  | zero => rfl
  | succ steps => rw [visit, if_pos h]

theorem visit_of_not_mem (h : name ∉ names run) : visit run steps chain done name = done := by
  cases steps with
  | zero => rfl
  | succ steps =>
    have hfind : run.find? (·.name.name = name) = none := by
      refine List.find?_eq_none.mpr fun d hd heq => h ?_
      exact List.mem_map.mpr ⟨d, hd, by simpa using heq⟩
    rw [visit, hfind]
    split <;> rfl

/-- A name that is visited for the first time comes after the names of its right-hand side. -/
theorem visit_of_find {d : TypeDec} (hdone : name ∉ done) (hchain : name ∉ chain)
    (hfind : run.find? (·.name.name = name) = some d) :
    visit run (steps + 1) chain done name =
      visitAll run steps (chain ++ [name]) done d.body.mentions ++ [name] := by
  rw [visit, if_neg (not_or.mpr ⟨hdone, hchain⟩), hfind, visitAll]

theorem visitAll_cons (k : Ident) (ks : List Ident) :
    visitAll run steps chain done (k :: ks) =
      visitAll run steps chain (visit run steps chain done k.name) ks := rfl

/-! ## Orders -/

theorem Before.append (h : Before order m n) : Before (order ++ more) m n := by
  obtain ⟨hn, hm⟩ := h
  refine ⟨List.mem_append_left _ hn, ?_⟩
  rw [List.takeWhile_append]
  split
  · exact List.mem_append_left _ ((List.takeWhile_sublist _).subset hm)
  · exact hm

theorem Before.of_append (h : Before (order ++ more) m n) (hn : n ∈ order) : Before order m n := by
  refine ⟨hn, ?_⟩
  have hm := h.2
  rw [List.takeWhile_append, if_neg] at hm
  · exact hm
  · intro hlen
    have hall := List.takeWhile_eq_self_iff.mp
      ((List.takeWhile_sublist _).eq_of_length hlen) n hn
    simp at hall

theorem Before.mem (h : Before order m n) : m ∈ order := (List.takeWhile_sublist _).subset h.2

/-- What stands before a new name at the end of an order is in the order. -/
theorem before_concat_iff (hn : n ∉ order) : Before (order ++ [n]) m n ↔ m ∈ order := by
  have htake : (order ++ [n]).takeWhile (· ≠ n) = order := by
    rw [List.takeWhile_append_of_pos fun a ha => ?_]
    · simp
    · have hne : a ≠ n := fun h => hn (h ▸ ha)
      simpa using hne
  rw [Before, htake]
  exact and_iff_right (List.mem_append_right _ (List.mem_singleton_self n))

/-! ## Synonyms -/

/-- In a run with distinct names a declaration is found under its name. -/
theorem find_of_mem {d : TypeDec} (hnd : (names run).Nodup) (hd : d ∈ run) :
    run.find? (·.name.name = d.name.name) = some d := by
  cases hf : run.find? (·.name.name = d.name.name) with
  | none =>
    have := List.find?_eq_none.mp hf d hd
    simp at this
  | some e =>
    have he := List.find?_some hf
    have hmem := List.mem_of_find?_eq_some hf
    rw [List.inj_on_of_nodup_map hnd hmem hd (by simpa using he)]

theorem SynonymOf.mem_left (h : SynonymOf run n m) : n ∈ names run := by
  obtain ⟨d, hd, rfl, -⟩ := h
  exact List.mem_map_of_mem hd

/-- A name is a synonym of one name only. -/
theorem SynonymOf.unique {k : String} (hnd : (names run).Nodup) (h : SynonymOf run n m)
    (h' : SynonymOf run n k) : m = k := by
  obtain ⟨d, hd, rfl, target, hbody, rfl⟩ := h
  obtain ⟨e, he, hname, target', hbody', rfl⟩ := h'
  have heq := List.inj_on_of_nodup_map hnd he hd hname
  subst heq
  rw [hbody] at hbody'
  cases hbody'
  rfl

/-- A circle of synonyms can be entered one step further on. -/
theorem exists_next_of_loop (h : Relation.TransGen (SynonymOf run) n n) :
    ∃ m, SynonymOf run n m ∧ Relation.TransGen (SynonymOf run) m m := by
  obtain ⟨m, hnm, hmn⟩ := Relation.TransGen.head'_iff.mp h
  exact ⟨m, hnm, .tail' hmn hnm⟩

/-! ## Failures -/

theorem Fails.mono {via via' : String → String → Prop} (hvia : ∀ m n, via m n → via' m n)
    (h : Fails outer run via n) : Fails outer run via' n := by
  induction h with
  | missing hd hm hrun ho => exact .missing hd hm hrun ho
  | loop hl => exact .loop hl
  | mention hd hm hv _ ih => exact .mention hd hm (hvia _ _ hv) ih

/-- **Whether a name fails along an order depends on the part of the order up to the name.** -/
theorem Fails.of_append (h : Fails outer run (Before (done ++ more)) n) (hn : n ∈ done) :
    Fails outer run (Before done) n := by
  induction h with
  | missing hd hm hrun ho => exact .missing hd hm hrun ho
  | loop hl => exact .loop hl
  | mention hd hm hv _ ih =>
    have hv' := hv.of_append hn
    exact .mention hd hm hv' (ih hv'.mem)

theorem fails_append_iff (hn : n ∈ done) :
    Fails outer run (Before (done ++ more)) n ↔ Fails outer run (Before done) n :=
  ⟨fun h => h.of_append hn, fun h => h.mono fun _ _ hb => hb.append⟩

end TigerCheck
