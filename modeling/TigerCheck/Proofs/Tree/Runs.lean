import Mathlib.Data.List.SplitBy
import TigerCheck.Tree.Build
import TigerCheck.Tree.Run

/-!
# Groups of declarations

A run together with the kind of its declarations is a group. The groups of a list are pinned down by
what is asked of them: put together they are the list, each holds something and is of one kind, and
neighbours are of different kinds. Whoever finds groups of that sort has found these.

One way to find them is a scan that moves two bounds along the list: one stands where the open group
starts, the other runs ahead, and a group is closed where the kind changes or the list ends.

* `Dec.groups`: the runs of a list, each with its kind.
* `Dec.Split`: what is asked of a list of groups.
* `Dec.scan`: the scan with two bounds. `Dec.Scanned` is what holds of it after each of its turns.
* **`Dec.scan_eq_and_split_iff`**: the scan finds the groups, and no other list of groups will do.
-/

namespace TigerCheck

namespace Dec

/-- A stretch of declarations, with the kind it goes by. -/
structure Group where
  kind : Kind
  decs : List Dec

/-- A run goes by the kind of its first declaration. -/
def Group.ofRun : List Dec → Option Group
  | [] => none
  | d :: ds => some ⟨d.kind, d :: ds⟩

/-- The groups of a list of declarations. -/
def groups (ds : List Dec) : List Group := (runs ds).filterMap Group.ofRun

/-- A list of groups splits a list of declarations where its kinds change, and only there. -/
structure Split (ds : List Dec) (gs : List Group) : Prop where
  flatten : (gs.map Group.decs).flatten = ds
  ne_nil : ∀ g ∈ gs, g.decs ≠ []
  ofKind : ∀ g ∈ gs, ∀ d ∈ g.decs, d.kind = g.kind
  neighbours : gs.IsChain fun g h => g.kind ≠ h.kind

/-! ## The groups of a list -/

/-- Declarations of one kind agree with their neighbours. -/
theorem isChain_of_kind_eq {k : Kind} {ds : List Dec} (h : ∀ d ∈ ds, d.kind = k) :
    ds.IsChain fun e f => sameKind e f = true := by
  refine List.Pairwise.isChain (List.pairwise_of_forall_mem_list fun d hd e he => ?_)
  rw [sameKind_iff, h d hd, h e he]

theorem Group.ofRun_eq_some {run : List Dec} {g : Group} :
    Group.ofRun run = some g ↔ g.decs = run ∧ ∃ d ∈ run.head?, g.kind = d.kind := by
  obtain ⟨k, ds⟩ := g
  cases run with
  | nil => simp [Group.ofRun]
  | cons d run => simp [Group.ofRun, eq_comm, and_comm]

/-- A group of one kind that is not empty is read off its declarations. -/
theorem Group.ofRun_decs {g : Group} (hne : g.decs ≠ []) (hkind : ∀ d ∈ g.decs, d.kind = g.kind) :
    Group.ofRun g.decs = some g := by
  refine Group.ofRun_eq_some.mpr ⟨rfl, g.decs.head hne, List.head_mem_head? hne, ?_⟩
  exact (hkind _ (List.head_mem hne)).symm

theorem Split.filterMap_ofRun {ds : List Dec} {gs : List Group} (h : Split ds gs) :
    (gs.map Group.decs).filterMap Group.ofRun = gs := by
  rw [List.filterMap_map]
  refine (List.filterMap_congr fun g hg => ?_).trans List.filterMap_some
  exact Group.ofRun_decs (h.ne_nil g hg) (h.ofKind g hg)

/-- Groups that split a list are its runs. -/
theorem Split.runs_eq {ds : List Dec} {gs : List Group} (h : Split ds gs) :
    runs ds = gs.map Group.decs := by
  refine List.splitBy_eq_iff.mpr ⟨h.flatten.symm, ?_, ?_, ?_⟩
  · intro hnil
    obtain ⟨g, hg, hgnil⟩ := List.mem_map.mp hnil
    exact h.ne_nil g hg hgnil
  · intro run hrun
    obtain ⟨g, hg, rfl⟩ := List.mem_map.mp hrun
    exact isChain_of_kind_eq (h.ofKind g hg)
  · rw [List.isChain_map]
    refine h.neighbours.imp_of_mem_imp fun g g' hg hg' hne => ?_
    have hg₀ := h.ne_nil g hg
    have hg₁ := h.ne_nil g' hg'
    refine ⟨hg₀, hg₁, Bool.eq_false_iff.mpr fun hsame => hne ?_⟩
    rw [← h.ofKind g hg _ (List.getLast_mem hg₀), ← h.ofKind g' hg' _ (List.head_mem hg₁)]
    exact sameKind_iff.mp hsame

/-- There is only one way to split a list. -/
theorem Split.eq_groups {ds : List Dec} {gs : List Group} (h : Split ds gs) : gs = groups ds := by
  rw [groups, h.runs_eq, h.filterMap_ofRun]

/-! ## The scan -/

/-- One turn of the scan: the groups that are closed, where the open one starts, and the other bound. The
open group is closed at the end of the list and where the kind is no longer that of its start. -/
def scanStep (ds : List Dec) : List Group × Nat → Nat → List Group × Nat
  | (closed, start), stop =>
    match ds[start]? with
    | none => (closed, start)
    | some d =>
      if stop = ds.length ∨ ds[stop]?.map kind ≠ some d.kind then
        (closed ++ [⟨d.kind, ds.extract start stop⟩], stop)
      else (closed, start)

/-- The groups that the scan closes while its second bound goes from the first place to the end. -/
def scan (ds : List Dec) : List Group := ((List.range' 1 ds.length).foldl (scanStep ds) ([], 0)).1

/-- What holds when the second bound of the scan has come to `stop`: the closed groups split what is
before `start`, all from there up to the second bound is of one kind, and that is not the kind of the last
group. The end of the list is never left open. -/
structure Scanned (ds : List Dec) (stop : Nat) (closed : List Group) (start : Nat) : Prop where
  split : Split (ds.take start) closed
  start_le : start ≤ stop
  ofKind : ∀ i, start ≤ i → i ≤ stop → i < ds.length → ds[i]?.map kind = ds[start]?.map kind
  boundary : ∀ g ∈ closed.getLast?, ds[start]?.map kind ≠ some g.kind
  ended : stop = ds.length → start = ds.length

theorem Split.nil : Split [] [] where
  flatten := rfl
  ne_nil := by simp
  ofKind := by simp
  neighbours := .nil

/-- A group of another kind may follow. -/
theorem Split.concat {ds run : List Dec} {gs : List Group} {k : Kind} (h : Split ds gs) (hne : run ≠ [])
    (hkind : ∀ d ∈ run, d.kind = k) (hlast : ∀ g ∈ gs.getLast?, g.kind ≠ k) :
    Split (ds ++ run) (gs ++ [⟨k, run⟩]) where
  flatten := by simp [h.flatten]
  ne_nil g hg := by
    rcases List.mem_append.mp hg with hg | hg
    · exact h.ne_nil g hg
    · rwa [List.mem_singleton.mp hg]
  ofKind g hg := by
    rcases List.mem_append.mp hg with hg | hg
    · exact h.ofKind g hg
    · rwa [List.mem_singleton.mp hg]
  neighbours := List.isChain_append.mpr ⟨h.neighbours, .singleton _, by simpa using hlast⟩

theorem scanned_start (ds : List Dec) : Scanned ds 0 [] 0 where
  split := by simpa using Split.nil
  start_le := Nat.le_refl 0
  ofKind i _ hi _ := by rw [Nat.le_zero.mp hi]
  boundary := by simp
  ended h := h

/-- The declarations of the open group are of the kind of its start. -/
theorem Scanned.kind_eq {ds : List Dec} {n start : Nat} {closed : List Group} {d : Dec}
    (h : Scanned ds n closed start) (hd : ds[start]? = some d) :
    ∀ e ∈ ds.extract start (n + 1), e.kind = d.kind := by
  intro e he
  obtain ⟨i, hi⟩ := List.mem_iff_getElem?.mp he
  obtain ⟨hlt, hi⟩ : i < n + 1 - start ∧ ds[start + i]? = some e := by
    simpa [List.extract_eq_take_drop, List.getElem?_take] using hi
  have hkind := h.ofKind (start + i) (by omega) (by omega) (List.getElem?_eq_some_iff.mp hi).1
  simpa [hi, hd] using hkind

/-- A turn of the scan keeps what holds of it. -/
theorem Scanned.step {ds : List Dec} {n start : Nat} {closed : List Group} (h : Scanned ds n closed start)
    (hn : n < ds.length) :
    Scanned ds (n + 1) (scanStep ds (closed, start) (n + 1)).1
      (scanStep ds (closed, start) (n + 1)).2 := by
  have hle := h.start_le
  obtain ⟨d, hd⟩ : ∃ d, ds[start]? = some d := ⟨_, List.getElem?_eq_getElem (by omega)⟩
  simp only [scanStep, hd]
  split
  case isTrue hclose =>
    have htake : ds.take (n + 1) = ds.take start ++ ds.extract start (n + 1) := by
      rw [List.extract_eq_take_drop, ← List.take_add, Nat.add_sub_cancel' (by omega)]
    have hne : ds.extract start (n + 1) ≠ [] := by
      refine List.ne_nil_of_length_pos ?_
      simp only [List.extract_eq_take_drop, List.length_take, List.length_drop]
      omega
    have hlast : ∀ g ∈ closed.getLast?, g.kind ≠ d.kind := by
      intro g hg heq
      exact h.boundary g hg (by simp [hd, heq])
    have hchange : ds[n + 1]?.map kind ≠ some d.kind := by
      rcases hclose with hend | hchange
      · simp [List.getElem?_eq_none (Nat.le_of_eq hend.symm)]
      · exact hchange
    have hsplit : Split (ds.take (n + 1)) (closed ++ [⟨d.kind, ds.extract start (n + 1)⟩]) := by
      rw [htake]
      exact h.split.concat hne (h.kind_eq hd) hlast
    exact
      { split := hsplit
        start_le := Nat.le_refl _
        ofKind := fun i hi hi' _ => by rw [Nat.le_antisymm hi' hi]
        boundary := by simpa using hchange
        ended := id }
  case isFalse hopen =>
    obtain ⟨hinside, hkind⟩ : n + 1 ≠ ds.length ∧ ds[n + 1]?.map kind = some d.kind := by
      simpa [not_or] using hopen
    exact
      { split := h.split
        start_le := by omega
        ofKind := fun i hi hi' hlt => by
          rcases Nat.le_succ_iff.mp hi' with hi' | rfl
          · exact h.ofKind i hi hi' hlt
          · rw [hkind, hd, Option.map_some]
        boundary := h.boundary
        ended := fun hend => absurd hend hinside }

/-- The scan splits the list. -/
theorem scan_split (ds : List Dec) : Split ds (scan ds) := by
  have hrun : ∀ n ≤ ds.length, Scanned ds n ((List.range' 1 n).foldl (scanStep ds) ([], 0)).1
      ((List.range' 1 n).foldl (scanStep ds) ([], 0)).2 := by
    intro n
    induction n with
    | zero => exact fun _ => scanned_start ds
    | succ n ih =>
      intro hn
      rw [List.range'_concat, List.foldl_append]
      simpa [Nat.add_comm 1 n] using (ih (by omega)).step hn
  have hend := hrun ds.length le_rfl
  have hsplit := hend.split
  rwa [hend.ended rfl, List.take_length] at hsplit

/-- The scan finds the runs, each under the kind of its declarations; and of all lists of groups, theirs
is the only one that is split where the kind changes. -/
theorem scan_eq_and_split_iff (ds : List Dec) :
    scan ds = groups ds ∧ (groups ds).map Group.decs = runs ds ∧
      ∀ gs : List Group, Split ds gs ↔ gs = groups ds := by
  have hscan : scan ds = groups ds := (scan_split ds).eq_groups
  have hsplit : Split ds (groups ds) := hscan ▸ scan_split ds
  refine ⟨hscan, hsplit.runs_eq.symm, fun gs => ⟨Split.eq_groups, ?_⟩⟩
  rintro rfl
  exact hsplit

/-- Two types make one group, and a type behind the function another one. -/
example : (scan [Build.typeDec "a" (Build.synonymOf "int"), Build.typeDec "b" (Build.synonymOf "int"),
      Build.varDec "x" none (Build.int 1), Build.functionDec "f" [] none (Build.seq []),
      Build.typeDec "c" (Build.synonymOf "int")]).map (fun g => (g.kind, g.decs.length)) =
    [(.type, 2), (.var, 1), (.function, 1), (.type, 1)] := by
  decide

end Dec

end TigerCheck
