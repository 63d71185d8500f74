import TigerCheck.Proofs.Walk.Fills
import TigerCheck.Proofs.Walk.Program
import TigerCheck.Tree.Build

/-!
# The variables outside every function

The slots of the main frame can be bound in a table, each under its own name. Whatever was in the table is
gone then. A name that several slots have stands for the last of them, and every slot of the main frame is
that of a live variable or counter outside every function.

* `FrameTable.Seats`, `FrameTable.Last`: the slots of a frame, and the last one of a name.
* `FrameTable.foldlM_bindSlot`: what a name stands for when slots are bound one after another.
* `Analysis.Rebound`: a table in which the slots of the main frame are bound.
* `analyze_holders`: the slots of the main frame are those of the holders, in their order.
* **`analyze_bindMainFrame`**: the slots of the main frame can be bound in every table.
-/

namespace TigerCheck

open Check

namespace FrameTable

variable {t : FrameTable} {f : FrameId} {v w : VarId} {s u : Slot} {name : String} {vs : List VarId}

/-- A slot of a frame, and what is known of it. -/
def Seats (t : FrameTable) (f : FrameId) (v : VarId) (s : Slot) : Prop :=
  ∃ fr, t.frames[f.index]? = some fr ∧ v ∈ fr.slots ∧ t.vars[v.index]? = some s

/-- Of the slots of a frame that have a name, the one with the greatest offset. -/
structure Last (t : FrameTable) (f : FrameId) (name : String) (v : VarId) (s : Slot) : Prop where
  seats : t.Seats f v s
  name_eq : s.name = name
  offset_le : ∀ w u, t.Seats f w u → u.name = name → u.offset ≤ s.offset

/-- What is bound in a table where the slots of a frame are bound and nothing else, given the holders of the
slots. -/
structure Rebound (t : FrameTable) (f : FrameId) (hs : List Holder) (table : Scopes VarId) : Prop where
  depth_eq : table.depth = 1
  lookup_iff : ∀ name v, table.lookup name = some v ↔ ∃ s, t.Last f name v s
  lookup_none_iff : ∀ name, table.lookup name = none ↔ ∀ v s, t.Seats f v s → s.name ≠ name
  held : ∀ name v, table.lookup name = some v → ⟨name, some v⟩ ∈ hs
  covered : ∀ h ∈ hs, ∃ v s, h.slot = some v ∧ t.Seats f v s ∧ s.name = h.name ∧
    (table.lookup h.name = some v ∨ ∃ w u, t.Seats f w u ∧ u.name = h.name ∧ s.offset < u.offset)

/-! ## One slot after another -/

/-- A name stands for the last slot that is bound under it, and for what it stood for before if there is
none. -/
theorem foldlM_bindSlot (h : ∀ v ∈ vs, ∃ s, t.vars[v.index]? = some s) (values : Scopes VarId) :
    ∃ table, vs.foldlM t.bindSlot values = .ok table ∧ table.depth = values.depth ∧ ∀ name,
      (table.lookup name = values.lookup name ∧
        ∀ w ∈ vs, ∀ u, t.vars[w.index]? = some u → u.name ≠ name) ∨
      ∃ pre v post s, vs = pre ++ v :: post ∧ t.vars[v.index]? = some s ∧ s.name = name ∧
        table.lookup name = some v ∧ ∀ w ∈ post, ∀ u, t.vars[w.index]? = some u → u.name ≠ name := by
  induction vs generalizing values with
  | nil => exact ⟨values, rfl, rfl, fun name => .inl ⟨rfl, nofun⟩⟩
  | cons v vs ih =>
    obtain ⟨⟨s, hs⟩, hvs⟩ := List.forall_mem_cons.mp h
    obtain ⟨table, hrun, hdepth, hlookup⟩ := ih hvs (values.bind s.name v)
    have hbind : t.bindSlot values v = .ok (values.bind s.name v) := by
      rw [bindSlot, var, entry_eq_ok_iff.mpr hs]
      rfl
    refine ⟨table, by rw [List.foldlM_cons, hbind]; exact hrun, hdepth, fun name => ?_⟩
    obtain ⟨heq, hnone⟩ | ⟨pre, w, post, u, rfl, hu, hname, hfound, hpost⟩ := hlookup name
    · rw [Scopes.lookup_bind] at heq
      by_cases hname : name = s.name
      · rw [if_pos hname] at heq
        exact .inr ⟨[], v, vs, s, rfl, hs, hname.symm, heq, hnone⟩
      · rw [if_neg hname] at heq
        refine .inl ⟨heq, List.forall_mem_cons.mpr ⟨fun u hu => ?_, hnone⟩⟩
        obtain rfl := Option.some.inj (hs.symm.trans hu)
        exact fun h => hname h.symm
    · exact .inr ⟨v :: pre, w, post, u, rfl, hu, hname, hfound, hpost⟩

/-! ## The last slot of a name -/

section

variable {fr : Frame} {hs : List Holder} {pre post : List VarId}

theorem seats_iff (hfr : t.frames[f.index]? = some fr) :
    t.Seats f v s ↔ v ∈ fr.slots.toList ∧ t.vars[v.index]? = some s := by
  constructor
  · rintro ⟨fr', hfr', hv, hs⟩
    obtain rfl := Option.some.inj (hfr'.symm.trans hfr)
    exact ⟨hv.val, hs⟩
  · rintro ⟨hv, hs⟩
    exact ⟨fr, hfr, Array.mem_toList_iff.mp hv, hs⟩

/-- The offset of a slot is its place in the frame. -/
theorem Linked.getElem?_offset (ht : t.Linked) (hfr : t.frames[f.index]? = some fr) (h : t.Seats f v s) :
    fr.slots.toList[s.offset]? = some v := by
  obtain ⟨hv, hs⟩ := (seats_iff hfr).mp h
  obtain ⟨k, hk⟩ := List.mem_iff_getElem?.mp hv
  obtain ⟨s', hs', -, rfl⟩ := ht.held f fr hfr k v (by rwa [← Array.getElem?_toList])
  obtain rfl := Option.some.inj (hs.symm.trans hs')
  exact hk

/-- A slot behind which no slot has the name is the last one of that name. -/
theorem Linked.last_of_split (ht : t.Linked) (hfr : t.frames[f.index]? = some fr)
    (hsplit : fr.slots.toList = pre ++ v :: post) (hs : t.vars[v.index]? = some s) (hname : s.name = name)
    (hpost : ∀ w ∈ post, ∀ u, t.vars[w.index]? = some u → u.name ≠ name) : t.Last f name v s := by
  have hv : v ∈ fr.slots.toList := by simp [hsplit]
  refine ⟨(seats_iff hfr).mpr ⟨hv, hs⟩, hname, fun w u hw hu => ?_⟩
  have hplace : fr.slots[pre.length]? = some v := by
    rw [← Array.getElem?_toList, hsplit, List.getElem?_append_right (Nat.le_refl _), Nat.sub_self]
    rfl
  obtain ⟨s', hs', -, hoffset⟩ := ht.held f fr hfr pre.length v hplace
  obtain rfl := Option.some.inj (hs.symm.trans hs')
  have hat := ht.getElem?_offset hfr hw
  by_contra hlt
  rw [hsplit, List.getElem?_append_right (by omega),
    show u.offset - pre.length = u.offset - pre.length - 1 + 1 by omega, List.getElem?_cons_succ] at hat
  exact hpost w (List.mem_of_getElem? hat) u ((seats_iff hfr).mp hw).2 hu

/-- There is only one last slot of a name. -/
theorem Linked.last_unique (ht : t.Linked) (h : t.Last f name v s) (h' : t.Last f name w u) : v = w := by
  obtain ⟨fr, hfr, -⟩ := id h.seats
  have hle := h.offset_le w u h'.seats h'.name_eq
  have hge := h'.offset_le v s h.seats h.name_eq
  have hv := ht.getElem?_offset hfr h.seats
  rw [Nat.le_antisymm hge hle, ht.getElem?_offset hfr h'.seats] at hv
  exact (Option.some.inj hv).symm

/-- **The slots of a frame are bound in an empty table**, given their holders. -/
theorem Linked.rebound (ht : t.Linked) (hfr : t.frames[f.index]? = some fr)
    (hhs : List.Forall₂ t.Holds hs fr.slots.toList) :
    ∃ table, fr.slots.toList.foldlM t.bindSlot .empty = .ok table ∧ t.Rebound f hs table := by
  have hslots : ∀ v ∈ fr.slots.toList, ∃ s, t.vars[v.index]? = some s := by
    intro v hv
    obtain ⟨h, -, -, s, hs, -⟩ := exists_mem_of_forall₂ hhs.flip hv
    exact ⟨s, hs⟩
  obtain ⟨table, hrun, hdepth, hlookup⟩ := foldlM_bindSlot hslots .empty
  -- a name stands for the last slot that has it, or no slot has it
  have hcases : ∀ name, (table.lookup name = none ∧ ∀ v s, t.Seats f v s → s.name ≠ name) ∨
      ∃ v s, table.lookup name = some v ∧ t.Last f name v s := by
    intro name
    obtain ⟨hnone, hall⟩ | ⟨pre, v, post, s, hsplit, hs, hname, hfound, hpost⟩ := hlookup name
    · refine .inl ⟨hnone, fun v s hvs => ?_⟩
      obtain ⟨hv, hs⟩ := (seats_iff hfr).mp hvs
      exact hall v hv s hs
    · exact .inr ⟨v, s, hfound, ht.last_of_split hfr hsplit hs hname hpost⟩
  have hlast : ∀ name v, table.lookup name = some v ↔ ∃ s, t.Last f name v s := by
    intro name v
    obtain ⟨hnone, hall⟩ | ⟨w, u, hfound, hw⟩ := hcases name
    · refine iff_of_false (by simp [hnone]) fun ⟨s, hs⟩ => hall v s hs.seats hs.name_eq
    · rw [hfound, Option.some_inj]
      constructor
      · rintro rfl
        exact ⟨u, hw⟩
      · exact fun ⟨s, hs⟩ => ht.last_unique hw hs
  refine ⟨table, hrun, hdepth, hlast, fun name => ?_, fun name v hv => ?_, fun h hh => ?_⟩
  · obtain ⟨hnone, hall⟩ | ⟨w, u, hfound, hw⟩ := hcases name
    · exact iff_of_true hnone hall
    · exact iff_of_false (by simp [hfound]) fun hall => hall w u hw.seats hw.name_eq
  · obtain ⟨s, hs⟩ := (hlast name v).mp hv
    obtain ⟨hmem, hvar⟩ := (seats_iff hfr).mp hs.seats
    obtain ⟨h, hh, hslot, s', hs', hname⟩ := exists_mem_of_forall₂ hhs.flip hmem
    obtain rfl := Option.some.inj (hvar.symm.trans hs')
    have heq : h = ⟨name, some v⟩ := by
      cases h
      simp_all [hs.name_eq]
    exact heq ▸ hh
  · obtain ⟨v, hv, hslot, s, hs, hname⟩ := exists_mem_of_forall₂ hhs hh
    have hseats : t.Seats f v s := (seats_iff hfr).mpr ⟨hv, hs⟩
    refine ⟨v, s, hslot, hseats, hname, ?_⟩
    obtain ⟨-, hall⟩ | ⟨w, u, hfound, hw⟩ := hcases h.name
    · exact absurd hname (hall v s hseats)
    · rcases Nat.lt_or_eq_of_le (hw.offset_le v s hseats hname) with hlt | heq
      · exact .inr ⟨w, u, hw.seats, hw.name_eq, hlt⟩
      · have hat := ht.getElem?_offset hfr hseats
        rw [heq, ht.getElem?_offset hfr hw.seats] at hat
        exact .inl (hfound.trans hat)

end

end FrameTable

/-! ## Analyses -/

/-- The main frame is empty at first, and gets the slots of the holders of the program. -/
theorem exists_holders_of_run {p p' : Program} {c : Checker}
    (h : (checkFromStart p).run .initial = .ok (p', c)) :
    ∃ fr, c.frames.frames[Checker.initial.mainFrame.index]? = some fr ∧
      List.Forall₂ c.frames.Holds p'.body.live.holders fr.slots.toList := by
  obtain ⟨body, c₁, frames, h₁, hfin, rfl, rfl⟩ := exists_of_run_checkFromStart h
  have hw := Checker.walked_note Checker.initial_sound .started
  obtain ⟨fr, vs, hfr, hfr₁, hvs⟩ := (expFills p.body hw.sound (Checker.initial_sits.walked hw) h₁).frame
  obtain ⟨hvars, -, -, -, tys, hfr₂, -⟩ := FrameTable.finalize_eq hfr₁ hfin
  have hempty : fr.slots = #[] := by
    have hmain : Checker.initial.frames.frames[Checker.initial.mainFrame.index]? = some Checker.mainOnly := by
      rw [Checker.initial_tables.1]
      rfl
    obtain rfl := Option.some.inj (hmain.symm.trans hfr)
    rfl
  refine ⟨_, hfr₂, ?_⟩
  rw [hempty]
  simpa using hvs.imp fun h v hv => hv.mono fun _ _ hs => hvars ▸ hs

/-- **The slots of the main frame are those of the holders**, in their order. -/
theorem analyze_holders (p : Program) :
    (∃ p' a fr, analyze p = .ok (p', a) ∧ a.frames.Linked ∧ a.frames.frames[a.mainFrame.index]? = some fr ∧
      List.Forall₂ a.frames.Holds p'.body.live.holders fr.slots.toList) ∨
      (maxLevel < p.body.nesting ∧ analyze p = .error .levelOverflow) := by
  obtain ⟨p', a, c, ha, hrun, -, -, hframes, -, hmain⟩ | hdeep := analyze_ends p
  · have hends := (yieldsOr_checkFromStart p).of_run hrun
    obtain ⟨fr, hfr, hhs⟩ := exists_holders_of_run hrun
    refine .inl ⟨p', a, fr, ha, hframes ▸ hends.sound.linked, ?_, hframes ▸ hhs⟩
    rw [hframes, hmain, hends.mainFrame_eq, hfr]
  · exact .inr hdeep

/-- **The slots of the main frame can be bound in every table.** The table has one scope then. A name stands
for the slot of the greatest offset that has the name, and for nothing if there is none. What is found is in
the cell of a live variable or counter outside every function; and the slot in such a cell is found, unless
a later slot has the same name. -/
theorem analyze_bindMainFrame (p : Program) :
    (∃ p' a, analyze p = .ok (p', a) ∧ ∀ values, ∃ table, a.bindMainFrame values = .ok table ∧
      a.frames.Rebound a.mainFrame p'.body.live.holders table) ∨
      (maxLevel < p.body.nesting ∧ analyze p = .error .levelOverflow) := by
  obtain ⟨p', a, fr, ha, hlinked, hfr, hhs⟩ | hdeep := analyze_holders p
  · obtain ⟨table, hrun, hrebound⟩ := hlinked.rebound hfr hhs
    refine .inl ⟨p', a, ha, fun values => ⟨table, ?_, hrebound⟩⟩
    rw [Analysis.bindMainFrame, FrameTable.frame, entry_eq_ok_iff.mpr hfr]
    exact hrun
  · exact .inr hdeep

/-- Two variables of one name and a counter outside every function, and a variable of that name in one. -/
def outerNames : Program where
  body := Build.letIn [Build.varDec "x" none (Build.int 1),
      Build.functionDec "f" [] none (Build.letIn [Build.varDec "x" none (Build.int 2)] (Build.seq []))]
    (Build.letIn [Build.varDec "x" none (Build.int 3)]
      (Build.forLoop "i" (Build.int 0) (Build.int 9) (Build.call "f" [])))

/-- The later of the two variables is found, and what was in the table is not. -/
example : (analyze outerNames).toOption.map (fun (p', a) => (p'.body.live.holders.map Holder.slot,
      (a.bindMainFrame (.bind .empty "old" ⟨0⟩)).toOption.map fun table => ["x", "i", "old"].map table.lookup)) =
    some ([some ⟨0⟩, some ⟨3⟩, some ⟨4⟩], some [some ⟨3⟩, some ⟨4⟩, none]) := by
  decide +kernel

end TigerCheck
