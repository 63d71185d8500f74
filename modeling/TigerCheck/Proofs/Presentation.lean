import TigerCheck.Proofs.Decode.Nodes

/-!
# Which texts are programs

A text that is not nested too deeply is read as a program exactly if it spells a way to write the program. What is no
way to write a structure or a choice, wherever there is to be one, is refused with the text around it.

* `Json.Structure.not_repeated`, `Json.Structure.not_missing`, `Json.Structure.not_surplus`: no known key twice, no
  part missing that has to be there, no more items than parts.
* `Json.Choice.single`: a single key, which is the word.
* **`Program.decode?_eq_some_iff`**: the texts of a program.
-/

namespace TigerCheck

/-! ## No way to write -/

namespace Json

variable {parts : List Part} {members : List (String × Json)}

theorem Members.keys_sublist {ms : List (String × Json)} (h : Members parts ms) :
    (ms.map (·.1)).Sublist (parts.map (·.name)) := by
  induction h with
  | nil => exact .slnil
  | shown _ _ ih => exact ih.cons_cons _
  | omitted _ _ ih => exact ih.cons _

theorem Members.mem_keys {ms : List (String × Json)} (h : Members parts ms) {p : Part} (hp : p ∈ parts)
    (ho : ¬p.Omits) : p.name ∈ ms.map (·.1) := by
  induction h with
  | nil => cases hp
  | shown _ _ ih =>
    rcases List.mem_cons.mp hp with rfl | hp
    · exact List.mem_cons_self
    · exact List.mem_cons_of_mem _ (ih hp)
  | omitted homits _ ih =>
    rcases List.mem_cons.mp hp with rfl | hp
    · exact absurd homits ho
    · exact ih hp

theorem Positions.length_le {vs : List Json} (h : Positions parts vs) : vs.length ≤ parts.length := by
  induction h with
  | rest => exact Nat.zero_le _
  | shown _ _ ih => exact Nat.succ_le_succ ih

/-- No known key occurs twice. -/
theorem Structure.not_repeated (h : Structure parts (.obj members)) (hnames : (parts.map (·.name)).Nodup)
    {name : String} (hname : name ∈ parts.map (·.name)) : (members.map (·.1)).count name ≤ 1 := by
  cases h with
  | @object known unknown _ hknown hunknown hperm =>
    rw [(hperm.map _).count_eq, List.map_append, List.count_append]
    have hzero : (unknown.map (·.1)).count name = 0 := by
      refine List.count_eq_zero.mpr fun hmem => ?_
      obtain ⟨m, hm, rfl⟩ := List.mem_map.mp hmem
      exact hunknown m hm hname
    rw [hzero]
    exact (hknown.keys_sublist.count_le name).trans (List.nodup_iff_count.mp hnames name)

/-- No part is missing that has to be there. -/
theorem Structure.not_missing (h : Structure parts (.obj members)) {p : Part} (hp : p ∈ parts) (ho : ¬p.Omits) :
    p.name ∈ members.map (·.1) := by
  cases h with
  | object hknown _ hperm =>
    rw [(hperm.map _).mem_iff, List.map_append]
    exact List.mem_append_left _ (hknown.mem_keys hp ho)

/-- No list has more items than there are parts. -/
theorem Structure.not_surplus {vs : List Json} (h : Structure parts (.arr vs)) : vs.length ≤ parts.length := by
  cases h with
  | list hvs => exact hvs.length_le

/-- The object for a choice has a single key, which is the word. -/
theorem Choice.single {word : String} {content : Json → Prop} {alone : Prop}
    (h : Choice word content alone (.obj members)) : members.map (·.1) = [word] := by
  cases h with
  | tagged => rfl

end Json

/-! ## The texts of a program -/

/-- **A text is read as a program exactly if it spells a way to write the program**, unless it is nested too deeply.
What is read has empty cells. -/
theorem Program.decode?_eq_some_iff {text : String} (h : Json.nesting text ≤ nestingLimit) (p : Program) :
    decode? text = some p ↔ p.body.blank = p.body ∧ ∃ j, Json.Spelled j text ∧ p.Presents j := by
  rw [decode?, Option.bind_eq_some_iff]
  constructor
  · rintro ⟨j, hj, hp⟩
    have hspelled := Json.parse?_eq_some.mp hj
    obtain ⟨hfresh, hpresents⟩ := (Program.reads nestingLimit j (hspelled.depth_le.trans h) p).mp hp
    exact ⟨hfresh, j, hspelled, hpresents⟩
  · rintro ⟨hfresh, j, hspelled, hpresents⟩
    exact ⟨j, Json.parse?_eq_some.mpr hspelled,
      (Program.reads nestingLimit j (hspelled.depth_le.trans h) p).mpr ⟨hfresh, hpresents⟩⟩

/-- An unknown key, structures as lists, places left out, members in another order, `null` for no content, and a letter
written by number. -/
def spelledSeq : String :=
  "\x7b\"x\": 1e2, \"body\": [\x7b\"Seq\": [\x7b\"loc\": [1, 2], \"kind\": \x7b\"Nil\": null\x7d\x7d, [\x7b\"String\": \"\\u0061\"\x7d]]\x7d]\x7d"

/-- The value that the text spells. -/
def writtenSeq : Json :=
  .obj [("x", .decimal "1e2"), ("body", .arr [.obj [("Seq", .arr [
    .obj [("loc", .arr [.int 1, .int 2]), ("kind", .obj [("Nil", .null)])],
    .arr [.obj [("String", .str "a")]]])]])]

theorem Program.decode?_spelledSeq :
    Json.nesting spelledSeq ≤ nestingLimit ∧
      decode? spelledSeq = some ⟨.seq {} [.nil { loc := ⟨1, 2⟩ }, .string {} "a"]⟩ := by
  have hnesting : Json.nesting spelledSeq ≤ nestingLimit := by decide +kernel
  have hspelled : Json.Spelled writtenSeq spelledSeq := by
    refine Json.parse?_eq_some.mp ?_
    simp only [Json.parse?, spelledSeq, String.reduceToList]
    rfl
  have hnil : Exp.Presents (.nil { loc := ⟨1, 2⟩ })
      (.obj [("loc", .arr [.int 1, .int 2]), ("kind", .obj [("Nil", .null)])]) :=
    .object (.shown (.tagged rfl) (.shown (.list (.shown rfl (.shown rfl (.rest nofun)))) .nil))
      (List.forall_mem_nil _)
      (.swap ("kind", _) ("loc", _) [])
  have hstring : Exp.Presents (.string {} "a") (.arr [.obj [("String", .str "a")]]) :=
    .list (.shown (.tagged rfl) (.rest (by rintro p (_ | ⟨_, ⟨⟩⟩); rfl)))
  have hseq : Exp.Presents (.seq {} [.nil { loc := ⟨1, 2⟩ }, .string {} "a"]) (.arr [.obj [("Seq", .arr [
      .obj [("loc", .arr [.int 1, .int 2]), ("kind", .obj [("Nil", .null)])], .arr [.obj [("String", .str "a")]]])]]) :=
    .list (.shown (.tagged ⟨_, rfl, .cons hnil (.cons hstring .nil)⟩) (.rest (by rintro p (_ | ⟨_, ⟨⟩⟩); rfl)))
  have hpresents : Presents ⟨.seq {} [.nil { loc := ⟨1, 2⟩ }, .string {} "a"]⟩ writtenSeq :=
    .object (.shown hseq .nil) (List.forall_mem_singleton.mpr (by decide)) (.swap ("body", _) ("x", _) [])
  exact ⟨hnesting, (Program.decode?_eq_some_iff hnesting _).mpr ⟨rfl, writtenSeq, hspelled, hpresents⟩⟩

end TigerCheck
