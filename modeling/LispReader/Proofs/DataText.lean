import LispReader.Proofs.Data

/-! The text of data.

What is written of data can be said by recursion, with the brackets, commas and line breaks as they
stand in the text. Without white space, a list is the text of its items with commas between them,
in brackets. Indented, each item is on a line of its own, two spaces further in than its list, and
the closing bracket is on a line at the depth of the list. The text of a tree is the text of its
data in both ways: `Tree.renders_data`. -/
namespace LispReader

namespace Datum

/-- A line break, and two spaces for each level of depth. -/
def newLine (depth : Nat) : String := "\n" ++ String.join (List.replicate depth "  ")

mutual

/-- The text without white space. -/
def compact : Datum Empty → String
  | .integer n => Numeral.write n
  | .text s => Json.string s
  | .list items | .tuple items => "[" ++ ",".intercalate (compactAll items) ++ "]"

def compactAll : List (Datum Empty) → List String
  | [] => []
  | d :: ds => d.compact :: compactAll ds

end

/-- Lines in brackets, of which the closing one is on a line of its own; brackets without lines
close at once. -/
def enclose (depth : Nat) : List String → String
  | [] => "[]"
  | lines => "[" ++ ",".intercalate lines ++ newLine depth ++ "]"

mutual

/-- The text with an item on each line, of data that stand at a depth. -/
def indented (depth : Nat) : Datum Empty → String
  | .integer n => Numeral.write n
  | .text s => Json.string s
  | .list items | .tuple items => enclose depth (indentedAll (depth + 1) items)

def indentedAll (depth : Nat) : List (Datum Empty) → List String
  | [] => []
  | d :: ds => (newLine depth ++ d.indented depth) :: indentedAll depth ds

end

example : indented 0 (.list [.text "f", .list [.integer 1, .list []]]) =
    "[\n  \"f\",\n  [\n    1,\n    []\n  ]\n]" := by decide +kernel

/-! ### Without white space -/

theorem enclose_compact (level : Nat) (texts : List String) :
    Json.Layout.compact.enclose level "[" "]" texts = "[" ++ ",".intercalate texts ++ "]" := by
  cases texts with
  | nil => rfl
  | cons text texts =>
    rw [Json.Layout.enclose]
    · show "[" ++ "" ++ _ ++ "" ++ "]" = _
      rw [String.append_empty, String.append_empty]
      rfl
    · exact List.cons_ne_nil _ _

mutual

theorem writeAt_compact (level : Nat) : (d : Datum Empty) →
    d.json.writeAt .compact level = d.compact
  | .integer _ | .text _ => rfl
  | .list items | .tuple items => by
    rw [json, Json.writeAt, enclose_compact, writeItems_compact, compact]

theorem writeItems_compact (level : Nat) : (ds : List (Datum Empty)) →
    Json.writeItems .compact level (jsonAll ds) = compactAll ds
  | [] => rfl
  | d :: ds => by
    rw [jsonAll, Json.writeItems, writeAt_compact level d, writeItems_compact level ds, compactAll]

end

/-! ### Indented -/

theorem join_replicate (depth : Nat) :
    String.join (List.replicate depth "  ") = String.ofList (List.replicate (2 * depth) ' ') := by
  induction depth with
  | zero => rfl
  | succ depth ih =>
    have hs : "  " = String.ofList (List.replicate 2 ' ') := rfl
    rw [List.replicate_succ, String.join_cons, ih, hs, ← String.ofList_append,
      List.replicate_append_replicate, Nat.mul_succ, Nat.add_comm]

theorem lineBreak_eq (depth : Nat) : Json.lineBreak depth = newLine depth := by
  rw [Json.lineBreak, newLine, join_replicate]

/-- The line break in each separator can be taken to the item behind it. -/
theorem intercalate_behind (separator front text : String) (texts : List String) :
    front ++ (separator ++ front).intercalate (text :: texts) =
      separator.intercalate ((text :: texts).map (front ++ ·)) := by
  induction texts generalizing text with
  | nil => simp
  | cons next texts ih =>
    rw [String.intercalate_cons_cons, List.map_cons, List.map_cons, String.intercalate_cons_cons,
      ← List.map_cons, ← ih]
    simp only [String.append_assoc]

theorem enclose_indented (level : Nat) (texts : List String) :
    Json.Layout.indented.enclose level "[" "]" texts =
      enclose level (texts.map (newLine (level + 1) ++ ·)) := by
  cases texts with
  | nil => rfl
  | cons text texts =>
    rw [Json.Layout.enclose, enclose, ← intercalate_behind, ← lineBreak_eq, ← lineBreak_eq]
    · simp only [String.append_assoc]
      rfl
    · exact List.cons_ne_nil _ _
    · exact List.cons_ne_nil _ _

mutual

theorem writeAt_indented (depth : Nat) : (d : Datum Empty) →
    d.json.writeAt .indented depth = d.indented depth
  | .integer _ | .text _ => rfl
  | .list items | .tuple items => by
    rw [json, Json.writeAt, enclose_indented, writeItems_indented, indented]

theorem writeItems_indented (depth : Nat) : (ds : List (Datum Empty)) →
    (Json.writeItems .indented depth (jsonAll ds)).map (newLine depth ++ ·) = indentedAll depth ds
  | [] => rfl
  | d :: ds => by
    rw [jsonAll, Json.writeItems, List.map_cons, writeAt_indented depth d,
      writeItems_indented depth ds, indentedAll]

end

end Datum

namespace Tree

variable {t : ParseTree} {d : Datum Empty}

theorem json_of_toDatum (h : t.toDatum = .ok d) : t.json = d.json := by
  unfold json
  split
  next d' h' =>
    cases h.symm.trans h'
    rfl

theorem render_compact (h : t.toDatum = .ok d) : t.render .compact = d.compact := by
  rw [render_eq_write, json_of_toDatum h]
  exact Datum.writeAt_compact 0 d

theorem render_indented (h : t.toDatum = .ok d) : t.render .indented = d.indented 0 := by
  rw [render_eq_write, json_of_toDatum h]
  exact Datum.writeAt_indented 0 d

/-- A tree has data, and in either style its text is that of the data. -/
theorem renders_data (t : ParseTree) :
    ∃ d, t.toDatum = .ok d ∧ t.render .compact = d.compact ∧ t.render .indented = d.indented 0 := by
  obtain ⟨d, hd⟩ := t.exists_toDatum
  exact ⟨d, hd, render_compact hd, render_indented hd⟩

end Tree

end LispReader
