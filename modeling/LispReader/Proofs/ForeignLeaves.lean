import LispReader.Proofs.Data
import LispReader.Proofs.DataFaults
import LispReader.Proofs.Leaves

/-! Foreign leaves.

A tree with a foreign leaf has neither a text nor data. The two walks over the tree agree on this,
but they come to its leaves in different orders: the text is written from left to right, the data of
a sequence are written only after its own leaves have been looked at, and those of its nested
sequences from the last one to the first. So of several foreign leaves they may report different
ones: `refuses_foreign`. -/
namespace LispReader.Tree

variable {α : Type}

/-! ### Leaves from the outside in -/

def isLeaf (t : Tree α) : Bool := t.items?.isNone

mutual

/-- The leaves inside a sequence: its own from left to right, and then those inside its nested
sequences, from the last of these to the first. There is nothing inside a leaf. -/
def inside : Tree α → List (Tree α)
  | sequence head tail => (head :: tail).filter isLeaf ++ (insideAll tail ++ head.inside)
  | _ => []

def insideAll : List (Tree α) → List (Tree α)
  | [] => []
  | t :: ts => insideAll ts ++ t.inside

end

/-- The leaves of a tree from the outside in. -/
def outerLeaves (t : Tree α) : List (Tree α) := if t.isLeaf then [t] else t.inside

variable {t : Tree α} {ts : List (Tree α)}

theorem inside_of_isLeaf (h : t.isLeaf = true) : t.inside = [] := by
  cases t with
  | sequence head tail => cases h
  | number n => rfl
  | symbol s => rfl
  | foreign a => rfl

theorem perm_leavesAll (h : ∀ t ∈ ts, t.outerLeaves.Perm t.leaves) :
    (ts.filter isLeaf ++ insideAll ts).Perm (leavesAll ts) := by
  induction ts with
  | nil => exact .refl _
  | cons t ts ih =>
    obtain ⟨ht, hts⟩ := List.forall_mem_cons.1 h
    rw [leavesAll, insideAll]
    refine List.Perm.trans ?_ (ht.append (ih hts))
    by_cases hl : t.isLeaf = true
    · rw [List.filter_cons_of_pos hl, inside_of_isLeaf hl, List.append_nil, outerLeaves, if_pos hl]
      exact .refl _
    · -- what is inside the sequence moves from the end to the front
      rw [List.filter_cons_of_neg hl, ← List.append_assoc, outerLeaves, if_neg hl]
      exact List.perm_append_comm

/-- From the outside in, the same leaves are met as from left to right. -/
theorem perm_leaves (t : Tree α) : t.outerLeaves.Perm t.leaves := by
  induction t using Tree.induction with
  | number n => exact .refl _
  | symbol s => exact .refl _
  | foreign a => exact .refl _
  | sequence head tail ih => exact perm_leavesAll ih

/-! ### What is reported -/

mutual

theorem errorOf?_toJson? : (t : Tree α) → errorOf? t.toJson? = t.leaves.findSome? foreign?
  | number _ | symbol _ | foreign _ => rfl
  | sequence head tail => by
    rw [toJson?, errorOf?_bind_map, errorOf?_toJson? head, errorOf?_toJsonAll? tail, leaves,
      List.findSome?_append]

theorem errorOf?_toJsonAll? : (ts : List (Tree α)) →
    errorOf? (toJsonAll? ts) = (leavesAll ts).findSome? foreign?
  | [] => rfl
  | t :: ts => by
    rw [toJsonAll?, errorOf?_bind_map, errorOf?_toJson? t, errorOf?_toJsonAll? ts, leavesAll,
      List.findSome?_append]

end

theorem findSome?_filter_isLeaf (ts : List (Tree α)) :
    (ts.filter isLeaf).findSome? foreign? = ts.findSome? foreign? := by
  induction ts with
  | nil => rfl
  | cons t ts ih =>
    cases t with
    | foreign a => rfl
    | number n => exact ih
    | symbol s => exact ih
    | sequence head tail => exact ih

mutual

/-- If a tree is no foreign leaf itself, what is reported is inside it. -/
theorem errorOf?_data? : (t : Tree α) → t.foreign? = none →
    errorOf? t.data? = t.inside.findSome? foreign?
  | number _, _ | symbol _, _ => rfl
  | sequence head tail, _ => by
    rw [data?, inside, List.findSome?_append, findSome?_filter_isLeaf]
    cases hf : (head :: tail).findSome? foreign? with
    | some a => rfl
    | none =>
      obtain ⟨hh, ht⟩ := List.forall_mem_cons.1 (List.findSome?_eq_none_iff.1 hf)
      show errorOf? (Except.bind _ _) = _
      rw [errorOf?_bind_map, errorOf?_data? head hh, errorOf?_dataAll? tail ht,
        List.findSome?_append]
      rfl

theorem errorOf?_dataAll? : (ts : List (Tree α)) → (∀ t ∈ ts, t.foreign? = none) →
    errorOf? (dataAll? ts) = (insideAll ts).findSome? foreign?
  | [], _ => rfl
  | t :: ts, h => by
    obtain ⟨ht, hts⟩ := List.forall_mem_cons.1 h
    rw [dataAll?, errorOf?_bind_map, errorOf?_data? t ht, errorOf?_dataAll? ts hts, insideAll,
      List.findSome?_append]

end

theorem errorOf?_toDatum (t : Tree α) : errorOf? t.toDatum = t.outerLeaves.findSome? foreign? := by
  rw [toDatum_eq]
  cases t with
  | number n => rfl
  | symbol s => rfl
  | foreign a => rfl
  | sequence head tail => exact errorOf?_data? _ rfl

theorem errorOf?_render? (style : Style) (t : Tree α) :
    errorOf? (t.render? style) = t.leaves.findSome? foreign? := by
  rw [render?_eq, ← errorOf?_toJson?]
  cases t.toJson? <;> rfl

theorem exists_findSome?_iff :
    (∃ a, ts.findSome? foreign? = some a) ↔ ∃ a, foreign a ∈ ts := by
  constructor
  · rintro ⟨a, ha⟩
    obtain ⟨t, ht, hf⟩ := List.exists_of_findSome?_eq_some ha
    cases t with
    | foreign b => exact ⟨b, ht⟩
    | number n => cases hf
    | symbol s => cases hf
    | sequence head tail => cases hf
  · rintro ⟨a, ha⟩
    rw [← Option.isSome_iff_exists, List.isSome_findSome?, List.any_eq_true]
    exact ⟨foreign a, ha, rfl⟩

/-- When a tree is refused, and which of its leaves is reported. -/
structure RefusesForeign (t : Tree α) : Prop where
  render : ∀ style, (∃ a, t.render? style = .error a) ↔ ∃ a, foreign a ∈ t.leaves
  toDatum : (∃ a, t.toDatum = .error a) ↔ ∃ a, foreign a ∈ t.leaves
  leftmost : ∀ style a, t.render? style = .error a ↔ t.leaves.findSome? foreign? = some a
  outermost : ∀ a, t.toDatum = .error a ↔ t.outerLeaves.findSome? foreign? = some a

/-- Both walks refuse a tree just if it has a foreign leaf. In either style the text reports the
first one from the left, and the data report the first one from the outside in. -/
theorem refuses_foreign (t : Tree α) : t.RefusesForeign := by
  have hl (style : Style) (a : α) :
      t.render? style = .error a ↔ t.leaves.findSome? foreign? = some a := by
    rw [← errorOf?_eq_some_iff, errorOf?_render?]
  have ho (a : α) : t.toDatum = .error a ↔ t.outerLeaves.findSome? foreign? = some a := by
    rw [← errorOf?_eq_some_iff, errorOf?_toDatum]
  refine ⟨fun style => ?_, ?_, hl, ho⟩
  · rw [exists_congr (hl style), exists_findSome?_iff]
  · rw [exists_congr ho, exists_findSome?_iff]
    exact exists_congr fun a => t.perm_leaves.mem_iff

example : (sequence (sequence (foreign 1) []) [foreign 2]).render? .compact = .error 1 := by cbv
example : (sequence (sequence (foreign 1) []) [foreign 2]).toDatum = .error 2 := by cbv

end LispReader.Tree
