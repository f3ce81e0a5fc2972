import LispReader.Proofs.Data
import LispReader.Proofs.DataFaults

/-! Trees and their data.

The data of a tree stand for this tree, and sound data of integers, texts, lists and tuples are the
data of their tree as soon as each tuple is turned into a list: `toTree_inverts_toDatum`. -/
namespace LispReader.Datum

variable {β : Type}

mutual

/-- The data with each tuple turned into a list. -/
def listed : Datum β → Datum β
  | list items | tuple items => list (listedAll items)
  | d => d

def listedAll : List (Datum β) → List (Datum β)
  | [] => []
  | d :: ds => d.listed :: listedAll ds

end

theorem sequence?_eq_ok_iff {items : List ParseTree} {t : ParseTree} :
    (sequence? items : Except (Fault β) ParseTree) = .ok t ↔ t.items? = some items := by
  rw [sequence?, ← Tree.ofItems?_eq_some_iff]
  cases Tree.ofItems? items <;> simp

/-- Without foreign leaves, the data of a sequence are those of its items. -/
theorem data?_sequence (head : ParseTree) (tail : List ParseTree) :
    (Tree.sequence head tail).data? = (Tree.dataAll? (head :: tail)).map list := by
  rw [Tree.data?, Tree.dataAll?]
  cases (head :: tail).findSome? Tree.foreign? with
  | some a => exact a.elim
  | none => cases Tree.dataAll? tail <;> cases head.data? <;> rfl

/-! ### From trees -/

mutual

theorem tree?_of_data? : (t : ParseTree) → {d : Datum Empty} → t.data? = .ok d →
    d.tree? = .ok t
  | .number _, _, h | .symbol _, _, h => by
    cases h
    rfl
  | .sequence head tail, d, h => by
    rw [data?_sequence, Tree.dataAll?] at h
    cases ht : Tree.dataAll? tail with
    | error a => exact a.elim
    | ok items =>
      cases hh : head.data? with
      | error a => exact a.elim
      | ok item =>
        rw [ht, hh] at h
        cases h
        rw [tree?, treeAll?, tree?_of_data? head hh, treeAll?_of_dataAll? tail ht]
        rfl

theorem treeAll?_of_dataAll? : (ts : List ParseTree) → {ds : List (Datum Empty)} →
    Tree.dataAll? ts = .ok ds → treeAll? ds = .ok ts
  | [], _, h => by
    cases h
    rfl
  | t :: ts, _, h => by
    rw [Tree.dataAll?] at h
    obtain ⟨items, item, ht, hh, rfl⟩ := Tree.exists_of_bind_map h
    rw [treeAll?, tree?_of_data? t hh, treeAll?_of_dataAll? ts ht]
    rfl

end

/-! ### From data -/

theorem exists_of_bind_sequence? {x : Except (Fault β) (List ParseTree)} {t : ParseTree}
    (h : x.bind sequence? = .ok t) : ∃ head tail, x = .ok (head :: tail) ∧
      t = .sequence head tail := by
  cases x with
  | error f => cases h
  | ok items =>
    have hi : t.items? = some items := sequence?_eq_ok_iff.1 h
    cases t with
    | number n => cases hi
    | symbol s => cases hi
    | foreign a => cases hi
    | sequence head tail =>
      cases hi
      exact ⟨head, tail, rfl, rfl⟩

mutual

theorem data?_of_tree? : (d : Datum Empty) → {t : ParseTree} → d.tree? = .ok t →
    t.data? = .ok d.listed
  | integer _, _, h | text _, _, h => by
    cases h
    rfl
  | list items, _, h | tuple items, _, h => by
    rw [tree?] at h
    obtain ⟨head, tail, ht, rfl⟩ := exists_of_bind_sequence? h
    rw [data?_sequence, dataAll?_of_treeAll? items ht]
    rfl

theorem dataAll?_of_treeAll? : (ds : List (Datum Empty)) → {ts : List ParseTree} →
    treeAll? ds = .ok ts → Tree.dataAll? ts = .ok (listedAll ds)
  | [], _, h => by
    cases h
    rfl
  | d :: ds, _, h => by
    rw [treeAll?] at h
    obtain ⟨t, ts, ht, hts, rfl⟩ := Tree.exists_of_bind_map h
    rw [Tree.dataAll?, data?_of_tree? d ht, dataAll?_of_treeAll? ds hts]
    rfl

end

/-- The data of a tree are read as this tree, and the tree of sound data has these data, with lists
for their tuples. -/
theorem toTree_inverts_toDatum :
    (∀ t : ParseTree, ∃ d, t.toDatum = .ok d ∧ d.toTree = .ok t) ∧
      ∀ d : Datum Empty, d.Sound → ∃ t, d.toTree = .ok t ∧ t.toDatum = .ok d.listed := by
  constructor
  · intro t
    obtain ⟨d, hd⟩ := t.exists_toDatum
    refine ⟨d, hd, ?_⟩
    rw [Tree.toDatum_eq] at hd
    rw [toTree_eq, tree?_of_data? t hd]
  · intro d hs
    obtain ⟨t, ht⟩ := exists_tree?_iff.2 hs
    refine ⟨t, ?_, ?_⟩
    · rw [toTree_eq, ht]
    · rw [Tree.toDatum_eq, data?_of_tree? d ht]

/-- A tuple in a list, and a list in the tuple. -/
def mixed : Datum Empty := .list [.text "f", .tuple [.integer (-1), .list [.tuple [.text ""]]]]

theorem toTree_inverts_toDatum_mixed : mixed.Sound ∧ ∃ t, mixed.toTree = .ok t ∧
    t.toDatum = .ok (.list [.text "f", .list [.integer (-1), .list [.list [.text ""]]]]) := by
  have hs : mixed.Sound := sound_iff.2 rfl
  exact ⟨hs, toTree_inverts_toDatum.2 mixed hs⟩

end LispReader.Datum
