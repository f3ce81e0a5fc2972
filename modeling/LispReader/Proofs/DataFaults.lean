import LispReader.Tree.Datum

/-! Faults of data.

The walk that reads data keeps the sequences under construction on a stack. What it makes of some
items does not depend on the sequences around them, so it can be said by recursion on the data
(`toTree_eq`). A part of the data is faulty if it stands for nothing or is an empty sequence. Data
stand for a tree if they have no faulty part, and otherwise the first faulty part is reported, depth
first from left to right: `toTree_reports`. -/
namespace LispReader

/-- The error of a result. -/
def errorOf? {ε γ : Type} : Except ε γ → Option ε
  | .ok _ => none
  | .error e => some e

section

variable {ε γ δ η : Type} {x : Except ε γ} {e : ε}

theorem errorOf?_eq_some_iff : errorOf? x = some e ↔ x = .error e := by
  cases x <;> simp [errorOf?]

theorem errorOf?_eq_none_iff : errorOf? x = none ↔ ∃ c, x = .ok c := by
  cases x <;> simp [errorOf?]

/-- Of two results that are put together, the second one counts only if the first is no error. -/
theorem errorOf?_bind_map (x : Except ε γ) (y : Except ε δ) (f : γ → δ → η) :
    errorOf? (x.bind fun c => y.map (f c)) = (errorOf? x).or (errorOf? y) := by
  cases x <;> cases y <;> rfl

end

namespace Datum

variable {β : Type}

/-! ### Recursion -/

/-- The sequence of some items, of which there is at least one. -/
def sequence? (items : List ParseTree) : Except (Fault β) ParseTree :=
  match Tree.ofItems? items with
  | none => .error .emptySequence
  | some t => .ok t

mutual

/-- The tree for which data stand, or the first fault. -/
def tree? : Datum β → Except (Fault β) ParseTree
  | integer n => .ok (.number n)
  | text s => .ok (.symbol s)
  | foreign b => .error (.foreign b)
  | list items | tuple items => (treeAll? items).bind sequence?

def treeAll? : List (Datum β) → Except (Fault β) (List ParseTree)
  | [] => .ok []
  | d :: ds => d.tree?.bind fun t => (treeAll? ds).map (t :: ·)

end

/-- A sequence that has been read is an item of the one around it. -/
theorem readItems_nil_cons (built : List ParseTree) (pending : List (Datum β))
    (siblings : List ParseTree) (outer : List (List (Datum β) × List ParseTree)) :
    readItems [] built ((pending, siblings) :: outer) =
      (sequence? built.reverse).bind fun t => readItems pending (t :: siblings) outer := by
  rw [readItems.eq_def, sequence?]
  cases Tree.ofItems? built.reverse <;> rfl

theorem readItems_nil_nil (built : List ParseTree) :
    readItems ([] : List (Datum β)) built [] = sequence? built.reverse := by
  rw [readItems.eq_def, sequence?]
  cases Tree.ofItems? built.reverse <;> rfl

mutual

/-- The walk reads an item and goes on behind it, or stops at a fault. -/
theorem readItems_cons : (d : Datum β) → (pending : List (Datum β)) →
    (built : List ParseTree) → (outer : List (List (Datum β) × List ParseTree)) →
    readItems (d :: pending) built outer =
      d.tree?.bind fun t => readItems pending (t :: built) outer
  | integer _, pending, built, outer | text _, pending, built, outer
  | foreign _, pending, built, outer => by
    rw [readItems]
    rfl
  | list items, pending, built, outer | tuple items, pending, built, outer => by
    -- the items are read to their end, where the sequence joins the one around it
    have hr := readItems_append items [] [] ((pending, built) :: outer)
    rw [List.append_nil] at hr
    rw [readItems, hr, tree?]
    cases treeAll? items with
    | error f => rfl
    | ok ts =>
      show readItems [] (ts.reverse ++ []) _ = Except.bind (sequence? ts) _
      rw [List.append_nil, readItems_nil_cons, List.reverse_reverse]

/-- Items are read from the first one to the last. -/
theorem readItems_append : (ds pending : List (Datum β)) → (built : List ParseTree) →
    (outer : List (List (Datum β) × List ParseTree)) →
    readItems (ds ++ pending) built outer =
      (treeAll? ds).bind fun ts => readItems pending (ts.reverse ++ built) outer
  | [], pending, built, outer => rfl
  | d :: ds, pending, built, outer => by
    rw [List.cons_append, readItems_cons d, treeAll?]
    cases d.tree? with
    | error f => rfl
    | ok t =>
      show readItems (ds ++ pending) (t :: built) outer = Except.bind ((treeAll? ds).map _) _
      rw [readItems_append ds]
      cases treeAll? ds with
      | error f => rfl
      | ok ts =>
        show readItems pending (ts.reverse ++ t :: built) outer =
          readItems pending ((t :: ts).reverse ++ built) outer
        rw [List.reverse_cons, List.append_assoc, List.singleton_append]

end

theorem readItems_eq (items : List (Datum β)) :
    readItems items [] [] = (treeAll? items).bind sequence? := by
  have hr := readItems_append items [] [] []
  rw [List.append_nil] at hr
  rw [hr]
  cases treeAll? items with
  | error f => rfl
  | ok ts =>
    show readItems [] (ts.reverse ++ []) [] = sequence? ts
    rw [List.append_nil, readItems_nil_nil, List.reverse_reverse]

theorem toTree_eq (d : Datum β) : d.toTree = d.tree? := by
  cases d with
  | integer n => rfl
  | text s => rfl
  | foreign b => rfl
  | list items => exact readItems_eq items
  | tuple items => exact readItems_eq items

/-! ### Parts -/

mutual

/-- All parts of data in reading order: each in front of its own parts, these from left to
right. -/
def parts : Datum β → List (Datum β)
  | list items => list items :: partsAll items
  | tuple items => tuple items :: partsAll items
  | d => [d]

def partsAll : List (Datum β) → List (Datum β)
  | [] => []
  | d :: ds => d.parts ++ partsAll ds

end

/-- What is wrong with a part itself. -/
def fault? : Datum β → Option (Fault β)
  | foreign b => some (.foreign b)
  | list [] | tuple [] => some .emptySequence
  | _ => none

/-- A sequence is faulty itself if it has no items; whatever is wrong with its items comes
before. -/
theorem errorOf?_sequence (items : List (Datum β)) :
    errorOf? ((treeAll? items).bind sequence?) =
      if items = [] then some .emptySequence else errorOf? (treeAll? items) := by
  cases items with
  | nil => rfl
  | cons d ds =>
    rw [if_neg (List.cons_ne_nil d ds), treeAll?]
    cases d.tree? with
    | error f => rfl
    | ok t => cases treeAll? ds <;> rfl

mutual

theorem errorOf?_tree? : (d : Datum β) → errorOf? d.tree? = d.parts.findSome? fault?
  | integer _ | text _ | foreign _ => rfl
  | list [] | tuple [] => rfl
  | list (d :: ds) | tuple (d :: ds) => by
    rw [tree?, errorOf?_sequence, if_neg (List.cons_ne_nil d ds), errorOf?_treeAll? (d :: ds)]
    rfl

theorem errorOf?_treeAll? : (ds : List (Datum β)) →
    errorOf? (treeAll? ds) = (partsAll ds).findSome? fault?
  | [] => rfl
  | d :: ds => by
    rw [treeAll?, errorOf?_bind_map, errorOf?_tree? d, errorOf?_treeAll? ds, partsAll,
      List.findSome?_append]

end

/-- Each part stands for something, and no sequence is empty. -/
structure Sound (d : Datum β) : Prop where
  noForeign : ∀ b, foreign b ∉ d.parts
  noEmptyList : list [] ∉ d.parts
  noEmptyTuple : tuple [] ∉ d.parts

theorem sound_iff {d : Datum β} : d.Sound ↔ d.parts.findSome? fault? = none := by
  rw [List.findSome?_eq_none_iff]
  constructor
  · intro h part hp
    cases part with
    | integer n => rfl
    | text s => rfl
    | foreign b => exact absurd hp (h.noForeign b)
    | list items =>
      cases items with
      | nil => exact absurd hp h.noEmptyList
      | cons d ds => rfl
    | tuple items =>
      cases items with
      | nil => exact absurd hp h.noEmptyTuple
      | cons d ds => rfl
  · intro h
    refine ⟨fun b hp => ?_, fun hp => ?_, fun hp => ?_⟩
    · exact absurd (h _ hp) (Option.some_ne_none _)
    · exact absurd (h _ hp) (Option.some_ne_none _)
    · exact absurd (h _ hp) (Option.some_ne_none _)

theorem exists_tree?_iff {d : Datum β} : (∃ t, d.tree? = .ok t) ↔ d.Sound := by
  rw [sound_iff, ← errorOf?_tree?, errorOf?_eq_none_iff]

/-- Data stand for a tree just if all of their parts are sound. Otherwise the fault is that of the
first part in reading order that has one. -/
theorem toTree_reports (d : Datum β) :
    ((∃ t, d.toTree = .ok t) ↔ d.Sound) ∧
      ∀ fault, d.toTree = .error fault ↔ d.parts.findSome? fault? = some fault := by
  rw [toTree_eq]
  refine ⟨exists_tree?_iff, fun fault => ?_⟩
  rw [← errorOf?_tree?, errorOf?_eq_some_iff]

example : toTree (.list [.tuple [.integer 1, .list []], .foreign ()]) = .error .emptySequence := by
  cbv

end Datum

end LispReader
