/-! Trees: integers, symbols and nonempty sequences.

A tree may have leaves of a further type `α`, values of a host program that stand where a tree
is expected. What the parser produces has none: it is a `ParseTree`. -/
namespace LispReader

/-- A sequence has a head, in function position, and further items. -/
inductive Tree (α : Type) where
  | number (value : Int)
  | symbol (name : String)
  | foreign (value : α)
  | sequence (head : Tree α) (tail : List (Tree α))

abbrev ParseTree := Tree Empty

namespace Tree

variable {α : Type}

instance : Inhabited (Tree α) := ⟨.number 0⟩

/-- The sequence of the given items; none if there is no item. -/
def ofItems? : List (Tree α) → Option (Tree α)
  | [] => none
  | head :: tail => some (.sequence head tail)

/-- What is said when a sequence has no item. -/
def emptyMessage : String := "Sequence requires at least one element"

/-- The items of a sequence; none for a leaf. -/
def items? : Tree α → Option (List (Tree α))
  | sequence head tail => some (head :: tail)
  | _ => none

@[simp] theorem ofItems?_eq_some_iff {items : List (Tree α)} {t : Tree α} :
    ofItems? items = some t ↔ t.items? = some items := by
  cases items <;> cases t <;> simp [ofItems?, items?]
  exact and_congr eq_comm eq_comm

/-- The item at an index, counted from the end if the index is negative. -/
def item? (items : List (Tree α)) (index : Int) : Option (Tree α) :=
  let i := if index < 0 then index + items.length else index
  if i < 0 then none else items[i.toNat]?

/-! ### Induction and equality -/

/-- To prove a property of all trees, prove it of the leaves and of a sequence whose items all
have it. -/
theorem induction {motive : Tree α → Prop} (number : ∀ n, motive (number n))
    (symbol : ∀ s, motive (symbol s)) (foreign : ∀ a, motive (foreign a))
    (sequence : ∀ head tail, (∀ t ∈ head :: tail, motive t) → motive (sequence head tail))
    (t : Tree α) : motive t :=
  Tree.rec (motive_1 := motive) (motive_2 := fun ts => ∀ t ∈ ts, motive t)
    number symbol foreign
    (fun head tail hh ht => sequence head tail (List.forall_mem_cons.2 ⟨hh, ht⟩))
    (fun _ h => absurd h List.not_mem_nil)
    (fun _ _ hh ht => List.forall_mem_cons.2 ⟨hh, ht⟩) t

mutual

/-- Equality of trees is decided item by item. -/
def decideEq [DecidableEq α] : (s t : Tree α) → Decidable (s = t)
  | number m, number n => decidable_of_iff (m = n) (by simp)
  | symbol m, symbol n => decidable_of_iff (m = n) (by simp)
  | foreign a, foreign b => decidable_of_iff (a = b) (by simp)
  | sequence h t, sequence h' t' =>
    match decideEq h h', decideEqList t t' with
    | isTrue hh, isTrue ht => isTrue (by rw [hh, ht])
    | isFalse hh, _ => isFalse fun e => hh (by injection e)
    | _, isFalse ht => isFalse fun e => ht (by injection e)
  | number _, symbol _ | number _, foreign _ | number _, sequence _ _
  | symbol _, number _ | symbol _, foreign _ | symbol _, sequence _ _
  | foreign _, number _ | foreign _, symbol _ | foreign _, sequence _ _
  | sequence _ _, number _ | sequence _ _, symbol _ | sequence _ _, foreign _ => isFalse nofun

def decideEqList [DecidableEq α] : (s t : List (Tree α)) → Decidable (s = t)
  | [], [] => isTrue rfl
  | s :: ss, t :: ts =>
    match decideEq s t, decideEqList ss ts with
    | isTrue hh, isTrue ht => isTrue (by rw [hh, ht])
    | isFalse hh, _ => isFalse fun e => hh (by injection e)
    | _, isFalse ht => isFalse fun e => ht (by injection e)
  | [], _ :: _ | _ :: _, [] => isFalse nofun

end

instance [DecidableEq α] : DecidableEq (Tree α) := decideEq

/-! ### Other leaves -/

variable {β : Type}

mutual

/-- The tree with each foreign leaf replaced. -/
def map (f : α → β) : Tree α → Tree β
  | number n => number n
  | symbol s => symbol s
  | foreign a => foreign (f a)
  | sequence head tail => sequence (head.map f) (mapAll f tail)

def mapAll (f : α → β) : List (Tree α) → List (Tree β)
  | [] => []
  | t :: ts => t.map f :: mapAll f ts

end

/-! ### Size -/

mutual

/-- The number of steps that a walk over a tree may take: one for a leaf; two for a sequence and
one more for each item, besides the steps within. -/
def size : Tree α → Nat
  | sequence head tail => 3 + head.size + sizes tail
  | _ => 1

/-- The steps of a walk over some items. -/
def sizes : List (Tree α) → Nat
  | [] => 0
  | t :: ts => 1 + t.size + sizes ts

end

theorem sizes_append (front back : List (Tree α)) :
    sizes (front ++ back) = sizes front + sizes back := by
  induction front with
  | nil => simp [sizes]
  | cons t ts ih => simp only [List.cons_append, sizes, ih]; omega

theorem sizes_reverse (ts : List (Tree α)) : sizes ts.reverse = sizes ts := by
  induction ts with
  | nil => rfl
  | cons t ts ih => simp only [List.reverse_cons, sizes_append, sizes, ih]; omega

end Tree

end LispReader
