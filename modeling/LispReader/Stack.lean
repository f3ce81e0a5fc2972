/-! Stacks whose height is known without counting. -/
namespace LispReader

/-- The items with the topmost one first, and their number. -/
structure Stack (α : Type) where
  items : List α
  height : Nat
  height_eq : height = items.length

namespace Stack

variable {α : Type}

/-- Stacks with the same items are equal. -/
theorem ext {s t : Stack α} (h : s.items = t.items) : s = t := by
  cases s with | mk is _ hs
  cases t with | mk it _ ht
  cases h
  cases hs
  cases ht
  rfl

/-- The stack with the given items, the topmost one first. -/
def ofList (items : List α) : Stack α := ⟨items, items.length, rfl⟩

/-- Puts items on a stack, the first one on top. -/
def pushAll (s : Stack α) (front : List α) : Stack α where
  items := front ++ s.items
  height := front.length + s.height
  height_eq := by simp [s.height_eq]

/-- Puts an item on a stack. -/
def push (s : Stack α) (a : α) : Stack α where
  items := a :: s.items
  height := s.height + 1
  height_eq := by simp [s.height_eq]

/-- Removes a number of items from the top. -/
def drop (s : Stack α) (n : Nat) : Stack α where
  items := s.items.drop n
  height := s.height - n
  height_eq := by simp [s.height_eq]

/-- The items from the bottom to the top. -/
def bottomUp (s : Stack α) : List α := s.items.reverse

/-- The topmost item and the stack below it. -/
def pop? (s : Stack α) : Option (α × Stack α) := s.items.head?.map fun a => (a, s.drop 1)

@[simp] theorem items_ofList (items : List α) : (ofList items).items = items := rfl

@[simp] theorem items_pushAll (s : Stack α) (front : List α) :
    (s.pushAll front).items = front ++ s.items := rfl

@[simp] theorem items_push (s : Stack α) (a : α) : (s.push a).items = a :: s.items := rfl

@[simp] theorem items_drop (s : Stack α) (n : Nat) : (s.drop n).items = s.items.drop n := rfl

theorem bottomUp_push (s : Stack α) (a : α) : (s.push a).bottomUp = s.bottomUp ++ [a] :=
  List.reverse_cons

theorem drop_zero (s : Stack α) : s.drop 0 = s := ext rfl

theorem drop_drop (s : Stack α) (m n : Nat) : (s.drop m).drop n = s.drop (m + n) :=
  ext List.drop_drop

theorem pop?_eq_none_iff {s : Stack α} : s.pop? = none ↔ s.items = [] := by
  simp [pop?]

theorem pop?_eq_some_iff {s t : Stack α} {a : α} :
    s.pop? = some (a, t) ↔ s.items = a :: t.items := by
  cases h : s.items with
  | nil => simp [pop?, h]
  | cons b rest =>
    constructor
    · intro hp
      simp only [pop?, h, List.head?_cons, Option.map_some, Option.some.injEq,
        Prod.mk.injEq] at hp
      rw [hp.1, ← hp.2]
      simp [h]
    · intro hc
      cases hc
      have : s.drop 1 = t := ext (by simp [h])
      simp [pop?, h, this]

end Stack

end LispReader
