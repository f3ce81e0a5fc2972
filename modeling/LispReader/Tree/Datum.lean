import LispReader.Tree

/-! Trees as plain nested data, and back.

A number stands for an integer, a symbol for a text and a sequence for the list of its items.
Both conversions keep the sequences under construction on a stack of their own, so no nesting is
too deep for them. They differ in the order in which they meet the leaves: data are read depth
first from left to right, while a sequence is written only after its own leaves have been looked
at, and its nested sequences follow from the last to the first. -/
namespace LispReader

/-- Nested data. A list and a tuple stand for the same sequence. -/
inductive Datum (β : Type) where
  | integer (value : Int)
  | text (value : String)
  | list (items : List (Datum β))
  | tuple (items : List (Datum β))
  | foreign (value : β)

namespace Datum

variable {β : Type}

instance : Inhabited (Datum β) := ⟨.list []⟩

mutual

/-- The number of steps that a walk over data may take. -/
def size : Datum β → Nat
  | list items | tuple items => 2 + sizes items
  | _ => 1

/-- The steps of a walk over some items. -/
def sizes : List (Datum β) → Nat
  | [] => 0
  | d :: ds => 1 + d.size + sizes ds

end

/-- Why data do not stand for a tree. -/
inductive Fault (β : Type) where
  /-- The value stands for no node. -/
  | foreign (value : β)
  /-- A sequence has at least one item. -/
  | emptySequence

/-- Reads the items `pending` of a sequence whose items `built` have been read, the last one
first. The sequences around it wait in `outer`, innermost first. -/
def readItems (pending : List (Datum β)) (built : List ParseTree)
    (outer : List (List (Datum β) × List ParseTree)) : Except (Fault β) ParseTree :=
  match pending with
  | [] =>
    match Tree.ofItems? built.reverse, outer with
    | none, _ => .error .emptySequence
    | some t, [] => .ok t
    | some t, (pending, built) :: outer => readItems pending (t :: built) outer
  | integer n :: pending => readItems pending (.number n :: built) outer
  | text s :: pending => readItems pending (.symbol s :: built) outer
  | foreign b :: _ => .error (.foreign b)
  | list items :: pending | tuple items :: pending =>
    readItems items [] ((pending, built) :: outer)
termination_by sizes pending + outer.foldr (fun frame n => 1 + sizes frame.1 + n) 0
decreasing_by all_goals simp only [List.foldr_cons, sizes, size]; omega

/-- The tree for which data stand, or the first fault in reading order. A sequence without items
is found when its end is reached. -/
def toTree : Datum β → Except (Fault β) ParseTree
  | integer n => .ok (.number n)
  | text s => .ok (.symbol s)
  | foreign b => .error (.foreign b)
  | list items | tuple items => readItems items [] []

end Datum

namespace Tree

variable {α : Type}

/-- The value of a foreign leaf. -/
def foreign? : Tree α → Option α
  | foreign a => some a
  | _ => none

/-- Writes the items `pending` of a sequence, the last one first, in front of the items
`written`. The sequences around it wait in `outer`, innermost first. -/
def writeItems (pending : List (Tree α)) (written : List (Datum Empty))
    (outer : List (List (Tree α) × List (Datum Empty))) : Except α (Datum Empty) :=
  match pending with
  | [] =>
    match outer with
    | [] => .ok (.list written)
    | (pending, siblings) :: outer => writeItems pending (.list written :: siblings) outer
  | number n :: pending => writeItems pending (.integer n :: written) outer
  | symbol s :: pending => writeItems pending (.text s :: written) outer
  | foreign a :: _ => .error a
  | sequence head tail :: pending =>
    match (head :: tail).findSome? foreign? with
    | some a => .error a
    | none => writeItems (head :: tail).reverse [] ((pending, written) :: outer)
termination_by sizes pending + outer.foldr (fun frame n => 1 + sizes frame.1 + n) 0
decreasing_by
  all_goals simp only [List.foldr_cons, sizes, size, sizes_reverse]; omega

/-- The data of a tree, or the first foreign leaf in writing order. -/
def toDatum (t : Tree α) : Except α (Datum Empty) :=
  match t with
  | number n => .ok (.integer n)
  | symbol s => .ok (.text s)
  | foreign a => .error a
  | sequence head tail =>
    match (head :: tail).findSome? foreign? with
    | some a => .error a
    | none => writeItems (head :: tail).reverse [] []

end Tree

end LispReader
