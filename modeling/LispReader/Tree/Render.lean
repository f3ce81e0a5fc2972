import LispReader.Json.Value
import LispReader.Tree

/-! Trees as JSON text.

A number is written as a JSON number, a symbol as a string and a sequence as the array of its
items, either without white space or with one item on each line. The writer keeps what is left
to write on a stack, texts and trees mixed, so no nesting is too deep for it. -/
namespace LispReader.Tree

variable {α : Type}

/-- The two ways in which trees are written. -/
inductive Style where
  | compact
  | indented
  deriving DecidableEq, Repr

def Style.layout : Style → Json.Layout
  | compact => .compact
  | indented => .indented

/-- What is left to write: a text, or a tree at a level of nesting. -/
inductive Pending (α : Type) where
  | text (s : String)
  | tree (t : Tree α) (level : Nat)

namespace Pending

/-- The steps that writing takes. -/
def size : Pending α → Nat
  | text _ => 1
  | tree t _ => t.size

def totalSize : List (Pending α) → Nat
  | [] => 0
  | p :: stack => p.size + totalSize stack

/-- Items at a level, with a separator in front of each. -/
def separated (separator : String) (level : Nat) : List (Tree α) → List (Pending α)
  | [] => []
  | t :: ts => .text separator :: .tree t level :: separated separator level ts

theorem totalSize_cons (p : Pending α) (stack : List (Pending α)) :
    totalSize (p :: stack) = p.size + totalSize stack := rfl

theorem totalSize_append (front back : List (Pending α)) :
    totalSize (front ++ back) = totalSize front + totalSize back := by
  induction front with
  | nil => exact (Nat.zero_add _).symm
  | cons p front ih => rw [List.cons_append, totalSize_cons, totalSize_cons, ih, Nat.add_assoc]

theorem totalSize_separated (separator : String) (level : Nat) (ts : List (Tree α)) :
    totalSize (separated separator level ts) = sizes ts := by
  induction ts with
  | nil => rfl
  | cons t ts ih =>
    simp only [separated, totalSize_cons, size, sizes, ih]
    omega

end Pending

/-- Writes what is pending behind the text `out`. A foreign leaf ends the writing. -/
def renderPending (style : Style) (out : String) (stack : List (Pending α)) :
    Except α String :=
  match stack with
  | [] => .ok out
  | .text s :: stack => renderPending style (out ++ s) stack
  | .tree (.number n) _ :: stack => renderPending style (out ++ Numeral.write n) stack
  | .tree (.symbol s) _ :: stack => renderPending style (out ++ Json.string s) stack
  | .tree (.foreign a) _ :: _ => .error a
  | .tree (.sequence head tail) level :: stack =>
    renderPending style (out ++ "[" ++ style.layout.opening level)
      (.tree head (level + 1) ::
        (Pending.separated (style.layout.separator level) (level + 1) tail ++
          .text (style.layout.closing level ++ "]") :: stack))
termination_by Pending.totalSize stack
decreasing_by
  all_goals
    simp only [Pending.totalSize_cons, Pending.totalSize_append, Pending.totalSize_separated,
      Pending.size, Tree.size]
    omega

/-- The JSON text of a tree, or the first foreign leaf from the left. -/
def render? (style : Style) (t : Tree α) : Except α String := renderPending style "" [.tree t 0]

/-- The JSON text of a tree without foreign leaves. -/
def render (style : Style) (t : ParseTree) : String :=
  match t.render? style with
  | .ok text => text

end LispReader.Tree
