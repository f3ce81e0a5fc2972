/-! Positions in a text by line and column, both counted from one.

A column counts code points. Only a line feed ends a line. -/
namespace LispReader

structure Position where
  line : Nat
  column : Nat
  one_le_line : 1 ≤ line := by omega
  one_le_column : 1 ≤ column := by omega
  deriving DecidableEq, Repr

namespace Position

/-- The position of the first character. -/
def start : Position := { line := 1, column := 1 }

/-- The position behind a character. -/
def after (p : Position) (c : Char) : Position :=
  if c = '\n' then { line := p.line + 1, column := 1 }
  else { p with column := p.column + 1, one_le_column := by omega }

/-- The position behind a text. -/
def along (p : Position) (cs : List Char) : Position := cs.foldl after p

@[simp] theorem along_nil (p : Position) : p.along [] = p := rfl

@[simp] theorem along_cons (p : Position) (c : Char) (cs : List Char) :
    p.along (c :: cs) = (p.after c).along cs := rfl

theorem along_append (p : Position) (front back : List Char) :
    p.along (front ++ back) = (p.along front).along back := List.foldl_append

/-- The position with the given coordinates, if both are at least one. -/
def ofCoordinates? (line column : Int) : Option Position :=
  if h : 1 ≤ line ∧ 1 ≤ column then some { line := line.toNat, column := column.toNat }
  else none

def text (p : Position) : String := s!"{p.line}:{p.column}"

end Position

end LispReader
