/-! Line ends of input text.

Files and standard input may end a line with a line feed, a carriage return or both in this
order; all three are read as one line feed. -/
namespace LispReader.Text.Newline

/-- Every line end as a line feed. -/
def unify : List Char → List Char
  | '\r' :: '\n' :: rest => '\n' :: unify rest
  | '\r' :: rest => '\n' :: unify rest
  | c :: rest => c :: unify rest
  | [] => []

/-- The lines of a text without their line feeds. A last line may lack its line feed; behind a
final line feed there is no further line. -/
def lines (cs : List Char) : List (List Char) :=
  let pieces := cs.splitOn '\n'
  if pieces.getLast? = some [] then pieces.dropLast else pieces

/-- No carriage return is left. -/
theorem not_mem_unify (cs : List Char) : '\r' ∉ unify cs := by
  fun_induction unify cs <;> simp_all [eq_comm]

end LispReader.Text.Newline
