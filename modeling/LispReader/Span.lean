import LispReader.Token

/-! Spans of source text, as far as they are known. -/
namespace LispReader

/-- A file, a start, and an end behind the last character. Each part may be unknown. -/
structure Span where
  file : Option String := none
  line : Option Int := none
  column : Option Int := none
  endLine : Option Int := none
  endColumn : Option Int := none
  deriving DecidableEq

namespace Span

/-- A start without an end. -/
def ofStart (file : Option String) (line column : Int) : Span :=
  { file, line := some line, column := some column }

/-- The text of a token; empty for the end of input. -/
def ofToken (file : Option String) (t : Token) : Span where
  file
  line := some t.position.line
  column := some t.position.column
  endLine := some t.position.line
  endColumn := some (t.position.column + t.text.length : Nat)

/-- File, line and column; an unnamed file and unknown numbers have a text of their own. -/
def label (s : Span) : String :=
  let file := (s.file.filter (· ≠ "")).getD "<input>"
  let number (n : Option Int) : String := n.elim "?" Numeral.write
  s!"{file}:{number s.line}:{number s.column}"

end Span

end LispReader
