import LispReader.Text.Hex
import LispReader.Text.Printable

/-! Texts in quotation marks, as messages show them.

The mark is the single quote, unless the text holds single quotes and no double ones. The mark
itself, the backslash and characters that are not printable are escaped, so a quoted text never
breaks a line. -/
namespace LispReader.Text.Quoted

/-- The mark around a text. -/
def mark (cs : List Char) : Char :=
  if cs.contains '\x27' && !cs.contains '\x22' then '\x22' else '\x27'

/-- One character between the given marks. -/
def escape (mark c : Char) : List Char :=
  if c = mark ∨ c = '\\' then ['\\', c]
  else if c = '\n' then ['\\', 'n']
  else if c = '\r' then ['\\', 'r']
  else if c = '\t' then ['\\', 't']
  else if Printable.isPrintable c then [c]
  else if c.toNat < 0x100 then '\\' :: 'x' :: Hex.fixed 2 c.toNat
  else if c.toNat < 0x10000 then '\\' :: 'u' :: Hex.fixed 4 c.toNat
  else '\\' :: 'U' :: Hex.fixed 8 c.toNat

/-- A text with its marks. -/
def quote (s : String) : String :=
  let m := mark s.toList
  String.ofList (m :: s.toList.flatMap (escape m) ++ [m])

example : quote "junk" = "'junk'" := by decide +kernel
example : quote "it's\n" = "\"it's\\n\"" := by decide +kernel

end LispReader.Text.Quoted
