import LispReader.Text.Hex

/-! JSON strings in printable ASCII.

The quotation mark, the backslash and everything outside the interval from the space to the
tilde is escaped; a character beyond the basic plane becomes the two units of its surrogate
pair. -/
namespace LispReader.Json

/-- The escape of a unit of sixteen bits. -/
def unit (n : Nat) : List Char := '\\' :: 'u' :: Text.Hex.fixed 4 n

/-- One character inside a string. -/
def escape (c : Char) : List Char :=
  let n := c.toNat
  if c = '\x22' ∨ c = '\\' then ['\\', c]
  else if c = '\n' then ['\\', 'n']
  else if c = '\r' then ['\\', 'r']
  else if c = '\t' then ['\\', 't']
  else if c = '\x08' then ['\\', 'b']
  else if c = '\x0c' then ['\\', 'f']
  else if 0x20 ≤ n ∧ n ≤ 0x7E then [c]
  else if n < 0x10000 then unit n
  else unit (0xD800 + (n - 0x10000) / 0x400) ++ unit (0xDC00 + (n - 0x10000) % 0x400)

/-- A text as a JSON string. -/
def string (s : String) : String :=
  String.ofList ('\x22' :: s.toList.flatMap escape ++ ['\x22'])

example : string "λ\n" = "\"\\u03bb\\n\"" := by decide +kernel

end LispReader.Json
