import LispReader.Numeral
import LispReader.Text.Quoted
import LispReader.Tree

/-! Values of a host program that are neither trees nor data of trees. -/
namespace LispReader

inductive Foreign where
  | none
  | truth (value : Bool)
  | integer (value : Int)
  | text (value : String)
  /-- A number with a fractional part, known by its spelling. -/
  | real (spelling : String)
  /-- A mapping without entries. -/
  | mapping
  deriving DecidableEq, Repr

namespace Foreign

/-- The value as messages show it. -/
def spelling : Foreign → String
  | none => "None"
  | truth true => "True"
  | truth false => "False"
  | integer n => Numeral.write n
  | text s => Text.Quoted.quote s
  | real s => s
  | mapping => "\x7b\x7d"

/-- What is said of a foreign leaf of a tree. -/
def leafMessage (value : Foreign) : String := s!"not a parse tree node: {value.spelling}"

/-- What is said of a foreign value among the data of a tree. -/
def datumMessage (value : Foreign) : String :=
  s!"cannot convert {value.spelling} to a parse tree node"

end Foreign

end LispReader
