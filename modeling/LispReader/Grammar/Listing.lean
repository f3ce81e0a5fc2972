import LispReader.Grammar.Table
import LispReader.Text.Column

/-! Parse tables as text: the productions, an empty line, and the covered cells. -/
namespace LispReader.Table

open Text (alignLeft alignRight)

def productionLine (p : Production) : String :=
  s!"  {alignRight 2 (Numeral.write p.id)}. {p.text}"

def rowLine : Nonterminal × Kind × Int → String
  | (nt, kind, id) =>
    s!"  {alignLeft 10 nt.name} {alignLeft 14 kind.describe} -> {Numeral.write id}"

def listing (t : Table) : List String :=
  "Productions:" :: t.productions.map productionLine ++
    "" :: "Parse table:" :: t.rows.map rowLine

end LispReader.Table
