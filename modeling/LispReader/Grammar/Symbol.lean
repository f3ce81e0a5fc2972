import LispReader.Form

/-! The symbols of a grammar's right-hand sides. -/
namespace LispReader

inductive Nonterminal where
  | program
  | expression
  | parenBody
  deriving DecidableEq, Repr

namespace Nonterminal

/-- The nonterminals in the order of listings. -/
def all : List Nonterminal := [program, expression, parenBody]

@[simp] theorem mem_all (nt : Nonterminal) : nt ∈ all := by cases nt <;> decide

theorem nodup_all : all.Nodup := by decide

def name : Nonterminal → String
  | program => "Program"
  | expression => "Expr"
  | parenBody => "ParenBody"

def ofName? (s : String) : Option Nonterminal := all.find? fun nt => nt.name == s

theorem ofName?_name (nt : Nonterminal) : ofName? nt.name = some nt := by cases nt <;> decide

end Nonterminal

/-- A terminal is matched, a nonterminal is expanded, and an action combines values. A stray word
is none of these and cannot be processed. -/
inductive Symbol where
  | terminal (kind : Kind)
  | nonterminal (nt : Nonterminal)
  | action (form : Form)
  | stray (word : String)
  deriving DecidableEq, Repr

namespace Symbol

def text : Symbol → String
  | terminal kind => kind.glyph.elim kind.name fun c => s!"'{c}'"
  | nonterminal nt => nt.name
  | action form => "\x7b" ++ form.label ++ "\x7d"
  | stray word => word

end Symbol

end LispReader
