/-! The kinds of token.

Nine kinds are written by a single character, their glyph. Numbers and identifiers carry the
text they were written by, their lexeme. The end of input is a kind of its own and has neither. -/
namespace LispReader

/-- The kinds, in the order in which sets of kinds are listed. -/
inductive Kind where
  | number
  | identifier
  | plus
  | minus
  | times
  | equals
  | conditional
  | lambda
  | letIn
  | leftParen
  | rightParen
  | endOfInput
  deriving DecidableEq, Repr

namespace Kind

def all : List Kind :=
  [number, identifier, plus, minus, times, equals, conditional, lambda, letIn, leftParen,
    rightParen, endOfInput]

@[simp] theorem mem_all (k : Kind) : k ∈ all := by cases k <;> decide

theorem nodup_all : all.Nodup := by decide

/-- The name of a kind in listings. -/
def name : Kind → String
  | number => "NUMBER"
  | identifier => "IDENTIFIER"
  | plus => "PLUS"
  | minus => "MINUS"
  | times => "MULT"
  | equals => "EQUALS"
  | conditional => "CONDITIONAL"
  | lambda => "LAMBDA"
  | letIn => "LET"
  | leftParen => "LPAREN"
  | rightParen => "RPAREN"
  | endOfInput => "EOF"

theorem name_injective {j k : Kind} (h : j.name = k.name) : j = k := by
  revert h; cases j <;> cases k <;> decide

/-- The kind of a given name. -/
def ofName? (s : String) : Option Kind := all.find? fun k => k.name == s

theorem ofName?_name (k : Kind) : ofName? k.name = some k := by cases k <;> decide

/-- The character that writes a token of this kind. -/
def glyph : Kind → Option Char
  | plus => some '+'
  | minus => some '−'
  | times => some '×'
  | equals => some '='
  | conditional => some '?'
  | lambda => some 'λ'
  | letIn => some '≜'
  | leftParen => some '('
  | rightParen => some ')'
  | number | identifier | endOfInput => none

/-- The kind that a character writes on its own. -/
def ofGlyph? (c : Char) : Option Kind := all.find? fun k => k.glyph == some c

/-- The tokens of this kind carry a lexeme. -/
def carriesLexeme : Kind → Bool
  | number | identifier => true
  | _ => false

/-- The name of a kind in messages. -/
def describe (k : Kind) : String :=
  match k.glyph with
  | some c => s!"'{c}'"
  | none => if k = endOfInput then "end of input" else k.name

theorem glyph_injective {j k : Kind} {c : Char} (hj : j.glyph = some c) (hk : k.glyph = some c) :
    j = k := by
  have h : j.glyph = k.glyph := hj.trans hk.symm
  have hs : j.glyph.isSome = true := by simp [hj]
  revert h hs; clear hj hk; cases j <;> cases k <;> decide

theorem ofGlyph?_eq_some_iff {c : Char} {k : Kind} : ofGlyph? c = some k ↔ k.glyph = some c := by
  constructor
  · intro h
    simpa using List.find?_some h
  · intro h
    cases hf : ofGlyph? c with
    | none => simpa [h] using List.find?_eq_none.1 hf k (mem_all k)
    | some j => exact congrArg some (glyph_injective (by simpa using List.find?_some hf) h)

theorem carriesLexeme_of_glyph {k : Kind} {c : Char} (h : k.glyph = some c) :
    k.carriesLexeme = false := by
  cases k <;> simp [glyph, carriesLexeme] at h ⊢

end Kind

end LispReader
