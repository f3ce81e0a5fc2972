import LispReader.Kind
import LispReader.Position
import LispReader.Numeral

/-! Tokens: a kind, the lexeme if the kind carries one, and the position of the first
character. -/
namespace LispReader

structure Token where
  kind : Kind
  lexeme : Option String
  position : Position
  isSome_lexeme : lexeme.isSome = kind.carriesLexeme
  deriving DecidableEq

namespace Token

/-- Why parts do not make a token. -/
inductive Fault where
  | lexemeMissing (kind : Kind)
  | lexemeSurplus (kind : Kind)
  | position (line column : Int)
  deriving DecidableEq, Repr

def Fault.message : Fault → String
  | .lexemeMissing kind => s!"{kind.name} token requires a lexeme"
  | .lexemeSurplus kind => s!"{kind.name} token does not take a lexeme"
  | .position line column =>
    s!"token position must be 1-based, got {Numeral.write line}:{Numeral.write column}"

/-- The token made of the given parts; the lexeme is checked before the position. -/
def ofParts (kind : Kind) (lexeme : Option String) (line column : Int) : Except Fault Token :=
  if h : lexeme.isSome = kind.carriesLexeme then
    match Position.ofCoordinates? line column with
    | some position => .ok ⟨kind, lexeme, position, h⟩
    | none => .error (.position line column)
  else .error (if kind.carriesLexeme then .lexemeMissing kind else .lexemeSurplus kind)

/-- The token of a kind that carries no lexeme. -/
def bare (kind : Kind) (position : Position) (h : kind.carriesLexeme = false) : Token :=
  ⟨kind, none, position, by simp [h]⟩

def endOfInput (position : Position) : Token := bare .endOfInput position rfl

def number (digits : String) (position : Position) : Token := ⟨.number, some digits, position, rfl⟩

def identifier (name : String) (position : Position) : Token :=
  ⟨.identifier, some name, position, rfl⟩

/-- The source text of a token: its lexeme or its glyph, and nothing for the end of input. -/
def text (t : Token) : String := t.lexeme.getD (t.kind.glyph.elim "" Char.toString)

/-- The token as messages name it. -/
def describe (t : Token) : String :=
  match t.lexeme with
  | some lexeme => s!"{t.kind.name} '{lexeme}'"
  | none => t.kind.describe

/-- The token with its position, as listings show it. -/
def listing (t : Token) : String :=
  match t.lexeme with
  | some lexeme => s!"Token({t.kind.name}, '{lexeme}', {t.position.text})"
  | none => s!"Token({t.kind.name}, {t.position.text})"

/-- One line for each token that stands for source text. -/
def listings (tokens : List Token) : List String :=
  (tokens.filter (·.kind ≠ .endOfInput)).map listing

end Token

end LispReader
