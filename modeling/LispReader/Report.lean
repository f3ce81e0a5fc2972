import LispReader.Fault
import LispReader.Text.Hex
import LispReader.Token.Scan

/-! Reports: what is told about a fault.

A report has a message, a place, a short code that does not change, and details by which tools
can tell faults apart. Every lexical or syntax fault has its report; reports can be made freely
as well. -/
namespace LispReader

structure LexicalReport where
  message : String
  line : Int
  column : Int
  char : String
  code : String := "unexpected-character"
  hint : Option String := none
  deriving DecidableEq

structure SyntaxReport where
  message : String
  line : Int
  column : Int
  found : Kind
  expected : List Kind := []
  context : Option String := none
  code : String := "unexpected-token"
  token : Option Token := none
  deriving DecidableEq

/-! ### Lexical faults -/

namespace LexicalFault

def place (f : LexicalFault) : String :=
  s!"at line {f.position.line}, column {f.position.column}"

def message (f : LexicalFault) : String :=
  match f.cause with
  | .hyphenMinus =>
    s!"invalid character '-' (ASCII hyphen-minus U+002D) {f.place}; " ++
      "did you mean '−' (minus sign U+2212)?"
  | .letterInNumber => s!"invalid character '{f.char}' in number {f.place}"
  | .unexpectedCharacter =>
    s!"unexpected character '{f.char}' ({Text.Hex.codePoint f.char}) {f.place}"

def code (f : LexicalFault) : String :=
  match f.cause with
  | .hyphenMinus => "hyphen-minus"
  | .letterInNumber => "malformed-number"
  | .unexpectedCharacter => "unexpected-character"

def hint (f : LexicalFault) : Option String :=
  match f.cause with
  | .hyphenMinus => some "use '−' (U+2212) for subtraction"
  | _ => none

def report (f : LexicalFault) : LexicalReport where
  message := f.message
  line := f.position.line
  column := f.position.column
  char := f.char.toString
  code := f.code
  hint := f.hint

end LexicalFault

/-! ### Syntax faults -/

/-- Alternatives as messages list them. -/
def oneOf : List Kind → String
  | [] => "nothing"
  | [kind] => kind.describe
  | kinds@(_ :: _ :: _) =>
    ", ".intercalate (kinds.dropLast.map Kind.describe) ++ " or " ++
      (kinds.getLast?.elim "" Kind.describe)

namespace SyntaxFault

def message (f : SyntaxFault) : String :=
  let place := s!"at line {f.token.position.line}, column {f.token.position.column}"
  match f with
  | mismatch expected found =>
    s!"expected {expected.describe} but found {found.describe} {place}"
  | unexpected found expected context =>
    s!"unexpected {found.describe} {place} while parsing {context}; expected {oneOf expected}"

def context? : SyntaxFault → Option String
  | mismatch _ _ => none
  | unexpected _ _ context => some context

def code : SyntaxFault → String
  | mismatch _ _ => "token-mismatch"
  | unexpected _ _ _ => "unexpected-token"

def report (f : SyntaxFault) : SyntaxReport where
  message := f.message
  line := f.token.position.line
  column := f.token.position.column
  found := f.token.kind
  expected := f.expected
  context := f.context?
  code := f.code
  token := some f.token

end SyntaxFault

def ParseFault.message : ParseFault → String
  | refused fault => fault.message
  | numeral fault => fault.message
  | state fault => fault.message

end LispReader
