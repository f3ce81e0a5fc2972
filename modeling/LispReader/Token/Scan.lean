import LispReader.Token

/-! Tokens of a source text.

A text is cut into gaps, glyphs and words. A word is a maximal run: of digits, or of letters and
digits behind a letter; both classes are ASCII. A number must not run into a letter. Every other
character is a fault, and scanning stops at the first one. The tokens of a text end in exactly
one end of input, placed behind the last character. -/
namespace LispReader

/-- Why a character cannot be read. -/
inductive LexicalCause where
  | hyphenMinus
  | letterInNumber
  | unexpectedCharacter
  deriving DecidableEq, Repr

/-- A character that cannot be read, with its position. -/
structure LexicalFault where
  cause : LexicalCause
  char : Char
  position : Position
  deriving DecidableEq, Repr

namespace Scan

/-- Characters that separate tokens and belong to none. -/
def isGap (c : Char) : Bool := c == ' ' || c == '\t' || c == '\r' || c == '\n'

/-- The fault of a character at which no token can begin. -/
def faultAt (c : Char) (position : Position) : LexicalFault :=
  ⟨if c = '-' then .hyphenMinus else .unexpectedCharacter, c, position⟩

/-- Scans the text from a position on; `done` holds the tokens before it, the last one first. -/
def scanFrom (position : Position) (done : List Token) (cs : List Char) :
    Except LexicalFault (List Token) :=
  match cs with
  | [] => .ok (Token.endOfInput position :: done).reverse
  | c :: cs =>
    if isGap c then scanFrom (position.after c) done cs
    else match h : Kind.ofGlyph? c with
    | some kind =>
      let token := Token.bare kind position
        (Kind.carriesLexeme_of_glyph (Kind.ofGlyph?_eq_some_iff.1 h))
      scanFrom (position.after c) (token :: done) cs
    | none =>
      if c.isDigit then
        let digits := c :: cs.takeWhile Char.isDigit
        let rest := cs.dropWhile Char.isDigit
        let token := Token.number (String.ofList digits) position
        match rest.head?.filter Char.isAlpha with
        | some letter => .error ⟨.letterInNumber, letter, position.along digits⟩
        | none => scanFrom (position.along digits) (token :: done) rest
      else if c.isAlpha then
        let letters := c :: cs.takeWhile Char.isAlphanum
        let rest := cs.dropWhile Char.isAlphanum
        let token := Token.identifier (String.ofList letters) position
        scanFrom (position.along letters) (token :: done) rest
      else .error (faultAt c position)
termination_by cs.length
decreasing_by
  all_goals simp only [List.length_cons]
  all_goals have := (List.dropWhile_suffix (l := cs) Char.isDigit).length_le
  all_goals have := (List.dropWhile_suffix (l := cs) Char.isAlphanum).length_le
  all_goals omega

theorem getLast?_scanFrom {position : Position} {done tokens : List Token} {cs : List Char}
    (h : scanFrom position done cs = .ok tokens) :
    ∃ p, tokens.getLast? = some (Token.endOfInput p) := by
  fun_induction scanFrom position done cs with
  | case1 position done => cases h; exact ⟨position, by simp⟩
  | case2 _ _ _ _ _ ih => exact ih h
  | case3 _ _ _ _ _ _ _ _ ih => exact ih h
  | case4 => simp_all
  | case5 _ _ _ _ _ _ _ _ _ _ _ ih => exact ih h
  | case6 _ _ _ _ _ _ _ _ _ _ _ ih => exact ih h
  | case7 => cases h

end Scan

/-- The tokens of a text, or its first fault. -/
def scan (source : String) : Except LexicalFault (List Token) :=
  Scan.scanFrom .start [] source.toList

/-- The tokens of a text end in an end of input. -/
theorem getLast?_scan {source : String} {tokens : List Token} (h : scan source = .ok tokens) :
    ∃ p, tokens.getLast? = some (Token.endOfInput p) :=
  Scan.getLast?_scanFrom h

end LispReader
