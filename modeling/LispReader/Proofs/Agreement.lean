import LispReader.Report
import LispReader.Proofs.Programs

/-! The two parsers agree.

The bodies of parenthesised expressions are parsed at two places: by the table, and by the stack
machine for whatever stands inside an application. Parsing an expression by the machine and then
requiring the end of input is a second parser for programs. Where an expression can begin with the
first token, both end alike, whatever comes behind: `parsers_agree`. Where none can, both refuse
the first token, and only what they say they were parsing is different. -/
namespace LispReader

namespace Application
open Descent

/-- What has been parsed must end in front of the end of input. -/
def requireEnd : Result → Result
  | (.error fault, c) => (.error fault, c)
  | (.ok t, c) =>
    match c.expect .endOfInput with
    | .error fault => (.error (.refused fault), c)
    | .ok (_, c) => (.ok t, c)

/-- An expression, parsed by the stack machine, and the end of input behind it. -/
def wholeExpression (c : Cursor) : Result := requireEnd (oneExpression c)

theorem requireEnd_ok (t : ParseTree) (c : Cursor) :
    requireEnd (.ok t, c) = ((token .endOfInput c).map fun _ => t).result := by
  by_cases h : c.current.kind = .endOfInput
  · rw [token_of_eq h, requireEnd, Cursor.expect, if_pos h]
    rfl
  · rw [token_of_ne h, requireEnd, Cursor.expect, if_neg h]
    rfl

theorem wholeExpression_eq (c : Cursor) : wholeExpression c = (program c).result := by
  rw [wholeExpression, oneExpression_eq, program, Reply.result, Reply.result, Reply.elim_weaken,
    Reply.elim_bind]
  cases expression c with
  | error stop => rfl
  | ok r => exact requireEnd_ok r.value r.cursor

theorem wholeExpression_of_not_mem {c : Cursor} (h : c.current.kind ∉ Grammar.expressionFirst) :
    wholeExpression c = stop (.refused (.unexpected c.current
      (Grammar.standard.expected .expression) Nonterminal.expression.name)) c := by
  rw [wholeExpression_eq, program, expression_other h]
  rfl

end Application

/-! ### Reports -/

namespace SyntaxFault

/-- Reports of one token that differ in what was being parsed, and in the message that says so. -/
structure DifferInContext (f g : SyntaxFault) : Prop where
  report_eq : f.report = { g.report with message := f.message, context := f.context? }
  message_ne : f.message ≠ g.message

theorem message_unexpected (found : Token) (expected : List Kind) (context : String) :
    message (.unexpected found expected context) =
      "unexpected " ++ found.describe ++ " " ++
        s!"at line {found.position.line}, column {found.position.column}" ++ " while parsing " ++
        context ++ "; expected " ++ oneOf expected := rfl

theorem differInContext_unexpected (found : Token) (expected : List Kind)
    {context context' : String} (h : context.length ≠ context'.length) :
    DifferInContext (.unexpected found expected context) (.unexpected found expected context') where
  report_eq := rfl
  message_ne := by
    intro hm
    rw [message_unexpected, message_unexpected] at hm
    have hl := congrArg String.length hm
    simp only [String.length_append] at hl
    omega

end SyntaxFault

namespace Derivation
open Application (wholeExpression wholeExpression_eq wholeExpression_of_not_mem stop)

/-- With the first token of a program either parser ends like the other one; in front of any other
token both refuse it, with reports that differ in what was being parsed. -/
theorem parsers_agree {tokens : List Token} (h : Terminated tokens) :
    ∃ first c o, tokens.head? = some first ∧ Cursor.ofTokens? tokens = some c ∧
      parseTokens? tokens = some o ∧
      (first.kind ∈ [.number, .identifier, .leftParen] →
        (o.result, o.cursor) = wholeExpression c) ∧
      (first.kind ∉ [.number, .identifier, .leftParen] →
        ∃ f g : SyntaxFault, (o.result, o.cursor) = stop (.refused f) c ∧
          wholeExpression c = stop (.refused g) c ∧ f.DifferInContext g ∧
          f.context? = some "Program" ∧ g.context? = some "Expr" ∧
          f.report.code = "unexpected-token" ∧ f.report.token = some first) := by
  obtain ⟨c, hc, -, ha, rest, ht⟩ := h.exists_cursor
  have hf : tokens.head? = some c.current := by
    rw [ht, ← ha, Cursor.current]
    cases c.ahead <;> rfl
  have hm : c.current.kind ∈ [Kind.number, .identifier, .leftParen] ↔
      c.current.kind ∈ Grammar.expressionFirst := by
    cases c.current.kind <;> decide
  refine ⟨c.current, c, parseStandard c, hf, hc, by rw [parseTokens?, hc]; rfl, ?_, ?_⟩
  · intro hk
    rw [parseStandard_eq (hm.1 hk), wholeExpression_eq]
  · intro hk
    have hk := mt hm.2 hk
    refine ⟨_, _, parseStandard_of_not_mem hk, wholeExpression_of_not_mem hk, ?_, rfl, rfl, rfl,
      rfl⟩
    exact SyntaxFault.differInContext_unexpected _ _ (by decide)

/-- The tokens of `(= x`, a form whose second operand is missing. -/
def unclosed : List Token :=
  [Kind.leftParen, .equals, .identifier, .endOfInput].map .sample

theorem parsers_agree_unclosed : Terminated unclosed ∧
    ∃ c o, Cursor.ofTokens? unclosed = some c ∧ parseTokens? unclosed = some o ∧
      (o.result, o.cursor) = wholeExpression c := by
  have h : Terminated unclosed := ⟨_, rfl, rfl⟩
  obtain ⟨first, c, o, hf, hc, ho, hagree, -⟩ := parsers_agree h
  have hk : first.kind = .leftParen := by
    cases hf
    rfl
  exact ⟨h, c, o, hc, ho, hagree (by rw [hk]; decide)⟩

end Derivation

end LispReader
