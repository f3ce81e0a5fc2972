import LispReader.Grammar.Table

/-! The grammar of the language.

A program is an expression. An expression is a number, an identifier or a body in parentheses. A
body is a form, its leader followed by its operands, or an application: a function and its
arguments, which the variadic production stands for. -/
namespace LispReader.Grammar

/-- The production of a form: the leader, the operands, and the action that combines them. -/
def formProduction (id : Int) (form : Form) : Production where
  id
  lhs := .parenBody
  rhs :=
    .terminal form.leader ::
      (form.operands.map fun
        | .expression => .nonterminal .expression
        | .identifier => .terminal .identifier) ++ [.action form]
  first := .ofList [form.leader]

/-- The kinds with which an expression starts. -/
def expressionFirst : KindSet := .ofList [.number, .identifier, .leftParen]

/-- The productions by number; those of the forms are five to eleven. -/
def productions : List Production :=
  [{ id := 1, lhs := .program, rhs := [.nonterminal .expression], first := expressionFirst },
    { id := 2, lhs := .expression, rhs := [.terminal .number], first := .ofList [.number] },
    { id := 3, lhs := .expression, rhs := [.terminal .identifier]
      first := .ofList [.identifier] },
    { id := 4, lhs := .expression
      rhs := [.terminal .leftParen, .nonterminal .parenBody, .terminal .rightParen]
      first := .ofList [.leftParen] }] ++
  Form.all.zipIdx.map (fun (form, i) => formProduction (5 + i) form) ++
  [{ id := 12, lhs := .parenBody, rhs := [.nonterminal .expression], first := expressionFirst
     variadic := true }]

/-- The parse table of the language. -/
def standard : Table := ⟨productions, by decide⟩

example : standard.size = 16 := by decide

end LispReader.Grammar
