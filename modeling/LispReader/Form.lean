import LispReader.Fault
import LispReader.Stack
import LispReader.Tree

/-! Forms: the parenthesised expressions that a leading glyph introduces.

A form is known by its leader, the label at the head of the resulting sequence, and the sort of
each of its operands. Values that wait to be combined are kept on a stack, the latest one on
top. -/
namespace LispReader

/-- What may stand at an operand's place. -/
inductive Operand where
  | expression
  | identifier
  deriving DecidableEq, Repr

structure Form where
  leader : Kind
  label : String
  operands : List Operand
  deriving DecidableEq, Repr

namespace Form

def arity (f : Form) : Nat := f.operands.length

/-- The forms of the language. -/
def all : List Form :=
  let e := Operand.expression
  let i := Operand.identifier
  [⟨.plus, "PLUS", [e, e]⟩, ⟨.times, "MULT", [e, e]⟩, ⟨.equals, "EQUALS", [e, e]⟩,
    ⟨.minus, "MINUS", [e, e]⟩, ⟨.conditional, "CONDITIONAL", [e, e, e]⟩,
    ⟨.lambda, "LAMBDA", [i, e]⟩, ⟨.letIn, "LET", [i, e, e]⟩]

/-- The form that a kind introduces. -/
def ofLeader? (kind : Kind) : Option Form := all.find? (·.leader = kind)

theorem leader_of_ofLeader? {kind : Kind} {f : Form} (h : ofLeader? kind = some f) :
    f.leader = kind := by
  simpa using List.find?_some h

variable {α : Type}

/-- The label in front of the operands. -/
def tree (f : Form) (operands : List (Tree α)) : Tree α := .sequence (.symbol f.label) operands

/-- The tree of a form, if the number of operands is right. -/
def build (f : Form) (operands : List (Tree α)) : Except StateFault (Tree α) :=
  if operands.length = f.arity then .ok (f.tree operands)
  else .error (.operandCount f.label f.arity operands.length)

/-- Replaces the operands of a form on top of a stack of values by the tree built from them. The
rightmost operand is on top. -/
def reduce (f : Form) (values : Stack (Tree α)) : Except StateFault (Stack (Tree α)) :=
  if f.arity ≤ values.height then
    .ok ((values.drop f.arity).push (f.tree (values.items.take f.arity).reverse))
  else .error (.valuesMissing f.label f.arity values.height)

end Form

/-- The tree that a number or an identifier stands for. -/
def Token.leaf {α : Type} (t : Token) : Except ParseFault (Tree α) :=
  match t.lexeme with
  | none => .error (.state (.noValue t.kind))
  | some lexeme =>
    if t.kind = .number then
      match Numeral.read lexeme with
      | .ok n => .ok (.number n)
      | .error fault => .error (.numeral fault)
    else .ok (.symbol lexeme)

end LispReader
