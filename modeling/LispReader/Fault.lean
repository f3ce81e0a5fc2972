import LispReader.Token

/-! What can end the parse of a token list.

A syntax fault is the ordinary refusal of a list that does not belong to the language. A numeral
may denote no integer. A state fault says that a grammar and its actions do not fit together. -/
namespace LispReader

inductive SyntaxFault where
  /-- One kind was required and another token was found. -/
  | mismatch (expected : Kind) (found : Token)
  /-- Nothing that is parsed in this context starts with the token. -/
  | unexpected (found : Token) (expected : List Kind) (context : String)
  deriving DecidableEq

/-- The token at which the fault was noticed. -/
def SyntaxFault.token : SyntaxFault → Token
  | mismatch _ found => found
  | unexpected found _ _ => found

/-- The kinds that would have been accepted. -/
def SyntaxFault.expected : SyntaxFault → List Kind
  | mismatch expected _ => [expected]
  | unexpected _ expected _ => expected

inductive StateFault where
  /-- A token of this kind stands for no tree. -/
  | noValue (kind : Kind)
  /-- A form was built from a wrong number of operands. -/
  | operandCount (label : String) (arity count : Nat)
  /-- The items of a form were more than its operands, so that none was left to be read. -/
  | noOperand
  /-- A form found too few values to combine. -/
  | valuesMissing (label : String) (arity count : Nat)
  /-- Something that is no grammar symbol had to be processed. -/
  | strayWord (word : String)
  | noTree
  /-- More than one value was left in the end. -/
  | manyValues (count : Nat)
  deriving DecidableEq, Repr

def StateFault.message : StateFault → String
  | noValue kind => s!"{kind.name} token carries no value"
  | operandCount label arity count => s!"{label} expects {arity} operands, got {count}"
  | noOperand => "tuple index out of range"
  | valuesMissing label arity count =>
    s!"{label} needs {arity} values but the value stack holds {count}"
  | strayWord word => s!"unknown grammar symbol on control stack: {Text.Quoted.quote word}"
  | noTree => "parse completed but no tree was produced"
  | manyValues count => s!"parse completed with {count} values on the value stack"

inductive ParseFault where
  | refused (fault : SyntaxFault)
  | numeral (fault : Numeral.Fault)
  | state (fault : StateFault)
  deriving DecidableEq

end LispReader
