import LispReader.Form
import LispReader.Report

/-! Operations on a stack of values.

Whoever builds trees by hand pushes trees and the values of tokens on a stack, and has forms combine
the topmost ones. The stack is changed where it is, one value at a time: when an operation fails on
its way, what it has done so far is not taken back, and the next one finds what the failed one has
left. -/
namespace LispReader

inductive Operation (α : Type) where
  | push (t : Tree α)
  /-- Pushes the value of a token. -/
  | leaf (token : Token)
  | reduce (form : Form)
  /-- Builds the tree of a form from operands that are not on the stack. -/
  | build (form : Form) (operands : List (Tree α))
  | application (items : List (Tree α))

namespace Operation

variable {α : Type}

inductive Fault where
  | parse (fault : ParseFault)
  /-- A value was to be taken from an empty stack. -/
  | emptyStack
  /-- An application was to be built of no item. -/
  | noItem
  deriving DecidableEq

def Fault.message : Fault → String
  | parse fault => fault.message
  | emptyStack => "pop from empty list"
  | noItem => Tree.emptyMessage

/-! ### Work on the stack -/

/-- Work on a stack of values, which may fail and leaves a stack in either case. -/
abbrev Work (α : Type) := ExceptT Fault (StateM (Stack (Tree α)))

namespace Work

def push (t : Tree α) : Work α Unit := modify (·.push t)

/-- Takes the value on top. -/
def pop : Work α (Tree α) := do
  match (← get).pop? with
  | some (t, below) =>
    set below
    return t
  | none => throw .emptyStack

/-- Takes so many values from the top, the topmost one first. -/
def popMany : Nat → Work α (List (Tree α))
  | 0 => return []
  | n + 1 => do
    let t ← pop
    let ts ← popMany n
    return t :: ts

def leaf (token : Token) : Work α Unit :=
  match token.leaf with
  | .ok t => push t
  | .error fault => throw (.parse fault)

def build (f : Form) (operands : List (Tree α)) : Work α (Tree α) :=
  match f.build operands with
  | .ok t => return t
  | .error fault => throw (.parse (.state fault))

/-- Takes the operands of a form, the rightmost one first, and pushes the tree built from them. -/
def reduce (f : Form) : Work α Unit := do
  let height := (← get).height
  if height < f.arity then
    throw (.parse (.state (.valuesMissing f.label f.arity height)))
  let operands ← popMany f.arity
  let t ← build f operands.reverse
  push t

def application (items : List (Tree α)) : Work α (Tree α) :=
  match Tree.ofItems? items with
  | some t => return t
  | none => throw .noItem

end Work

/-- What an operation does, and the tree that it gives if it gives one. -/
def work : Operation α → Work α (Option (Tree α))
  | push t => do
    Work.push t
    return none
  | leaf token => do
    Work.leaf token
    return none
  | reduce form => do
    Work.reduce form
    return none
  | build form operands => return some (← Work.build form operands)
  | application items => return some (← Work.application items)

/-- What an operation gives, or its fault, and the stack that is left. -/
abbrev Performed (α : Type) := Except Fault (Option (Tree α)) × Stack (Tree α)

def perform (s : Stack (Tree α)) (op : Operation α) : Performed α := op.work.run.run s

/-- The stack behind operations that are performed one after the other, whatever becomes of each. -/
def performAll (s : Stack (Tree α)) (ops : List (Operation α)) : Stack (Tree α) :=
  ops.foldl (fun s op => (perform s op).2) s

end Operation

end LispReader
