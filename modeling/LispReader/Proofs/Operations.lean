import LispReader.Operation
import LispReader.Proofs.Conservation

/-! Any operations on a stack of values, in any order.

A form takes its operands one by one, but only when there are enough of them, and behind that
nothing can go wrong. So an operation that fails has changed nothing (`Effect`), and the others
build the same stack without it. The leaves on the stack, from the bottom to the top, are those of
the trees that have been pushed, in their order, and among them a label for each reduction:
`operations_atomic`. -/
namespace LispReader

/-- Of the values from the bottom to the top, the last ones are replaced. -/
theorem Form.exists_bottomUp_of_reduce {α : Type} {f : Form} {s s' : Stack (Tree α)}
    (h : f.reduce s = .ok s') :
    ∃ below operands, operands.length = f.arity ∧ s.bottomUp = below ++ operands ∧
      s'.bottomUp = below ++ [f.tree operands] := by
  obtain ⟨ts, below, hl, hs, hs'⟩ := exists_of_reduce h
  refine ⟨below.reverse, ts, hl, ?_, ?_⟩
  · rw [Stack.bottomUp, hs, List.reverse_append, List.reverse_reverse]
  · rw [Stack.bottomUp, hs', List.reverse_cons]

namespace Operation

variable {α β γ : Type} {s s' : Stack (Tree α)} {f : Form} {fault : Fault}

/-! ### Work on the stack -/

namespace Work

theorem run_bind_ok {x : Work α β} {g : β → Work α γ} {b : β}
    (h : x.run.run s = (.ok b, s')) : (x >>= g).run.run s = (g b).run.run s' := by
  rw [ExceptT.run_bind, StateT.run_bind, h]
  rfl

theorem run_bind_error {x : Work α β} {g : β → Work α γ}
    (h : x.run.run s = (.error fault, s')) : (x >>= g).run.run s = (.error fault, s') := by
  rw [ExceptT.run_bind, StateT.run_bind, h]
  rfl

theorem run_bind_get (g : Stack (Tree α) → Work α β) :
    (get >>= g).run.run s = (g s).run.run s := rfl

theorem run_pop {t : Tree α} {below : List (Tree α)} (h : s.items = t :: below) :
    pop.run.run s = (.ok t, s.drop 1) := by
  have hp : s.pop? = some (t, s.drop 1) := Stack.pop?_eq_some_iff.2 (by simp [h])
  rw [pop, run_bind_get, hp]
  rfl

/-- Values that are there can be taken. -/
theorem run_popMany {n : Nat} (h : n ≤ s.height) :
    (popMany n).run.run s = (.ok (s.items.take n), s.drop n) := by
  induction n generalizing s with
  | zero =>
    rw [Stack.drop_zero]
    rfl
  | succ n ih =>
    cases hi : s.items with
    | nil =>
      rw [s.height_eq, hi] at h
      cases h
    | cons t below =>
      have hr : (popMany n).run.run (s.drop 1) = (.ok (below.take n), s.drop (n + 1)) := by
        rw [ih (Nat.le_sub_one_of_lt h), Stack.drop_drop, Stack.items_drop, hi, Nat.add_comm]
        rfl
      rw [popMany, run_bind_ok (run_pop hi), run_bind_ok hr]
      rfl

theorem run_build {operands : List (Tree α)} (h : operands.length = f.arity) :
    (build f operands).run.run s = (.ok (f.tree operands), s) := by
  rw [build, Form.build, if_pos h]
  rfl

/-- Changing the stack value by value comes to the same as the reduction as a whole. -/
theorem run_reduce_ok (h : f.reduce s = .ok s') : (reduce f).run.run s = (.ok (), s') := by
  unfold Form.reduce at h
  split at h
  · next hl =>
    cases h
    -- As many values are taken as the form has operands, so building cannot fail behind it.
    have ho : (s.items.take f.arity).reverse.length = f.arity := by
      rw [List.length_reverse, List.length_take, ← s.height_eq]
      exact Nat.min_eq_left hl
    rw [reduce, run_bind_get]
    simp only [if_neg (Nat.not_lt.2 hl)]
    rw [run_bind_ok (run_popMany hl), run_bind_ok (run_build ho)]
    rfl
  · cases h

theorem run_reduce_error {fault : StateFault} (h : f.reduce s = .error fault) :
    (reduce f).run.run s = (.error (.parse (.state fault)), s) := by
  unfold Form.reduce at h
  split at h
  · cases h
  · next hl =>
    cases h
    rw [reduce, run_bind_get]
    simp only [if_pos (Nat.not_le.1 hl)]
    rfl

end Work

/-! ### Single operations -/

/-- The tree that an operation pushes. -/
def pushed? : Operation α → Option (Tree α)
  | push t => some t
  | leaf token => token.leaf.toOption
  | _ => none

/-- The label that an operation puts in front of values. -/
def label? : Operation α → Option String
  | reduce form => some form.label
  | _ => none

/-- What an operation can do to a stack. -/
inductive Effect (s : Stack (Tree α)) : Operation α → Performed α → Prop
  | pushed {op : Operation α} {t : Tree α} (value : op.pushed? = some t)
      (label : op.label? = none) : Effect s op (.ok none, s.push t)
  | reduced {f : Form} {s' : Stack (Tree α)} (reduces : f.reduce s = .ok s') :
      Effect s (.reduce f) (.ok none, s')
  | built {op : Operation α} (t : Tree α) (value : op.pushed? = none)
      (label : op.label? = none) : Effect s op (.ok (some t), s)
  | failed {op : Operation α} (fault : Fault) (value : op.pushed? = none) :
      Effect s op (.error fault, s)

theorem perform_leaf (s : Stack (Tree α)) (token : Token) :
    perform s (.leaf token) =
      match token.leaf with
      | .ok t => (.ok none, s.push t)
      | .error fault => (.error (.parse fault), s) := by
  rw [perform, work, Work.leaf]
  cases (token.leaf : Except ParseFault (Tree α)) <;> rfl

theorem perform_reduce (s : Stack (Tree α)) (f : Form) :
    perform s (.reduce f) =
      match f.reduce s with
      | .ok s' => (.ok none, s')
      | .error fault => (.error (.parse (.state fault)), s) := by
  rw [perform, work]
  cases hr : f.reduce s with
  | ok s' =>
    rw [Work.run_bind_ok (Work.run_reduce_ok hr)]
    rfl
  | error fault => rw [Work.run_bind_error (Work.run_reduce_error hr)]

theorem perform_build (s : Stack (Tree α)) (f : Form) (operands : List (Tree α)) :
    perform s (.build f operands) =
      match f.build operands with
      | .ok t => (.ok (some t), s)
      | .error fault => (.error (.parse (.state fault)), s) := by
  rw [perform, work, Work.build]
  cases f.build operands <;> rfl

theorem effect (s : Stack (Tree α)) (op : Operation α) : Effect s op (perform s op) := by
  cases op with
  | push t => exact .pushed rfl rfl
  | leaf token =>
    rw [perform_leaf]
    cases ht : (token.leaf : Except ParseFault (Tree α)) with
    | ok t => exact .pushed (by rw [pushed?, ht]; rfl) rfl
    | error fault => exact .failed _ (by rw [pushed?, ht]; rfl)
  | reduce form =>
    rw [perform_reduce]
    cases hr : form.reduce s with
    | ok s' => exact .reduced hr
    | error fault => exact .failed _ rfl
  | build form operands =>
    rw [perform_build]
    cases form.build operands with
    | ok t => exact .built t rfl rfl
    | error fault => exact .failed _ rfl
  | application items =>
    cases items with
    | nil => exact .failed _ rfl
    | cons head tail => exact .built _ rfl rfl

theorem eq_of_perform_error {op : Operation α} (h : perform s op = (.error fault, s')) :
    s' = s := by
  have he := effect s op
  rw [h] at he
  cases he
  rfl

theorem perform_reduce_error_iff : (perform s (.reduce f)).1 = .error fault ↔
    s.height < f.arity ∧ fault = .parse (.state (.valuesMissing f.label f.arity s.height)) := by
  rw [perform_reduce, Form.reduce]
  by_cases h : f.arity ≤ s.height
  · rw [if_pos h]
    constructor
    · intro he
      cases he
    · intro hm
      exact absurd h (Nat.not_le.2 hm.1)
  · rw [if_neg h]
    constructor
    · intro he
      cases he
      exact ⟨Nat.not_le.1 h, rfl⟩
    · rintro ⟨-, rfl⟩
      rfl

/-- The operands of a form are the topmost values, the last one on top. -/
theorem exists_perform_reduce (h : f.arity ≤ s.height) : ∃ below operands s',
    operands.length = f.arity ∧ s.bottomUp = below ++ operands ∧
      perform s (.reduce f) = (.ok none, s') ∧ s'.bottomUp = below ++ [f.tree operands] := by
  have hr : ∃ s', f.reduce s = .ok s' := ⟨_, if_pos h⟩
  obtain ⟨s', hr⟩ := hr
  obtain ⟨below, operands, hl, hs, hs'⟩ := Form.exists_bottomUp_of_reduce hr
  refine ⟨below, operands, s', hl, hs, ?_, hs'⟩
  rw [perform_reduce, hr]

/-! ### Operations one after the other -/

/-- The operations that succeed when they are performed one after the other. -/
def successes (s : Stack (Tree α)) : List (Operation α) → List (Operation α)
  | [] => []
  | op :: ops =>
    let (result, s') := perform s op
    if result.isOk then op :: successes s' ops else successes s' ops

theorem performAll_cons (s : Stack (Tree α)) (op : Operation α) (ops : List (Operation α)) :
    performAll s (op :: ops) = performAll (perform s op).2 ops := rfl

section

variable {op : Operation α} {result : Option (Tree α)}

theorem successes_cons_ok (h : perform s op = (.ok result, s')) (ops : List (Operation α)) :
    successes s (op :: ops) = op :: successes s' ops := by
  rw [successes, h]
  rfl

theorem successes_cons_error (h : perform s op = (.error fault, s')) (ops : List (Operation α)) :
    successes s (op :: ops) = successes s ops := by
  rw [successes, h, eq_of_perform_error h]
  rfl

end

/-- Performed by themselves, the operations that succeed succeed again, with the same stack. -/
theorem replay (s : Stack (Tree α)) (ops : List (Operation α)) :
    successes s (successes s ops) = successes s ops ∧
      performAll s (successes s ops) = performAll s ops := by
  induction ops generalizing s with
  | nil => exact ⟨rfl, rfl⟩
  | cons op ops ih =>
    cases hp : perform s op with
    | mk result s' =>
      rw [performAll_cons, hp]
      cases result with
      | ok result =>
        rw [successes_cons_ok hp, successes_cons_ok hp, performAll_cons, hp, (ih s').1]
        exact ⟨rfl, (ih s').2⟩
      | error fault =>
        rw [successes_cons_error hp, eq_of_perform_error hp]
        exact ih s

/-! ### Leaves -/

/-- The leaves of the values from the bottom to the top. -/
def leaves (s : Stack (Tree α)) : List (Tree α) := Tree.leavesAll s.bottomUp

/-- The leaves of a tree come behind those of the trees below it. -/
theorem leaves_push (s : Stack (Tree α)) (t : Tree α) :
    leaves (s.push t) = leaves s ++ t.leaves := by
  rw [leaves, Stack.bottomUp_push, Tree.leavesAll_append, Tree.leavesAll_singleton, leaves]

/-- The label is put between the leaves of the operands and those below them. -/
theorem exists_leaves_of_reduce (h : f.reduce s = .ok s') :
    ∃ front back, leaves s = front ++ back ∧ leaves s' = front ++ .symbol f.label :: back := by
  obtain ⟨below, operands, -, hs, hs'⟩ := Form.exists_bottomUp_of_reduce h
  refine ⟨Tree.leavesAll below, Tree.leavesAll operands, ?_, ?_⟩
  · rw [leaves, hs, Tree.leavesAll_append]
  · rw [leaves, hs', Tree.leavesAll_append, Tree.leavesAll_singleton, Form.leaves_tree]

theorem labelled_performAll {values : List (Tree α)} {labels : List String}
    (h : Labelled values labels (leaves s)) (ops : List (Operation α)) :
    Labelled (values ++ Tree.leavesAll (ops.filterMap pushed?))
      (labels ++ (successes s ops).filterMap label?) (leaves (performAll s ops)) := by
  induction ops generalizing s values labels with
  | nil =>
    show Labelled (values ++ []) (labels ++ []) _
    rw [List.append_nil, List.append_nil]
    exact h
  | cons op ops ih =>
    have he := effect s op
    generalize hp : perform s op = performed at he
    rw [performAll_cons, hp]
    cases he with
    | @pushed _ t value label =>
      have ht := h.append (.of_values t.leaves)
      rw [List.append_nil, ← leaves_push] at ht
      rw [successes_cons_ok hp, List.filterMap_cons_some value, List.filterMap_cons_none label,
        Tree.leavesAll, ← List.append_assoc]
      exact ih ht
    | @reduced form _ reduces =>
      -- Among the labels the new one comes last, but they are in no order.
      obtain ⟨front, back, hs, hs'⟩ := exists_leaves_of_reduce reduces
      rw [hs] at h
      have hl := h.insert form.label
      rw [← hs'] at hl
      rw [successes_cons_ok hp]
      exact (ih hl).perm List.perm_middle.symm
    | built t value label =>
      rw [successes_cons_ok hp, List.filterMap_cons_none value, List.filterMap_cons_none label]
      exact ih h
    | failed fault value =>
      rw [successes_cons_error hp, List.filterMap_cons_none value]
      exact ih h

/-! ### From an empty stack -/

/-- The stack that operations make of an empty one. -/
def stackOf (ops : List (Operation α)) : Stack (Tree α) := performAll (.ofList []) ops

/-- Those among them that succeed. -/
def successesOf (ops : List (Operation α)) : List (Operation α) := successes (.ofList []) ops

/-- No operation does half its work, and no leaf is lost, made or moved. -/
structure Atomic (ops : List (Operation α)) : Prop where
  /-- A further operation that fails leaves the stack as it is. -/
  unchanged : ∀ op fault s, perform (stackOf ops) op = (.error fault, s) → s = stackOf ops
  /-- The operations that succeed make the same stack by themselves, and all of them succeed. -/
  replayed : stackOf (successesOf ops) = stackOf ops ∧
    successesOf (successesOf ops) = successesOf ops
  /-- The only fault of a reduction is that there are too few values. -/
  missing : ∀ f fault, (perform (stackOf ops) (.reduce f)).1 = .error fault ↔
    (stackOf ops).height < f.arity ∧
      fault = .parse (.state (.valuesMissing f.label f.arity (stackOf ops).height))
  /-- If there are enough, the topmost ones are replaced, in their order, and none below them. -/
  reduced : ∀ f, f.arity ≤ (stackOf ops).height → ∃ below operands s,
    operands.length = f.arity ∧ (stackOf ops).bottomUp = below ++ operands ∧
      perform (stackOf ops) (.reduce f) = (.ok none, s) ∧
      s.bottomUp = below ++ [.sequence (.symbol f.label) operands]
  /-- The leaves are those of the trees that have been pushed, in their order, and a label for each
  reduction that has succeeded. -/
  labelled : Labelled (Tree.leavesAll (ops.filterMap pushed?)) ((successesOf ops).filterMap label?)
    (leaves (stackOf ops))

/-- Whatever operations are performed on a stack that is empty at first, each of them is done as a
whole or not at all, and the leaves on the stack are those that have been pushed, and labels. -/
theorem operations_atomic (ops : List (Operation α)) : Atomic ops where
  unchanged _ _ _ := eq_of_perform_error
  replayed := (replay _ ops).symm
  missing _ _ := perform_reduce_error_iff
  reduced _ := exists_perform_reduce
  labelled := by
    have hl : Labelled [] [] (leaves (.ofList ([] : List (Tree α)))) := .nil
    exact labelled_performAll hl ops

/-- The first reduction to a pair finds only one value and changes nothing. -/
example :
    let pair : Form := ⟨.plus, "PAIR", [.expression, .expression]⟩
    let ops : List (Operation Empty) :=
      [.push (.symbol "x"), .reduce pair, .reduce ⟨.plus, "UNIT", []⟩, .reduce pair]
    (stackOf ops).bottomUp =
      [.sequence (.symbol "PAIR") [.symbol "x", .sequence (.symbol "UNIT") []]] := by
  rfl

end Operation

end LispReader
