import LispReader.Cursor
import LispReader.Grammar.Standard

/-! Applications, and expressions within them.

The repetition in an application has no finite production, so applications are parsed apart from
the table, and with them whatever they contain. Unfinished constructs are kept on a stack, the
innermost one first, so no nesting is too deep. Each step finishes a construct, or consumes a
token; `measure` bounds their number.

The three entries parse an application, one expression, and the body of a parenthesised
expression. They read the language of the standard grammar. -/
namespace LispReader.Application

/-- What an unfinished construct is. -/
inductive Shape where
  /-- One expression, which is the result. -/
  | single
  /-- A form, whose operands are the items. -/
  | form (form : Form)
  /-- Any number of expressions, but at least one. -/
  | application
  deriving DecidableEq

/-- An unfinished construct: its items so far, the last one first, and whether a right
parenthesis follows it. -/
structure Frame where
  shape : Shape
  closes : Bool
  items : List ParseTree := []

/-- The tree of a construct that is finished in front of the given kind. A form is finished when
its items are as many as its operands, which is checked again when it is built. -/
def Frame.finished? (f : Frame) (next : Kind) : Option (Except StateFault ParseTree) :=
  match f.shape with
  | .single => f.items.head?.map .ok
  | .form form =>
    if f.items.length = form.arity then some (form.build f.items.reverse) else none
  | .application =>
    if next ∈ Grammar.expressionFirst then none else (Tree.ofItems? f.items.reverse).map .ok

/-- What the next item of an unfinished construct must be. -/
def Frame.awaited (f : Frame) : Except StateFault Operand :=
  match f.shape with
  | .form form =>
    match form.operands[f.items.length]? with
    | some operand => .ok operand
    | none => .error .noOperand
  | .single | .application => .ok .expression

/-- The construct with one more item. -/
def Frame.add (f : Frame) (t : ParseTree) : Frame := { f with items := t :: f.items }

/-- Begins the body of a parenthesised expression at the cursor. -/
def openBody (closes : Bool) (c : Cursor) : Except ParseFault (Frame × Cursor) :=
  match Form.ofLeader? c.current.kind with
  | some form => .ok ({ shape := .form form, closes }, c.advance)
  | none =>
    if c.current.kind ∈ Grammar.expressionFirst then .ok ({ shape := .application, closes }, c)
    else .error (.refused (.unexpected c.current (Grammar.standard.expected .parenBody)
      Nonterminal.parenBody.name))

/-- The constructs that are unfinished, innermost first, and the reading position. -/
structure State where
  top : Frame
  below : List Frame
  cursor : Cursor

/-- The end of a run: a tree or a fault, and the position it left. -/
abbrev Result := Except ParseFault ParseTree × Cursor

/-- Adds the value of the current token to the innermost construct. -/
def State.addLeaf (s : State) : State ⊕ Result :=
  match s.cursor.current.leaf with
  | .ok t => .inl { s with top := s.top.add t, cursor := s.cursor.advance }
  | .error fault => .inr (.error fault, s.cursor.advance)

/-- Hands a finished tree to the construct around it. -/
def State.deliver (s : State) (t : ParseTree) (c : Cursor) : State ⊕ Result :=
  match s.below with
  | [] => .inr (.ok t, c)
  | frame :: below => .inl ⟨frame.add t, below, c⟩

/-- Finishes the innermost construct, whose tree is known. -/
def State.finish (s : State) (t : ParseTree) : State ⊕ Result :=
  if s.top.closes then
    match s.cursor.expect .rightParen with
    | .ok (_, c) => s.deliver t c
    | .error fault => .inr (.error (.refused fault), s.cursor)
  else s.deliver t s.cursor

/-- Reads an identifier, which the innermost construct requires. -/
def State.readIdentifier (s : State) : State ⊕ Result :=
  match s.cursor.expect .identifier with
  | .ok _ => s.addLeaf
  | .error fault => .inr (.error (.refused fault), s.cursor)

/-- Reads an expression that consists of one token, or begins a parenthesised one. -/
def State.readExpression (s : State) : State ⊕ Result :=
  match s.cursor.current.kind with
  | .number | .identifier => s.addLeaf
  | .leftParen =>
    match openBody true s.cursor.advance with
    | .ok (frame, c) => .inl ⟨frame, s.top :: s.below, c⟩
    | .error fault => .inr (.error fault, s.cursor.advance)
  | _ => .inr (.error (.refused (.unexpected s.cursor.current
      (Grammar.standard.expected .expression) Nonterminal.expression.name)), s.cursor)

/-- One step: finish the innermost construct, or read what it needs next. -/
def State.step (s : State) : State ⊕ Result :=
  match s.top.finished? s.cursor.current.kind with
  | some (.ok t) => s.finish t
  | some (.error fault) => .inr (.error (.state fault), s.cursor)
  | none =>
    match s.top.awaited with
    | .ok .identifier => s.readIdentifier
    | .ok .expression => s.readExpression
    | .error fault => .inr (.error (.state fault), s.cursor)

/-! ### Termination -/

/-- Twice the tokens ahead and the unfinished constructs. -/
def State.measure (s : State) : Nat := 2 * s.cursor.ahead.length + s.below.length

theorem measure_deliver {s s' : State} {t : ParseTree} {c : Cursor}
    (hc : c.ahead.length ≤ s.cursor.ahead.length) (h : s.deliver t c = .inl s') :
    s'.measure < s.measure := by
  unfold State.deliver at h
  split at h
  · cases h
  · next hb =>
    cases h
    simp only [State.measure, hb, List.length_cons]
    omega

theorem measure_addLeaf {s s' : State} (hk : s.cursor.current.kind ≠ .endOfInput)
    (h : s.addLeaf = .inl s') : s'.measure < s.measure := by
  unfold State.addLeaf at h
  split at h
  · cases h
    have := Cursor.length_ahead_advance hk
    simp only [State.measure]
    omega
  · cases h

theorem length_ahead_openBody {closes : Bool} {c c' : Cursor} {frame : Frame}
    (h : openBody closes c = .ok (frame, c')) : c'.ahead.length ≤ c.ahead.length := by
  unfold openBody at h
  split at h
  · cases h; exact c.length_ahead_advance_le
  · split at h
    · cases h; exact Nat.le_refl _
    · cases h

theorem measure_finish {s s' : State} {t : ParseTree} (h : s.finish t = .inl s') :
    s'.measure < s.measure := by
  unfold State.finish at h
  split at h
  · split at h
    · next he => exact measure_deliver (Cursor.length_ahead_of_expect he) h
    · cases h
  · exact measure_deliver (Nat.le_refl _) h

theorem measure_readIdentifier {s s' : State} (h : s.readIdentifier = .inl s') :
    s'.measure < s.measure := by
  unfold State.readIdentifier at h
  split at h
  · next he =>
    refine measure_addLeaf (fun hk => ?_) h
    simp [Cursor.expect, hk] at he
  · cases h

theorem measure_readExpression {s s' : State} (h : s.readExpression = .inl s') :
    s'.measure < s.measure := by
  unfold State.readExpression at h
  split at h
  · next hk => exact measure_addLeaf (by simp [hk]) h
  · next hk => exact measure_addLeaf (by simp [hk]) h
  · next hk =>
    split at h
    · next ho =>
      cases h
      have := length_ahead_openBody ho
      have := Cursor.length_ahead_advance (c := s.cursor) (by simp [hk])
      simp only [State.measure, List.length_cons]
      omega
    · cases h
  · cases h

theorem measure_step {s s' : State} (h : s.step = .inl s') : s'.measure < s.measure := by
  unfold State.step at h
  split at h
  · exact measure_finish h
  · cases h
  · split at h
    · exact measure_readIdentifier h
    · exact measure_readExpression h
    · cases h

/-- Steps until the outermost construct is finished or a fault is found. -/
def State.run (s : State) : Result :=
  match _h : s.step with
  | .inl s' => s'.run
  | .inr result => result
termination_by s.measure
decreasing_by exact measure_step (by assumption)

theorem run_of_step_eq_inl {s s' : State} (h : s.step = .inl s') : s.run = s'.run := by
  rw [State.run]
  split <;> simp_all

theorem run_of_step_eq_inr {s : State} {result : Result} (h : s.step = .inr result) :
    s.run = result := by
  rw [State.run]
  split <;> simp_all

/-! ### Entries -/

/-- An application up to the first token that starts no expression. -/
def application (c : Cursor) : Result :=
  State.run ⟨{ shape := .application, closes := false }, [], c⟩

/-- One expression. -/
def oneExpression (c : Cursor) : Result := State.run ⟨{ shape := .single, closes := false }, [], c⟩

/-- The body of a parenthesised expression, behind its left parenthesis. -/
def parenBody (c : Cursor) : Result :=
  match openBody false c with
  | .ok (frame, c) => State.run ⟨frame, [], c⟩
  | .error fault => (.error fault, c)

/-! ### Tokens consumed -/

/-- The position behind a step. -/
def cursorAfter : State ⊕ Result → Cursor
  | .inl s => s.cursor
  | .inr result => result.2

theorem cursorAfter_addLeaf (s : State) : cursorAfter s.addLeaf = s.cursor.advance := by
  unfold State.addLeaf
  split <;> rfl

theorem cursorAfter_deliver (s : State) (t : ParseTree) (c : Cursor) :
    cursorAfter (s.deliver t c) = c := by
  unfold State.deliver
  split <;> rfl

/-- A step does not move the cursor back. -/
theorem length_ahead_step (s : State) :
    (cursorAfter s.step).ahead.length ≤ s.cursor.ahead.length := by
  have hl : (cursorAfter s.addLeaf).ahead.length ≤ s.cursor.ahead.length := by
    rw [cursorAfter_addLeaf]
    exact s.cursor.length_ahead_advance_le
  unfold State.step
  split
  · unfold State.finish
    split
    · split
      · next he => rw [cursorAfter_deliver]; exact Cursor.length_ahead_of_expect he
      · exact Nat.le_refl _
    · simp only [cursorAfter_deliver, Nat.le_refl]
  · exact Nat.le_refl _
  · split
    · unfold State.readIdentifier
      split
      · exact hl
      · exact Nat.le_refl _
    · unfold State.readExpression
      split
      · exact hl
      · exact hl
      · split
        · next ho =>
          exact Nat.le_trans (length_ahead_openBody ho) s.cursor.length_ahead_advance_le
        · exact s.cursor.length_ahead_advance_le
      · exact Nat.le_refl _
    · exact Nat.le_refl _

theorem length_ahead_run (s : State) : s.run.2.ahead.length ≤ s.cursor.ahead.length := by
  have h := length_ahead_step s
  cases hs : s.step with
  | inl s' =>
    rw [run_of_step_eq_inl hs]
    rw [hs] at h
    exact Nat.le_trans (length_ahead_run s') h
  | inr result =>
    rw [run_of_step_eq_inr hs]
    rw [hs] at h
    exact h
termination_by s.measure
decreasing_by exact measure_step hs

/-- An application consists of one token at least. -/
theorem length_ahead_application {c c' : Cursor} {t : ParseTree}
    (h : application c = (.ok t, c')) : c'.ahead.length < c.ahead.length := by
  unfold application at h
  cases hs : State.step ⟨{ shape := .application, closes := false }, [], c⟩ with
  | inl s' =>
    rw [run_of_step_eq_inl hs] at h
    have hr := length_ahead_run s'
    rw [h] at hr
    have hm := measure_step hs
    simp only [State.measure, List.length_nil] at hm hr
    omega
  | inr result =>
    rw [run_of_step_eq_inr hs] at h
    subst h
    have hs : State.readExpression ⟨{ shape := .application, closes := false }, [], c⟩ =
        .inr (.ok t, c') := by
      simpa [State.step, Frame.finished?, Tree.ofItems?, Frame.awaited] using hs
    unfold State.readExpression State.addLeaf at hs
    split at hs
    · split at hs <;> cases hs
    · split at hs <;> cases hs
    · split at hs <;> cases hs
    · cases hs

end LispReader.Application
