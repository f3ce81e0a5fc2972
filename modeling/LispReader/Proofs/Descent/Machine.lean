import LispReader.Proofs.Descent

/-! The stack machine reads by recursive descent.

A frame on the machine's stack stands for a call that has not returned. So the machine, whatever
lies below, does with the innermost frame what the corresponding function does, and then goes on
with the frames below: `runs` says this of each function. The three entries of the machine give
the reply of the function and leave the cursor where the function does: `oneExpression_eq`,
`application_eq`, `parenBody_eq`. -/
namespace LispReader.Application
open Descent

/-! ### Runs -/

/-- The end of a run behind a step. -/
def conclude : State ⊕ Result → Result
  | .inl s => s.run
  | .inr result => result

theorem run_eq_conclude (s : State) : s.run = conclude s.step := by
  cases h : s.step with
  | inl s' => exact run_of_step_eq_inl h
  | inr result => exact run_of_step_eq_inr h

/-- A fault ends the run where it was found. -/
def stop (fault : ParseFault) (c : Cursor) : Result := (.error fault, c)

/-- The end of a run in which a construct has just been finished. -/
def leave (closes : Bool) (below : List Frame) (t : ParseTree) (c : Cursor) : Result :=
  conclude (State.finish ⟨{ shape := .single, closes }, below, c⟩ t)

theorem run_of_finished {s : State} {t : ParseTree}
    (h : s.top.finished? s.cursor.current.kind = some (.ok t)) :
    s.run = leave s.top.closes s.below t s.cursor := by
  rw [run_eq_conclude, State.step, h]
  rfl

theorem run_of_unfinished {s : State} (h : s.top.finished? s.cursor.current.kind = none)
    (hi : s.top.awaited = .ok .expression) : s.run = conclude s.readExpression := by
  rw [run_eq_conclude, State.step, h, hi]

theorem leave_false_nil (t : ParseTree) (c : Cursor) : leave false [] t c = (.ok t, c) := rfl

/-- Behind a parenthesised construct, its right parenthesis is passed. -/
theorem leave_true_cons (frame : Frame) (below : List Frame) (t : ParseTree) (c : Cursor) :
    leave true (frame :: below) t c =
      (token .rightParen c).elim (fun _ c => State.run ⟨frame.add t, below, c⟩) stop := by
  by_cases h : c.current.kind = .rightParen
  · rw [token_of_eq h]
    simp [leave, State.finish, Cursor.expect, h, State.deliver, conclude, Reply.elim]
  · rw [token_of_ne h]
    simp [leave, State.finish, Cursor.expect, h, conclude, stop, Reply.elim]

theorem conclude_addLeaf (top : Frame) (below : List Frame) (c : Cursor) :
    conclude (State.addLeaf ⟨top, below, c⟩) =
      (value c.current c.advance).elim (fun t c => State.run ⟨top.add t, below, c⟩) stop := by
  rw [elim_value, State.addLeaf]
  cases (c.current.leaf : Except ParseFault ParseTree) <;> rfl

theorem run_of_awaiting {top : Frame} {below : List Frame} {c : Cursor}
    (h : top.finished? c.current.kind = none) (hi : top.awaited = .ok .identifier) :
    State.run ⟨top, below, c⟩ =
      (identifier c).elim (fun t c => State.run ⟨top.add t, below, c⟩) stop := by
  have hs : State.step ⟨top, below, c⟩ = State.readIdentifier ⟨top, below, c⟩ := by
    rw [State.step, h, hi]
  rw [run_eq_conclude, hs, State.readIdentifier, Cursor.expect]
  by_cases hk : c.current.kind = .identifier
  · rw [if_pos hk, identifier_of_eq hk, Reply.elim_weaken]
    exact conclude_addLeaf top below c
  · rw [if_neg hk, identifier_of_ne hk]
    rfl

/-! ### The functions as runs -/

/-- With a frame on top that needs an expression, the machine reads one. Nothing is said of the
frames below: they are what is left to do when the function returns. -/
def RunsExpression (c : Cursor) : Prop :=
  ∀ top below, top.finished? c.current.kind = none → top.awaited = .ok .expression →
    State.run ⟨top, below, c⟩ =
      (expression c).elim (fun t c => State.run ⟨top.add t, below, c⟩) stop

/-- The machine opens a body and reads it. -/
def RunsBody (c : Cursor) : Prop :=
  ∀ closes below,
    (match openBody closes c with
      | .ok (frame, c) => State.run ⟨frame, below, c⟩
      | .error fault => stop fault c) =
      (body c).elim (leave closes below) stop

/-- With the frame of an application on top that has no item, the machine reads one. -/
def RunsApplication (c : Cursor) : Prop :=
  ∀ closes below, State.run ⟨{ shape := .application, closes }, below, c⟩ =
    (Descent.application c).elim (leave closes below) stop

/-- With the frame of an application on top that has items, the machine reads the others. -/
def RunsItems (c : Cursor) : Prop :=
  ∀ closes below head tail,
    State.run ⟨{ shape := .application, closes, items := tail ++ [head] }, below, c⟩ =
      (items c).elim (fun ts c => leave closes below (.sequence head (tail.reverse ++ ts)) c) stop

/-- With the frame of a form on top that has items for its front operands, the machine reads the
other ones. -/
def RunsOperands (ops : List Operand) (c : Cursor) : Prop :=
  ∀ form closes below done front, form.operands = front ++ ops → done.length = front.length →
    State.run ⟨{ shape := .form form, closes, items := done }, below, c⟩ =
      (operands ops c).elim (fun ts c => leave closes below (form.tree (done.reverse ++ ts)) c) stop

theorem runsExpression_leaf {c : Cursor}
    (h : c.current.kind = .number ∨ c.current.kind = .identifier) : RunsExpression c := by
  intro top below hf hi
  have hs : State.readExpression ⟨top, below, c⟩ = State.addLeaf ⟨top, below, c⟩ := by
    rcases h with h | h <;> simp only [State.readExpression, h]
  rw [run_of_unfinished hf hi, hs, expression_of_leaf h, conclude_addLeaf]

theorem runsExpression_leftParen {c : Cursor} (h : c.current.kind = .leftParen)
    (hb : RunsBody c.advance) : RunsExpression c := by
  intro top below hf hi
  have hs : conclude (State.readExpression ⟨top, below, c⟩) =
      (body c.advance).elim (leave true (top :: below)) stop := by
    rw [← hb true (top :: below)]
    simp only [State.readExpression, h]
    cases openBody true c.advance <;> rfl
  rw [run_of_unfinished hf hi, hs, expression_of_leftParen h, Reply.elim_bind]
  cases body c.advance with
  | error s => rfl
  | ok r =>
    show leave true (top :: below) r.value r.cursor =
      ((token .rightParen r.cursor).map fun _ => r.value).elim _ stop
    rw [leave_true_cons, Reply.elim_map]

theorem runsExpression_other {c : Cursor} (h : c.current.kind ∉ Grammar.expressionFirst) :
    RunsExpression c := by
  intro top below hf hi
  have hs : State.readExpression ⟨top, below, c⟩ =
      .inr (stop (.refused (.unexpected c.current (Grammar.standard.expected .expression)
        Nonterminal.expression.name)) c) := by
    simp only [State.readExpression]
    split
    · next hk => exact absurd (hk ▸ h) (by decide)
    · next hk => exact absurd (hk ▸ h) (by decide)
    · next hk => exact absurd (hk ▸ h) (by decide)
    · rfl
  rw [run_of_unfinished hf hi, hs, expression_other h]
  rfl

theorem runsBody_of_form {c : Cursor} {form : Form} (h : Form.ofLeader? c.current.kind = some form)
    (ho : RunsOperands form.operands c.advance) : RunsBody c := by
  intro closes below
  rw [openBody, h, body_of_form h, Reply.elim_weaken, Reply.elim_map]
  exact ho form closes below [] [] rfl rfl

theorem runsBody_of_application {c : Cursor} (h : Form.ofLeader? c.current.kind = none)
    (hk : c.current.kind ∈ Grammar.expressionFirst) (ha : RunsApplication c) : RunsBody c := by
  intro closes below
  rw [openBody, h, if_pos hk, body_of_application h hk]
  exact ha closes below

theorem runsBody_other {c : Cursor} (h : Form.ofLeader? c.current.kind = none)
    (hk : c.current.kind ∉ Grammar.expressionFirst) : RunsBody c := by
  intro closes below
  rw [openBody, h, if_neg hk, body_other h hk]
  rfl

theorem runsApplication_of {c : Cursor} (he : RunsExpression c)
    (hi : ∀ r : Read ParseTree c.advance, RunsItems r.cursor) : RunsApplication c := by
  intro closes below
  rw [Descent.application, Reply.elim_weaken, Reply.elim_bind, he _ _ ?_ rfl]
  · cases expression c with
    | error s => rfl
    | ok r =>
      show State.run ⟨{ shape := .application, closes, items := [r.value] }, below, r.cursor⟩ =
        ((items r.cursor).map (.sequence r.value)).elim (leave closes below) stop
      rw [Reply.elim_map]
      exact hi r closes below r.value []
  · rw [Frame.finished?]
    split <;> simp_all [Tree.ofItems?]

theorem runsItems_of_mem {c : Cursor} (hk : c.current.kind ∈ Grammar.expressionFirst)
    (he : RunsExpression c) (hi : ∀ r : Read ParseTree c.advance, RunsItems r.cursor) :
    RunsItems c := by
  intro closes below head tail
  rw [items, if_pos hk, Reply.elim_weaken, Reply.elim_bind, he _ _ ?_ rfl]
  · cases expression c with
    | error s => rfl
    | ok r =>
      show State.run ⟨{ shape := .application, closes, items := (r.value :: tail) ++ [head] },
        below, r.cursor⟩ = ((items r.cursor).map (r.value :: ·)).elim _ stop
      rw [Reply.elim_map, hi r closes below head (r.value :: tail)]
      simp
  · simp [Frame.finished?, hk]

theorem runsItems_of_not_mem {c : Cursor} (hk : c.current.kind ∉ Grammar.expressionFirst) :
    RunsItems c := by
  intro closes below head tail
  rw [items, if_neg hk, run_of_finished (t := .sequence head tail.reverse)]
  · simp [Reply.elim]
  · simp [Frame.finished?, hk, Tree.ofItems?]

theorem runsOperands_nil (c : Cursor) : RunsOperands [] c := by
  intro form closes below done front hf hd
  have hl : done.length = form.arity := by rw [Form.arity, hf, List.append_nil, hd]
  have hb : form.build done.reverse = .ok (form.tree done.reverse) := by
    rw [Form.build, List.length_reverse, if_pos hl]
  rw [operands, run_of_finished (t := form.tree done.reverse)]
  · simp [Reply.elim]
  · show (if done.length = form.arity then some (form.build done.reverse) else none) = _
    rw [if_pos hl, hb]

section

variable {form : Form} {closes : Bool} {done : List ParseTree} {front ops : List Operand}
  {op : Operand}

/-- A form with fewer items than operands is not finished. -/
theorem finished?_of_operands (hf : form.operands = front ++ op :: ops)
    (hd : done.length = front.length) (next : Kind) :
    Frame.finished? { shape := .form form, closes, items := done } next = none := by
  have hl : done.length ≠ form.arity := by
    rw [Form.arity, hf, List.length_append, List.length_cons]
    omega
  exact if_neg hl

theorem awaited_of_operands (hf : form.operands = front ++ op :: ops)
    (hd : done.length = front.length) :
    Frame.awaited { shape := .form form, closes, items := done } = .ok op := by
  have ho : form.operands[done.length]? = some op := by
    rw [hf, hd, List.getElem?_append_right (Nat.le_refl _), Nat.sub_self]
    rfl
  simp only [Frame.awaited, ho]

/-- One more item, for one operand more. -/
theorem RunsOperands.next {c : Cursor} {below : List Frame} (ho : RunsOperands ops c)
    (hf : form.operands = front ++ op :: ops) (hd : done.length = front.length) (t : ParseTree) :
    State.run ⟨{ shape := .form form, closes, items := t :: done }, below, c⟩ =
      ((operands ops c).map (t :: ·)).elim
        (fun ts c => leave closes below (form.tree (done.reverse ++ ts)) c) stop := by
  have hf' : form.operands = (front ++ [op]) ++ ops := by rw [hf, List.append_assoc]; rfl
  rw [Reply.elim_map, ho form closes below (t :: done) (front ++ [op]) hf' (by simp [hd])]
  simp

end

theorem runsOperands_expression {c : Cursor} {ops : List Operand} (he : RunsExpression c)
    (ho : ∀ r : Read ParseTree c.advance, RunsOperands ops r.cursor) :
    RunsOperands (.expression :: ops) c := by
  intro form closes below done front hf hd
  rw [operands, Reply.elim_weaken, Reply.elim_bind,
    he _ _ (finished?_of_operands hf hd _) (awaited_of_operands hf hd)]
  cases expression c with
  | error s => rfl
  | ok r => exact (ho r).next hf hd r.value

theorem runsOperands_identifier {c : Cursor} {ops : List Operand}
    (ho : ∀ r : Read ParseTree c, RunsOperands ops r.cursor) :
    RunsOperands (.identifier :: ops) c := by
  intro form closes below done front hf hd
  rw [operands, Reply.elim_bind,
    run_of_awaiting (finished?_of_operands hf hd _) (awaited_of_operands hf hd)]
  cases identifier c with
  | error s => rfl
  | ok r => exact (ho r).next hf hd r.value

/-! ### The entries -/

theorem runs : (∀ c, RunsExpression c) ∧ (∀ c, RunsBody c) ∧ (∀ c, RunsApplication c) ∧
    (∀ c, RunsItems c) ∧ ∀ ops c, RunsOperands ops c :=
  Descent.induction (fun _ => runsExpression_leaf) (fun _ => runsExpression_leftParen)
    (fun _ => runsExpression_other) (fun _ _ => runsBody_of_form)
    (fun _ => runsBody_of_application) (fun _ => runsBody_other) (fun _ => runsApplication_of)
    (fun _ => runsItems_of_mem) (fun _ => runsItems_of_not_mem) runsOperands_nil
    (fun _ _ => runsOperands_expression) fun _ _ => runsOperands_identifier

/-- The machine reads an expression like the function. -/
theorem oneExpression_eq (c : Cursor) : oneExpression c = (expression c).result := by
  rw [oneExpression, runs.1 c _ _ rfl rfl]
  cases expression c with
  | error s => rfl
  | ok r =>
    show State.run ⟨{ shape := .single, closes := false, items := [r.value] }, [], r.cursor⟩ =
      (.ok r.value, r.cursor)
    rw [run_of_finished rfl]
    exact leave_false_nil r.value r.cursor

/-- The machine reads an application like the function. -/
theorem application_eq (c : Cursor) : application c = (Descent.application c).result := by
  rw [application, runs.2.2.1 c false []]
  rfl

/-- The machine reads the body of a parenthesised expression like the function. -/
theorem parenBody_eq (c : Cursor) : parenBody c = (body c).result := by
  have h := runs.2.1 c false []
  rw [parenBody]
  cases ho : openBody false c <;> rw [ho] at h <;> exact h

/-- From every position, each of the three entries gives the tree or the fault of its function, and
leaves the position that the function leaves. -/
theorem entries_descend (c : Cursor) :
    oneExpression c = (expression c).result ∧ parenBody c = (body c).result ∧
      application c = (Descent.application c).result :=
  ⟨oneExpression_eq c, parenBody_eq c, application_eq c⟩

end LispReader.Application
