import LispReader.Proofs.Descent.Soundness
import LispReader.Proofs.Descent.Machine
import LispReader.Proofs.Steps

/-! Derivations in the standard grammar read by recursive descent.

The control stack of a derivation holds what is still to be read. So a derivation with a
nonterminal on top does what the function for that nonterminal does, and goes on with the symbols
below and one more value: `derives`. Its end does not depend on the trace, so only the stacks and
the cursor are followed here. `parseStandard_eq` says how a derivation of a program ends. -/
namespace LispReader.Derivation
open Descent
open Application (stop)

/-! ### Ends of derivations -/

/-- Derivations with these symbols, values and position end in the result, whatever happened
before. -/
def Ends (control : List Symbol) (values : List ParseTree) (c : Cursor)
    (result : Application.Result) : Prop :=
  ∀ s : State, s.control.items = control → s.values.items = values → s.cursor = c →
    ((runStandard s).result, (runStandard s).cursor) = result

/-- What goes on with a reply ends in the result: behind a value, or in the fault. -/
def Continues {α : Type} {c : Cursor} (x : Reply α c) (found : α → Cursor → Prop)
    (result : Application.Result) : Prop :=
  x.elim found fun fault c' => stop fault c' = result

variable {control : List Symbol} {values : List ParseTree} {c : Cursor}
  {result : Application.Result}

theorem ends_of_step {control' : List Symbol} {values' : List ParseTree} {c' : Cursor}
    (hs : ∀ s : State, s.control.items = control → s.values.items = values → s.cursor = c →
      ∃ s', s.step Grammar.standard = .inl s' ∧ s'.control.items = control' ∧
        s'.values.items = values' ∧ s'.cursor = c')
    (h : Ends control' values' c' result) : Ends control values c result := by
  intro s hc hv hp
  obtain ⟨s', hs', hc', hv', hp'⟩ := hs s hc hv hp
  rw [runStandard_of_step_eq_inl hs']
  exact h s' hc' hv' hp'

theorem ends_of_stop {fault : ParseFault} {c' : Cursor}
    (hs : ∀ s : State, s.control.items = control → s.values.items = values → s.cursor = c →
      ∃ s' : State, s.step Grammar.standard = s'.stop fault ∧ s'.cursor = c') :
    Ends control values c (stop fault c') := by
  intro s hc hv hp
  obtain ⟨s', hs', rfl⟩ := hs s hc hv hp
  rw [runStandard_of_step_eq_inr hs']
  rfl

/-! ### One symbol -/

theorem ends_of_mismatch {kind : Kind} (ht : c.current.kind ≠ kind) :
    Ends (.terminal kind :: control) values c (stop (.refused (.mismatch kind c.current)) c) := by
  refine ends_of_stop ?_
  intro s hc hv hp
  subst hp
  exact ⟨s, step_mismatched hc ht, rfl⟩

theorem ends_of_bare {kind : Kind} (hk : kind.carriesLexeme = false)
    (h : Continues (token kind c) (fun _ c' => Ends control values c' result) result) :
    Ends (.terminal kind :: control) values c result := by
  by_cases ht : c.current.kind = kind
  · rw [token_of_eq ht] at h
    refine ends_of_step ?_ h
    intro s hc hv hp
    subst hp
    exact ⟨_, step_bare hc hk ht, rfl, hv, rfl⟩
  · rw [token_of_ne ht] at h
    exact h ▸ ends_of_mismatch ht

theorem ends_of_leaf {kind : Kind} (hk : kind.carriesLexeme = true)
    (h : Continues ((token kind c).bind fun r => value r.value r.cursor)
      (fun t c' => Ends control (t :: values) c' result) result) :
    Ends (.terminal kind :: control) values c result := by
  by_cases ht : c.current.kind = kind
  · rw [Continues, Reply.elim_bind, token_of_eq ht] at h
    replace h : (value c.current c.advance).elim _ _ := h
    rw [elim_value] at h
    cases hl : (c.current.leaf : Except ParseFault ParseTree) with
    | ok t =>
      rw [hl] at h
      refine ends_of_step ?_ h
      intro s hc hv hp
      subst hp
      exact ⟨_, step_leaf hc hk ht hl, rfl, congrArg (t :: ·) hv, rfl⟩
    | error fault =>
      rw [hl] at h
      refine h ▸ ends_of_stop ?_
      intro s hc hv hp
      subst hp
      refine ⟨⟨.ofList control, s.values, s.cursor.advance, s.trace⟩, ?_, rfl⟩
      rw [step_terminal hc, State.matchKind, Cursor.expect, if_pos ht]
      simp only [if_pos hk, hl]
  · rw [Continues, Reply.elim_bind, token_of_ne ht] at h
    exact h ▸ ends_of_mismatch ht

theorem ends_of_lookup {nt : Nonterminal} {p : Production}
    (hp : Grammar.standard.lookup nt c.current.kind = some p) (hv : p.variadic = false)
    (h : Ends (p.rhs ++ control) values c result) :
    Ends (.nonterminal nt :: control) values c result := by
  refine ends_of_step ?_ h
  intro s hc hs he
  subst he
  exact ⟨_, step_expanded hc hp hv, rfl, hs, rfl⟩

/-- The application that stands for a variadic production is read by its function. -/
theorem ends_of_variadic {nt : Nonterminal} {p : Production}
    (hp : Grammar.standard.lookup nt c.current.kind = some p) (hv : p.variadic = true)
    (h : Continues (application c) (fun t c' => Ends control (t :: values) c' result) result) :
    Ends (.nonterminal nt :: control) values c result := by
  cases hx : application c with
  | ok r =>
    rw [hx] at h
    have ha : Application.application c = (.ok r.value, r.cursor) := by
      rw [Application.application_eq, hx]
      rfl
    refine ends_of_step ?_ h
    intro s hc hs he
    subst he
    exact ⟨_, step_delegated hc hp hv ha, rfl, congrArg (r.value :: ·) hs, rfl⟩
  | error e =>
    rw [hx] at h
    have ha : Application.application c = (.error e.1, e.2) := by
      rw [Application.application_eq, hx]
      rfl
    refine h ▸ ends_of_stop ?_
    intro s hc hs he
    subst he
    refine ⟨⟨.ofList control, s.values, e.2, s.trace⟩, ?_, rfl⟩
    simp only [step_nonterminal hc, State.expand, hp, hv, ha, if_true]

theorem ends_of_unexpected {nt : Nonterminal}
    (hp : Grammar.standard.lookup nt c.current.kind = none) :
    Ends (.nonterminal nt :: control) values c
      (stop (.refused (.unexpected c.current (Grammar.standard.expected nt) nt.name)) c) := by
  refine ends_of_stop ?_
  intro s hc hv he
  subst he
  exact ⟨s, step_missed hc hp, rfl⟩

theorem ends_of_action {form : Form} {ts : List ParseTree} (ht : ts.length = form.arity)
    (h : Ends control (form.tree ts :: values) c result) :
    Ends (.action form :: control) (ts.reverse ++ values) c result := by
  refine ends_of_step ?_ h
  intro s hc hv hp
  subst hp
  obtain ⟨below, hb, hs⟩ := @step_applied Grammar.standard s control form ts values hc hv ht
  exact ⟨_, hs, rfl, hb, rfl⟩

theorem ends_of_nil (t : ParseTree) (c : Cursor) : Ends [] [t] c (.ok t, c) := by
  intro s hc hv hp
  subst hp
  rw [runStandard_of_step_eq_inr (step_closed hc hv)]

/-! ### The functions as derivations -/

/-- With an expression on top, a derivation reads one and pushes its value. -/
def DerivesExpression (c : Cursor) : Prop :=
  ∀ control values result,
    Continues (expression c) (fun t c' => Ends control (t :: values) c' result) result →
    Ends (.nonterminal .expression :: control) values c result

def DerivesBody (c : Cursor) : Prop :=
  ∀ control values result,
    Continues (body c) (fun t c' => Ends control (t :: values) c' result) result →
    Ends (.nonterminal .parenBody :: control) values c result

/-- The symbol that stands for an operand. -/
def operandSymbol : Operand → Symbol
  | .expression => .nonterminal .expression
  | .identifier => .terminal .identifier

/-- With the symbols of operands on top, a derivation reads them and pushes their values. -/
def DerivesOperands (ops : List Operand) (c : Cursor) : Prop :=
  ∀ control values result,
    Continues (operands ops c) (fun ts c' => Ends control (ts.reverse ++ values) c' result) result →
    Ends (ops.map operandSymbol ++ control) values c result

theorem derivesExpression_leaf (h : c.current.kind = .number ∨ c.current.kind = .identifier) :
    DerivesExpression c := by
  intro control values result hx
  have hv : Continues ((token c.current.kind c).bind fun r => value r.value r.cursor)
      (fun t c' => Ends control (t :: values) c' result) result := by
    rw [expression_of_leaf h] at hx
    rw [Continues, Reply.elim_bind, token_of_eq rfl]
    exact hx
  rcases h with h | h
  · refine ends_of_lookup (p := ⟨2, .expression, [.terminal .number], .ofList [.number], false⟩)
      (by rw [h]; rfl) rfl ?_
    rw [h] at hv
    exact ends_of_leaf rfl hv
  · refine ends_of_lookup
      (p := ⟨3, .expression, [.terminal .identifier], .ofList [.identifier], false⟩)
      (by rw [h]; rfl) rfl ?_
    rw [h] at hv
    exact ends_of_leaf rfl hv

theorem derivesExpression_leftParen (h : c.current.kind = .leftParen)
    (hb : DerivesBody c.advance) : DerivesExpression c := by
  intro control values result hx
  rw [expression_of_leftParen h, Continues, Reply.elim_bind] at hx
  refine ends_of_lookup (p := ⟨4, .expression,
    [.terminal .leftParen, .nonterminal .parenBody, .terminal .rightParen], .ofList [.leftParen],
    false⟩) (by rw [h]; rfl) rfl ?_
  refine ends_of_bare rfl ?_
  rw [Continues, token_of_eq h]
  refine hb _ _ _ ?_
  cases hy : body c.advance with
  | error e =>
    rw [hy] at hx
    exact hx
  | ok r =>
    rw [hy] at hx
    replace hx : ((token .rightParen r.cursor).map fun _ => r.value).elim _ _ := hx
    rw [Reply.elim_map] at hx
    exact ends_of_bare rfl hx

theorem lookup_expression_eq_none {kind : Kind} (h : kind ∉ Grammar.expressionFirst) :
    Grammar.standard.lookup .expression kind = none := by
  revert h
  cases kind <;> decide

theorem derivesExpression_other (h : c.current.kind ∉ Grammar.expressionFirst) :
    DerivesExpression c := by
  intro control values result hx
  rw [expression_other h] at hx
  exact hx ▸ ends_of_unexpected (lookup_expression_eq_none h)

/-- A leader chooses the production of its form. -/
theorem exists_lookup_of_form {kind : Kind} {f : Form} (h : Form.ofLeader? kind = some f) :
    ∃ p, Grammar.standard.lookup .parenBody kind = some p ∧ p.variadic = false ∧
      p.rhs = .terminal f.leader :: (f.operands.map operandSymbol ++ [.action f]) := by
  obtain ⟨known, rfl⟩ := Form.ofLeader?_eq_some_iff.1 h
  clear h
  simp only [Form.all, List.mem_cons, List.not_mem_nil, or_false] at known
  rcases known with rfl | rfl | rfl | rfl | rfl | rfl | rfl <;> exact ⟨_, rfl, rfl, rfl⟩

theorem derivesBody_of_form {f : Form} (h : Form.ofLeader? c.current.kind = some f)
    (ho : DerivesOperands f.operands c.advance) : DerivesBody c := by
  intro control values result hx
  obtain ⟨known, leads⟩ := Form.ofLeader?_eq_some_iff.1 h
  obtain ⟨p, hp, hv, hr⟩ := exists_lookup_of_form h
  refine ends_of_lookup hp hv ?_
  rw [hr, List.cons_append, List.append_assoc]
  -- The leader was looked at to choose the production, so it is there to be matched.
  refine ends_of_bare (Form.carriesLexeme_leader known) ?_
  rw [Continues, token_of_eq leads.symm]
  refine ho _ _ _ ?_
  rw [body_of_form h, Continues, Reply.elim_weaken, Reply.elim_map] at hx
  cases hy : operands f.operands c.advance with
  | error e =>
    rw [hy] at hx
    exact hx
  | ok r =>
    rw [hy] at hx
    exact ends_of_action (length_of_operands hy) hx

theorem derivesBody_of_application (h : Form.ofLeader? c.current.kind = none)
    (hk : c.current.kind ∈ Grammar.expressionFirst) : DerivesBody c := by
  intro control values result hx
  rw [body_of_application h hk] at hx
  refine ends_of_variadic (p := ⟨12, .parenBody, [.nonterminal .expression],
    Grammar.expressionFirst, true⟩) ?_ rfl hx
  revert hk
  cases c.current.kind <;> decide

theorem derivesBody_other (h : Form.ofLeader? c.current.kind = none)
    (hk : c.current.kind ∉ Grammar.expressionFirst) : DerivesBody c := by
  intro control values result hx
  rw [body_other h hk] at hx
  refine hx ▸ ends_of_unexpected ?_
  revert h hk
  cases c.current.kind <;> decide

theorem derivesOperands_nil (c : Cursor) : DerivesOperands [] c := by
  intro control values result hx
  rw [operands] at hx
  exact hx

theorem derivesOperands_expression {ops : List Operand} (he : DerivesExpression c)
    (ho : ∀ r : Read ParseTree c.advance, DerivesOperands ops r.cursor) :
    DerivesOperands (.expression :: ops) c := by
  intro control values result hx
  rw [operands, Continues, Reply.elim_weaken, Reply.elim_bind] at hx
  refine he _ _ _ ?_
  cases hy : expression c with
  | error e =>
    rw [hy] at hx
    exact hx
  | ok r =>
    rw [hy] at hx
    replace hx : ((operands ops r.cursor).map (r.value :: ·)).elim _ _ := hx
    rw [Reply.elim_map] at hx
    refine ho r _ _ _ ?_
    simp only [List.reverse_cons, List.append_assoc, List.cons_append, List.nil_append] at hx
    exact hx

theorem derivesOperands_identifier {ops : List Operand}
    (ho : ∀ r : Read ParseTree c, DerivesOperands ops r.cursor) :
    DerivesOperands (.identifier :: ops) c := by
  intro control values result hx
  rw [operands, Continues, Reply.elim_bind] at hx
  refine ends_of_leaf rfl ?_
  show Continues (identifier c) _ result
  cases hy : identifier c with
  | error e =>
    rw [hy] at hx
    exact hx
  | ok r =>
    rw [hy] at hx
    replace hx : ((operands ops r.cursor).map (r.value :: ·)).elim _ _ := hx
    rw [Reply.elim_map] at hx
    refine ho r _ _ _ ?_
    simp only [List.reverse_cons, List.append_assoc, List.cons_append, List.nil_append] at hx
    exact hx

theorem derives : (∀ c, DerivesExpression c) ∧ (∀ c, DerivesBody c) ∧ (∀ _ : Cursor, True) ∧
    (∀ _ : Cursor, True) ∧ ∀ ops c, DerivesOperands ops c :=
  Descent.induction (fun _ => derivesExpression_leaf) (fun _ => derivesExpression_leftParen)
    (fun _ => derivesExpression_other) (fun _ _ => derivesBody_of_form)
    (fun _ h hk _ => derivesBody_of_application h hk) (fun _ => derivesBody_other)
    (fun _ _ _ => trivial) (fun _ _ _ _ => trivial) (fun _ _ => trivial) derivesOperands_nil
    (fun _ _ => derivesOperands_expression) fun _ _ => derivesOperands_identifier

/-! ### Programs -/

/-- A program is read as an expression in front of the end of input. -/
theorem parseStandard_eq (h : c.current.kind ∈ Grammar.expressionFirst) :
    ((parseStandard c).result, (parseStandard c).cursor) = (program c).result := by
  suffices hs : Ends [.nonterminal .program, .terminal .endOfInput] [] c (program c).result from
    hs (start c) rfl rfl rfl
  refine ends_of_lookup (p := ⟨1, .program, [.nonterminal .expression], Grammar.expressionFirst,
    false⟩) ?_ rfl ?_
  · revert h
    cases c.current.kind <;> decide
  · refine derives.1 c _ _ _ ?_
    rw [program, Reply.result, Reply.elim_weaken, Reply.elim_bind]
    cases expression c with
    | error e => rfl
    | ok r =>
      show Ends [.terminal .endOfInput] [r.value] r.cursor
        (((token .endOfInput r.cursor).map fun _ => r.value).elim _ _)
      rw [Reply.elim_map]
      refine ends_of_bare rfl ?_
      cases token .endOfInput r.cursor with
      | error e => rfl
      | ok r' => exact ends_of_nil r.value r'.cursor

/-- A program is refused at its first token if no expression begins with it. -/
theorem parseStandard_of_not_mem (h : c.current.kind ∉ Grammar.expressionFirst) :
    ((parseStandard c).result, (parseStandard c).cursor) =
      stop (.refused (.unexpected c.current (Grammar.standard.expected .program)
        Nonterminal.program.name)) c := by
  suffices hs : Ends [.nonterminal .program, .terminal .endOfInput] [] c _ from
    hs (start c) rfl rfl rfl
  refine ends_of_unexpected ?_
  revert h
  cases c.current.kind <;> decide

end LispReader.Derivation
