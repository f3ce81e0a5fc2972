import LispReader.Proofs.Phrase

/-! Words that can be completed.

What stands in front of a fault is the beginning of some program. Such a beginning is described
here like the programs themselves, by what has been finished, what is still open, and what is
needed next. What follows in a program satisfies this need (`Begun.accepts`), and behind a token
that satisfies it there is always a way to the end of a program (`Begun.exists_completion`). -/
namespace LispReader

/-- What an unfinished phrase needs next. -/
inductive Need where
  /-- The expression that is the program. -/
  | program
  | expression
  | body
  | identifier
  /-- The right parenthesis behind a form. -/
  | closing
  /-- The right parenthesis behind an application, or a further item of it. -/
  | item
  | endOfInput
  deriving DecidableEq, Repr

namespace Need

/-- The kinds of token that satisfy a need. -/
def Accepts : Need → Kind → Prop
  | program, kind | expression, kind => kind ∈ Grammar.expressionFirst
  | body, kind => (Form.ofLeader? kind).isSome ∨ kind ∈ Grammar.expressionFirst
  | identifier, kind => kind = .identifier
  | closing, kind => kind = .rightParen
  | item, kind => kind = .rightParen ∨ kind ∈ Grammar.expressionFirst
  | endOfInput, kind => kind = .endOfInput

instance (need : Need) (kind : Kind) : Decidable (need.Accepts kind) :=
  match need with
  | program | expression => inferInstanceAs (Decidable (_ ∈ _))
  | body | item => inferInstanceAs (Decidable (_ ∨ _))
  | identifier | closing | endOfInput => inferInstanceAs (Decidable (_ = _))

/-- What is reported when a token does not satisfy a need. -/
def fault (token : Token) : Need → SyntaxFault
  | program => .unexpected token (Grammar.standard.expected .program) Nonterminal.program.name
  | expression =>
    .unexpected token (Grammar.standard.expected .expression) Nonterminal.expression.name
  | body => .unexpected token (Grammar.standard.expected .parenBody) Nonterminal.parenBody.name
  | identifier => .mismatch .identifier token
  | closing | item => .mismatch .rightParen token
  | endOfInput => .mismatch .endOfInput token

@[simp] theorem token_fault (need : Need) (token : Token) : (need.fault token).token = token := by
  cases need <;> rfl

/-- Where no item may follow, a report names just the kinds that satisfy the need. -/
theorem mem_expected_fault {need : Need} (h : need ≠ .item) (token : Token) (kind : Kind) :
    kind ∈ (need.fault token).expected ↔ need.Accepts kind := by
  cases need with
  | item => exact absurd rfl h
  | program | expression | body | identifier | closing | endOfInput =>
    simp only [fault, SyntaxFault.expected]
    cases kind <;> decide

/-- Every need can be satisfied. -/
theorem exists_accepts (need : Need) : ∃ kind, need.Accepts kind := by
  cases need with
  | program | expression | body => exact ⟨.number, by decide⟩
  | identifier => exact ⟨.identifier, rfl⟩
  | closing => exact ⟨.rightParen, rfl⟩
  | item => exact ⟨.rightParen, .inl rfl⟩
  | endOfInput => exact ⟨.endOfInput, rfl⟩

end Need

/-- A token of each kind, which stands at the start of a text. -/
def Token.sample (kind : Kind) : Token where
  kind
  lexeme :=
    match kind with
    | .number => some "0"
    | .identifier => some "x"
    | _ => none
  position := .start
  isSome_lexeme := by cases kind <;> rfl

namespace Phrase

/-! ### Beginnings -/

mutual

/-- An expression whose left parenthesis is still open. -/
inductive Begun : List Token → Need → Prop
  | parenthesized (opening : Token) {p : List Token} {need : Need}
      (opens : opening.kind = .leftParen) (body : BegunBody p need) : Begun (opening :: p) need

/-- The body behind an open parenthesis, so far. -/
inductive BegunBody : List Token → Need → Prop
  | start : BegunBody [] .body
  | operands (f : Form) (leader : Token) {p : List Token} {need : Need} (known : f ∈ Form.all)
      (leads : leader.kind = f.leader) (operands : BegunOperands f.operands p need) :
      BegunBody (leader :: p) need
  | form (f : Form) (leader : Token) {w : List Token} {ts : List ParseTree} (known : f ∈ Form.all)
      (leads : leader.kind = f.leader) (operands : Operands f.operands w ts) :
      BegunBody (leader :: w) .closing
  | application {w : List Token} {head : ParseTree} {tail : List ParseTree}
      (items : Items w (head :: tail)) : BegunBody w .item
  | item {w p : List Token} {ts : List ParseTree} {need : Need} (items : Items w ts)
      (last : Begun p need) : BegunBody (w ++ p) need

/-- Operands of which some are missing. -/
inductive BegunOperands : List Operand → List Token → Need → Prop
  | needExpression (ops : List Operand) : BegunOperands (.expression :: ops) [] .expression
  | needIdentifier (ops : List Operand) : BegunOperands (.identifier :: ops) [] .identifier
  | within (ops : List Operand) {p : List Token} {need : Need} (first : Begun p need) :
      BegunOperands (.expression :: ops) p need
  | expression {ops : List Operand} {w p : List Token} {t : ParseTree} {need : Need}
      (first : Expression w t) (rest : BegunOperands ops p need) :
      BegunOperands (.expression :: ops) (w ++ p) need
  | identifier (token : Token) {ops : List Operand} {name : String} {p : List Token} {need : Need}
      (kind : token.kind = .identifier) (spelled : token.lexeme = some name)
      (rest : BegunOperands ops p need) : BegunOperands (.identifier :: ops) (token :: p) need

end

/-- A program so far. -/
inductive BegunProgram : List Token → Need → Prop
  | start : BegunProgram [] .program
  | within {p : List Token} {need : Need} (expression : Begun p need) : BegunProgram p need
  | whole {w : List Token} {t : ParseTree} (expression : Expression w t) :
      BegunProgram w .endOfInput

/-! ### What follows a beginning satisfies its need -/

/-- What begins with items has further items behind them. -/
theorem Items.exists_rest {w' : List Token} {ts' : List ParseTree} {r k : List Kind}
    (d' : Items w' ts') : {w : List Token} → {ts : List ParseTree} → Items w ts →
    kinds w' ++ .rightParen :: r = kinds w ++ k →
    ∃ w'' ts'', Nonempty (Items w'' ts'') ∧ kinds w'' ++ .rightParen :: r = k
  | _, _, .nil, h => ⟨w', ts', ⟨d'⟩, h⟩
  | _, _, .cons first rest, h => by
    cases d' with
    | nil =>
      obtain ⟨token, w, rfl, hk⟩ := first.exists_head
      simp only [kinds_nil, kinds_cons, kinds_append, List.cons_append, List.nil_append,
        List.cons.injEq] at h
      exact absurd (h.1 ▸ hk) (by decide)
    | cons first' rest' =>
      simp only [kinds_append, List.append_assoc] at h
      rw [first'.kinds_eq first h.symm, List.append_cancel_left_eq] at h
      exact rest'.exists_rest rest h

theorem Begun.exists_head {p : List Token} {need : Need} (b : Begun p need) :
    ∃ token rest, p = token :: rest ∧ token.kind = .leftParen := by
  cases b with
  | parenthesized opening opens => exact ⟨opening, _, rfl, opens⟩

/-- Items with an open expression behind them begin like an expression. -/
theorem Items.exists_head_append {w p : List Token} {ts : List ParseTree} {need : Need}
    (items : Items w ts) (last : Begun p need) :
    ∃ token rest, w ++ p = token :: rest ∧ token.kind ∈ Grammar.expressionFirst := by
  cases items with
  | nil =>
    obtain ⟨token, rest, rfl, hk⟩ := last.exists_head
    exact ⟨token, rest, rfl, by rw [hk]; decide⟩
  | cons first rest =>
    obtain ⟨token, w, rfl, hk⟩ := first.exists_head
    exact ⟨token, _, rfl, hk⟩

mutual

/-- A program that continues an open expression does so with a token that satisfies its need. -/
theorem Begun.accepts {w : List Token} {t : ParseTree} {e : Kind} {r s : List Kind}
    (d : Expression w t) : {p : List Token} → {need : Need} → Begun p need →
    kinds w ++ r = kinds p ++ e :: s → need.Accepts e
  | _, _, .parenthesized opening opens body, h => by
    cases d with
    | number token kind => simp [kind, opens] at h
    | identifier token kind => simp [kind, opens] at h
    | parenthesized opening' closing' opens' body' closes' =>
      simp only [kinds_cons, kinds_append, kinds_nil, List.cons_append, List.append_assoc,
        List.nil_append, List.cons.injEq, opens, opens', closes', true_and] at h
      exact body.accepts body' h

theorem BegunBody.accepts {w : List Token} {t : ParseTree} {e : Kind} {r s : List Kind}
    (d : Body w t) : {p : List Token} → {need : Need} → BegunBody p need →
    kinds w ++ .rightParen :: r = kinds p ++ e :: s → need.Accepts e
  | _, _, .start, h => by
    cases d with
    | form f leader known leads operands =>
      simp only [kinds_cons, List.cons_append, kinds_nil, List.nil_append, List.cons.injEq] at h
      refine .inl ?_
      rw [← h.1, Form.ofLeader?_eq_some_iff.2 ⟨known, leads.symm⟩]
      rfl
    | application items =>
      obtain ⟨token, w, rfl, hk⟩ := items.exists_head
      simp only [kinds_cons, List.cons_append, kinds_nil, List.nil_append, List.cons.injEq] at h
      exact .inr (h.1 ▸ hk)
  | _, _, .operands f leader known leads operands, h => by
    cases d with
    | form f' leader' known' leads' operands' =>
      simp only [kinds_cons, List.cons_append, List.cons.injEq, leads, leads'] at h
      cases Form.eq_of_leader_eq known' known h.1
      exact operands.accepts operands' h.2
    | application items =>
      obtain ⟨token, w, rfl, hk⟩ := items.exists_head
      simp only [kinds_cons, List.cons_append, List.cons.injEq, leads] at h
      exact absurd (h.1 ▸ hk) (Form.leader_not_mem_expressionFirst known)
  | _, _, .form f leader known leads operands, h => by
    cases d with
    | form f' leader' known' leads' operands' =>
      simp only [kinds_cons, List.cons_append, List.cons.injEq, leads, leads'] at h
      cases Form.eq_of_leader_eq known' known h.1
      have hw := h.2
      rw [operands'.kinds_eq operands h.2, List.append_cancel_left_eq, List.cons.injEq] at hw
      exact hw.1.symm
    | application items =>
      obtain ⟨token, w, rfl, hk⟩ := items.exists_head
      simp only [kinds_cons, List.cons_append, List.cons.injEq, leads] at h
      exact absurd (h.1 ▸ hk) (Form.leader_not_mem_expressionFirst known)
  | _, _, .application items, h => by
    cases d with
    | form f' leader' known' leads' operands' =>
      obtain ⟨token, w, rfl, hk⟩ := items.exists_head
      simp only [kinds_cons, List.cons_append, List.cons.injEq, leads'] at h
      exact absurd (h.1 ▸ hk) (Form.leader_not_mem_expressionFirst known')
    | application items' =>
      obtain ⟨w, ts, ⟨more⟩, hm⟩ := items'.exists_rest items h
      cases more with
      | nil => exact .inl (List.cons.inj hm).1.symm
      | cons first rest =>
        obtain ⟨token, w, rfl, hk⟩ := first.exists_head
        exact .inr ((List.cons.inj hm).1 ▸ hk)
  | _, _, .item items last, h => by
    obtain ⟨token, w, hp, hk⟩ := items.exists_head_append last
    cases d with
    | form f' leader' known' leads' operands' =>
      rw [hp] at h
      simp only [kinds_cons, List.cons_append, List.cons.injEq, leads'] at h
      exact absurd (h.1 ▸ hk) (Form.leader_not_mem_expressionFirst known')
    | application items' =>
      rw [kinds_append, List.append_assoc] at h
      obtain ⟨w, ts, ⟨more⟩, hm⟩ := items'.exists_rest items h
      cases more with
      | nil =>
        obtain ⟨token, p, rfl, hk⟩ := last.exists_head
        simp [hk] at hm
      | cons first rest =>
        rw [kinds_append, List.append_assoc] at hm
        exact last.accepts first hm

theorem BegunOperands.accepts {e : Kind} {r s : List Kind} : {ops : List Operand} →
    {w p : List Token} → {ts : List ParseTree} → {need : Need} → BegunOperands ops p need →
    Operands ops w ts → kinds w ++ r = kinds p ++ e :: s → need.Accepts e
  | _, _, _, _, _, .needExpression _, .expression first rest, h => by
    obtain ⟨token, w, rfl, hk⟩ := first.exists_head
    simp only [kinds_cons, kinds_append, List.cons_append, kinds_nil, List.nil_append,
      List.cons.injEq] at h
    exact h.1 ▸ hk
  | _, _, _, _, _, .needIdentifier _, .identifier token kind _ _, h => by
    simp only [kinds_cons, List.cons_append, kinds_nil, List.nil_append, List.cons.injEq] at h
    exact h.1.symm.trans kind
  | _, _, _, _, _, .within _ begun, .expression first rest, h => by
    rw [kinds_append, List.append_assoc] at h
    exact begun.accepts first h
  | _, _, _, _, _, .expression done begun, .expression first rest, h => by
    simp only [kinds_append, List.append_assoc] at h
    rw [done.kinds_eq first h, List.append_cancel_left_eq] at h
    exact begun.accepts rest h
  | _, _, _, _, _, .identifier _ _ _ begun, .identifier _ _ _ rest, h => by
    simp only [kinds_cons, List.cons_append, List.cons.injEq] at h
    exact begun.accepts rest h.2

end

/-! ### Every need can be met -/

/-- A token of each kind with which an expression begins does begin one. -/
theorem exists_expression {e : Kind} (h : e ∈ Grammar.expressionFirst) :
    ∃ token s t, token.kind = e ∧ Nonempty (Expression (token :: s) t) := by
  have d : Expression [.sample .number] (.number 0) := .number _ rfl rfl rfl
  have hk : e = .number ∨ e = .identifier ∨ e = .leftParen := by
    revert h
    cases e <;> decide
  rcases hk with rfl | rfl | rfl
  · exact ⟨.sample .number, [], _, rfl, ⟨d⟩⟩
  · exact ⟨.sample .identifier, [], _, rfl, ⟨.identifier _ rfl rfl⟩⟩
  · have body : Body [.sample .number] (.sequence (.number 0) []) := .application (.cons d .nil)
    exact ⟨.sample .leftParen, _, _, rfl,
      ⟨.parenthesized _ (.sample .rightParen) rfl body rfl⟩⟩

theorem exists_operands : (ops : List Operand) → ∃ w ts, Nonempty (Operands ops w ts)
  | [] => ⟨[], [], ⟨.nil⟩⟩
  | .expression :: ops => by
    obtain ⟨token, s, t, -, ⟨first⟩⟩ := exists_expression (e := .number) (by decide)
    obtain ⟨w, ts, ⟨rest⟩⟩ := exists_operands ops
    exact ⟨_, _, ⟨.expression first rest⟩⟩
  | .identifier :: ops => by
    obtain ⟨w, ts, ⟨rest⟩⟩ := exists_operands ops
    exact ⟨_, _, ⟨.identifier (.sample .identifier) rfl rfl rest⟩⟩

theorem exists_body {e : Kind} (h : Need.body.Accepts e) :
    ∃ token s t, token.kind = e ∧ Nonempty (Body (token :: s) t) := by
  rcases h with h | h
  · obtain ⟨f, hf⟩ := Option.isSome_iff_exists.1 h
    obtain ⟨known, rfl⟩ := Form.ofLeader?_eq_some_iff.1 hf
    obtain ⟨w, ts, ⟨operands⟩⟩ := exists_operands f.operands
    exact ⟨.sample f.leader, w, _, rfl, ⟨.form f _ known rfl operands⟩⟩
  · obtain ⟨token, s, t, rfl, ⟨first⟩⟩ := exists_expression h
    exact ⟨token, s, _, rfl, ⟨.application (by simpa using Items.cons first .nil)⟩⟩

/-- A further expression behind items is one more item. -/
theorem Items.nonempty_append {w' : List Token} {t : ParseTree} : {w : List Token} →
    {ts : List ParseTree} → Items w ts → Expression w' t → Nonempty (Items (w ++ w') (ts ++ [t]))
  | _, _, .nil, last => ⟨by simpa using Items.cons last .nil⟩
  | _, _, .cons first rest, last => by
    obtain ⟨d⟩ := rest.nonempty_append last
    rw [List.append_assoc]
    exact ⟨.cons first d⟩

/-- A body and the right parenthesis behind it. -/
def ClosedBody (w : List Token) : Prop :=
  ∃ w' closing t, w = w' ++ [closing] ∧ closing.kind = .rightParen ∧ Nonempty (Body w' t)

theorem Body.exists_closedBody {w : List Token} {t : ParseTree} (d : Body w t) :
    ∃ closing : Token, closing.kind = .rightParen ∧ ClosedBody (w ++ [closing]) :=
  ⟨.sample .rightParen, rfl, w, _, t, rfl, rfl, ⟨d⟩⟩

/-- A body that goes on with a token can be completed behind that token. -/
theorem Body.exists_closedBody_append {p s : List Token} {token : Token} {t : ParseTree}
    (d : Body (p ++ token :: s) t) : ∃ s', ClosedBody (p ++ token :: s') := by
  obtain ⟨closing, -, hc⟩ := d.exists_closedBody
  exact ⟨s ++ [closing], by simpa using hc⟩

mutual

/-- An open expression can be completed behind a token of any kind that satisfies its need. -/
theorem Begun.exists_completion {e : Kind} : {p : List Token} → {need : Need} →
    Begun p need → need.Accepts e →
    ∃ token s t, token.kind = e ∧ Nonempty (Expression (p ++ token :: s) t)
  | _, _, .parenthesized opening opens body, h => by
    obtain ⟨token, s, hk, w, closing, t, hw, closes, ⟨d⟩⟩ := body.exists_completion h
    exact ⟨token, s, t, hk, ⟨by simpa [hw] using Expression.parenthesized _ _ opens d closes⟩⟩

theorem BegunBody.exists_completion {e : Kind} : {p : List Token} → {need : Need} →
    BegunBody p need → need.Accepts e → ∃ token s, token.kind = e ∧ ClosedBody (p ++ token :: s)
  | _, _, .start, h => by
    obtain ⟨token, s, t, hk, ⟨d⟩⟩ := exists_body h
    obtain ⟨s', hc⟩ := d.exists_closedBody_append (p := [])
    exact ⟨token, s', hk, hc⟩
  | _, _, .operands f leader known leads operands, h => by
    obtain ⟨token, s, ts, hk, ⟨d⟩⟩ := operands.exists_completion h
    have body := Body.form f leader known leads d
    obtain ⟨s', hc⟩ := body.exists_closedBody_append (p := leader :: _)
    exact ⟨token, s', hk, hc⟩
  | _, _, .form f leader known leads operands, h => by
    obtain ⟨closing, hk, hc⟩ := (Body.form f leader known leads operands).exists_closedBody
    exact ⟨closing, [], hk.trans h.symm, hc⟩
  | _, _, .application items, h => by
    rcases h with rfl | h
    · obtain ⟨closing, hk, hc⟩ := (Body.application items).exists_closedBody
      exact ⟨closing, [], hk, hc⟩
    · obtain ⟨token, s, t, hk, ⟨d⟩⟩ := exists_expression h
      obtain ⟨more⟩ := items.nonempty_append d
      obtain ⟨s', hc⟩ := (Body.application more).exists_closedBody_append
      exact ⟨token, s', hk, hc⟩
  | _, _, .item items last, h => by
    obtain ⟨token, s, t, hk, ⟨d⟩⟩ := last.exists_completion h
    obtain ⟨more⟩ := items.nonempty_append d
    obtain ⟨head, tail, he⟩ := List.exists_cons_of_ne_nil
      (List.append_ne_nil_of_right_ne_nil _ (List.cons_ne_nil t []))
    rw [he, ← List.append_assoc] at more
    obtain ⟨s', hc⟩ := (Body.application more).exists_closedBody_append
    exact ⟨token, s', hk, hc⟩

theorem BegunOperands.exists_completion {e : Kind} : {ops : List Operand} → {p : List Token} →
    {need : Need} → BegunOperands ops p need → need.Accepts e →
    ∃ token s ts, token.kind = e ∧ Nonempty (Operands ops (p ++ token :: s) ts)
  | _, _, _, .needExpression ops, h => by
    obtain ⟨token, s, t, hk, ⟨first⟩⟩ := exists_expression h
    obtain ⟨w, ts, ⟨rest⟩⟩ := exists_operands ops
    exact ⟨token, s ++ w, _, hk, ⟨by simpa using Operands.expression first rest⟩⟩
  | _, _, _, .needIdentifier ops, h => by
    obtain ⟨w, ts, ⟨rest⟩⟩ := exists_operands ops
    exact ⟨.sample .identifier, w, _, h.symm, ⟨.identifier _ rfl rfl rest⟩⟩
  | _, _, _, .within ops begun, h => by
    obtain ⟨token, s, t, hk, ⟨first⟩⟩ := begun.exists_completion h
    obtain ⟨w, ts, ⟨rest⟩⟩ := exists_operands ops
    exact ⟨token, s ++ w, _, hk, ⟨by simpa using Operands.expression first rest⟩⟩
  | _, _, _, .expression first begun, h => by
    obtain ⟨token, s, ts, hk, ⟨rest⟩⟩ := begun.exists_completion h
    exact ⟨token, s, _, hk, ⟨by simpa using Operands.expression first rest⟩⟩
  | _, _, _, .identifier token kind spelled begun, h => by
    obtain ⟨token', s, ts, hk, ⟨rest⟩⟩ := begun.exists_completion h
    exact ⟨token', s, _, hk, ⟨.identifier token kind spelled rest⟩⟩

end

end Phrase

end LispReader
