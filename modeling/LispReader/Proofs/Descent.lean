import LispReader.Application

/-! Reading by recursive descent.

An expression, a body, operands and items are read here by functions that call each other, in the
way in which the language is described. Each gives a value and the position behind it, or a fault
and the position it leaves. The stack machine for applications and the derivations driven by the
parse table keep explicit stacks instead; they are compared with these functions. -/
namespace LispReader.Descent

/-- A value and the position behind it, which is not before a given one. -/
structure Read (α : Type) (c : Cursor) where
  value : α
  cursor : Cursor
  length_le : cursor.ahead.length ≤ c.ahead.length

/-- A value that was read from a position on, or a fault and the position it leaves. -/
abbrev Reply (α : Type) (c : Cursor) := Except (ParseFault × Cursor) (Read α c)

namespace Reply

variable {α β γ : Type} {c c' : Cursor}

def map (f : α → β) : Reply α c → Reply β c
  | .ok r => .ok ⟨f r.value, r.cursor, r.length_le⟩
  | .error stop => .error stop

/-- Forgets how far the position is at least. -/
def weaken (h : c.ahead.length ≤ c'.ahead.length) : Reply α c → Reply α c'
  | .ok r => .ok ⟨r.value, r.cursor, Nat.le_trans r.length_le h⟩
  | .error stop => .error stop

/-- Reads on behind a value. -/
def bind (x : Reply α c) (f : (r : Read α c) → Reply β r.cursor) : Reply β c :=
  match x with
  | .ok r => (f r).weaken r.length_le
  | .error stop => .error stop

/-- What becomes of a reply when a value is passed on with the position behind it. -/
def elim (x : Reply α c) (value : α → Cursor → γ) (fault : ParseFault → Cursor → γ) : γ :=
  match x with
  | .ok r => value r.value r.cursor
  | .error stop => fault stop.1 stop.2

/-- The reply as the end of a run. -/
def result (x : Reply ParseTree c) : Application.Result :=
  x.elim (fun t c => (.ok t, c)) fun fault c => (.error fault, c)

@[simp] theorem elim_map (f : α → β) (x : Reply α c) (value : β → Cursor → γ)
    (fault : ParseFault → Cursor → γ) :
    (x.map f).elim value fault = x.elim (fun a c => value (f a) c) fault := by
  cases x <;> rfl

@[simp] theorem elim_weaken (h : c.ahead.length ≤ c'.ahead.length) (x : Reply α c)
    (value : α → Cursor → γ) (fault : ParseFault → Cursor → γ) :
    (x.weaken h).elim value fault = x.elim value fault := by
  cases x <;> rfl

theorem elim_bind (x : Reply α c) (f : (r : Read α c) → Reply β r.cursor)
    (value : β → Cursor → γ) (fault : ParseFault → Cursor → γ) :
    (x.bind f).elim value fault =
      match x with
      | .ok r => (f r).elim value fault
      | .error stop => fault stop.1 stop.2 := by
  cases x with
  | ok r => exact elim_weaken r.length_le ..
  | error stop => rfl

end Reply

/-! ### Single tokens -/

/-- The value of a token that has been passed. -/
def value (token : Token) (c : Cursor) : Reply ParseTree c :=
  match token.leaf with
  | .ok t => .ok ⟨t, c, Nat.le_refl _⟩
  | .error fault => .error (fault, c)

/-- A token of a given kind. -/
def token (kind : Kind) (c : Cursor) : Reply Token c :=
  match h : c.expect kind with
  | .ok (t, c') => .ok ⟨t, c', Cursor.length_ahead_of_expect h⟩
  | .error fault => .error (.refused fault, c)

theorem elim_value {γ : Type} (t : Token) (c : Cursor) (found : ParseTree → Cursor → γ)
    (fault : ParseFault → Cursor → γ) :
    (value t c).elim found fault =
      match (t.leaf : Except ParseFault ParseTree) with
      | .ok t => found t c
      | .error f => fault f c := by
  unfold value
  split <;> rfl

theorem token_of_eq {kind : Kind} {c : Cursor} (h : c.current.kind = kind) :
    token kind c = .ok ⟨c.current, c.advance, c.length_ahead_advance_le⟩ := by
  unfold token
  split <;> rename_i he <;> rw [Cursor.expect, if_pos h] at he <;> cases he
  rfl

theorem token_of_ne {kind : Kind} {c : Cursor} (h : c.current.kind ≠ kind) :
    token kind c = .error (.refused (.mismatch kind c.current), c) := by
  unfold token
  split <;> rename_i he <;> rw [Cursor.expect, if_neg h] at he <;> cases he
  rfl

/-- The value of an identifier token. -/
def identifier (c : Cursor) : Reply ParseTree c :=
  (token .identifier c).bind fun r => value r.value r.cursor

theorem identifier_of_eq {c : Cursor} (h : c.current.kind = .identifier) :
    identifier c = (value c.current c.advance).weaken c.length_ahead_advance_le := by
  rw [identifier, token_of_eq h]
  rfl

theorem identifier_of_ne {c : Cursor} (h : c.current.kind ≠ .identifier) :
    identifier c = .error (.refused (.mismatch .identifier c.current), c) := by
  rw [identifier, token_of_ne h]
  rfl

theorem length_ahead_advance_lt {c : Cursor} (h : c.current.kind ≠ .endOfInput) :
    c.advance.ahead.length < c.ahead.length := by
  have := Cursor.length_ahead_advance h
  omega

/-- No expression begins with the end of input. -/
theorem ne_endOfInput_of_mem {kind : Kind} (h : kind ∈ Grammar.expressionFirst) :
    kind ≠ .endOfInput := by
  intro he
  subst he
  revert h
  decide

/-- No form begins with the end of input. -/
theorem ne_endOfInput_of_ofLeader? {kind : Kind} {f : Form} (h : Form.ofLeader? kind = some f) :
    kind ≠ .endOfInput := by
  intro he
  subst he
  revert h
  decide +revert

/-! ### Phrases -/

mutual

/-- A number, an identifier, or a body in parentheses. -/
def expression (c : Cursor) : Reply ParseTree c.advance :=
  match _h : c.current.kind with
  | .number | .identifier => value c.current c.advance
  | .leftParen => (body c.advance).bind fun r => (token .rightParen r.cursor).map fun _ => r.value
  | _ => .error (.refused (.unexpected c.current (Grammar.standard.expected .expression)
      Nonterminal.expression.name), c)
termination_by (c.ahead.length, 0)
decreasing_by exact Prod.Lex.left _ _ (length_ahead_advance_lt (by simp [‹c.current.kind = _›]))

/-- A leader and the operands of its form, or an application. -/
def body (c : Cursor) : Reply ParseTree c :=
  match _h : Form.ofLeader? c.current.kind with
  | some form => ((operands form.operands c.advance).map form.tree).weaken c.length_ahead_advance_le
  | none =>
    if c.current.kind ∈ Grammar.expressionFirst then application c
    else .error (.refused (.unexpected c.current (Grammar.standard.expected .parenBody)
      Nonterminal.parenBody.name), c)
termination_by (c.ahead.length, 3)
decreasing_by
  · exact Prod.Lex.left _ _ (length_ahead_advance_lt (ne_endOfInput_of_ofLeader? ‹_›))
  · exact Prod.Lex.right _ (by omega)

/-- Operands in their order. -/
def operands (ops : List Operand) (c : Cursor) : Reply (List ParseTree) c :=
  match ops with
  | [] => .ok ⟨[], c, Nat.le_refl _⟩
  | .expression :: ops =>
    ((expression c).bind fun r => (operands ops r.cursor).map (r.value :: ·)).weaken
      c.length_ahead_advance_le
  | .identifier :: ops =>
    (identifier c).bind fun r => (operands ops r.cursor).map (r.value :: ·)
termination_by (c.ahead.length, 1 + ops.length)
decreasing_by
  · exact Prod.Lex.right _ (by omega)
  · exact Prod.Lex.right' _ (Nat.le_trans r.length_le c.length_ahead_advance_le) (by simp)
  · exact Prod.Lex.right' _ r.length_le (by simp)

/-- An expression and the items behind it. -/
def application (c : Cursor) : Reply ParseTree c :=
  ((expression c).bind fun r => (items r.cursor).map (.sequence r.value)).weaken
    c.length_ahead_advance_le
termination_by (c.ahead.length, 2)
decreasing_by
  · exact Prod.Lex.right _ (by omega)
  · exact Prod.Lex.right' _ (Nat.le_trans r.length_le c.length_ahead_advance_le) (by omega)

/-- Expressions up to the first token that begins none. -/
def items (c : Cursor) : Reply (List ParseTree) c :=
  if c.current.kind ∈ Grammar.expressionFirst then
    ((expression c).bind fun r => (items r.cursor).map (r.value :: ·)).weaken
      c.length_ahead_advance_le
  else .ok ⟨[], c, Nat.le_refl _⟩
termination_by (c.ahead.length, 1)
decreasing_by
  · exact Prod.Lex.right _ (by omega)
  · have := length_ahead_advance_lt (ne_endOfInput_of_mem ‹_›)
    exact Prod.Lex.left _ _ (Nat.lt_of_le_of_lt r.length_le this)

end

/-- An expression in front of the end of input. -/
def program (c : Cursor) : Reply ParseTree c :=
  ((expression c).bind fun r => (token .endOfInput r.cursor).map fun _ => r.value).weaken
    c.length_ahead_advance_le

/-! ### Case by case -/

section

variable {c : Cursor}

theorem expression_of_leaf (h : c.current.kind = .number ∨ c.current.kind = .identifier) :
    expression c = value c.current c.advance := by
  rw [expression]
  split <;> simp_all

theorem expression_of_leftParen (h : c.current.kind = .leftParen) :
    expression c =
      (body c.advance).bind fun r => (token .rightParen r.cursor).map fun _ => r.value := by
  rw [expression]
  split <;> simp_all

theorem expression_other (h : c.current.kind ∉ Grammar.expressionFirst) :
    expression c = .error (.refused (.unexpected c.current (Grammar.standard.expected .expression)
      Nonterminal.expression.name), c) := by
  rw [expression]
  split
  · next hk => exact absurd (hk ▸ h) (by decide)
  · next hk => exact absurd (hk ▸ h) (by decide)
  · next hk => exact absurd (hk ▸ h) (by decide)
  · rfl

theorem body_of_form {form : Form} (h : Form.ofLeader? c.current.kind = some form) :
    body c = ((operands form.operands c.advance).map form.tree).weaken
      c.length_ahead_advance_le := by
  rw [body]
  split <;> simp_all

theorem body_of_application (h : Form.ofLeader? c.current.kind = none)
    (hk : c.current.kind ∈ Grammar.expressionFirst) : body c = application c := by
  rw [body]
  split <;> simp_all

theorem body_other (h : Form.ofLeader? c.current.kind = none)
    (hk : c.current.kind ∉ Grammar.expressionFirst) :
    body c = .error (.refused (.unexpected c.current (Grammar.standard.expected .parenBody)
      Nonterminal.parenBody.name), c) := by
  rw [body]
  split <;> simp_all

end

/-- Induction along the calls of the functions, with the cases in which each of them ends. -/
theorem induction {E B A I : Cursor → Prop} {O : List Operand → Cursor → Prop}
    (leaf : ∀ c, c.current.kind = .number ∨ c.current.kind = .identifier → E c)
    (parenthesized : ∀ c, c.current.kind = .leftParen → B c.advance → E c)
    (noExpression : ∀ c, c.current.kind ∉ Grammar.expressionFirst → E c)
    (form : ∀ c f, Form.ofLeader? c.current.kind = some f → O f.operands c.advance → B c)
    (unled : ∀ c, Form.ofLeader? c.current.kind = none →
      c.current.kind ∈ Grammar.expressionFirst → A c → B c)
    (noBody : ∀ c, Form.ofLeader? c.current.kind = none →
      c.current.kind ∉ Grammar.expressionFirst → B c)
    (application : ∀ c, E c → (∀ r : Read ParseTree c.advance, I r.cursor) → A c)
    (item : ∀ c, c.current.kind ∈ Grammar.expressionFirst → E c →
      (∀ r : Read ParseTree c.advance, I r.cursor) → I c)
    (noItem : ∀ c, c.current.kind ∉ Grammar.expressionFirst → I c)
    (noOperand : ∀ c, O [] c)
    (operand : ∀ c ops, E c → (∀ r : Read ParseTree c.advance, O ops r.cursor) →
      O (.expression :: ops) c)
    (name : ∀ c ops, (∀ r : Read ParseTree c, O ops r.cursor) → O (.identifier :: ops) c) :
    (∀ c, E c) ∧ (∀ c, B c) ∧ (∀ c, A c) ∧ (∀ c, I c) ∧ ∀ ops c, O ops c := by
  refine expression.mutual_induct E B A I O (fun c h => leaf c (.inl h))
    (fun c h => leaf c (.inr h)) parenthesized (fun c hn hi hp => noExpression c ?_) form unled
    noBody application item noItem noOperand operand name
  cases hk : c.current.kind with
  | number => exact absurd hk hn
  | identifier => exact absurd hk hi
  | leftParen => exact absurd hk hp
  | _ => decide

end LispReader.Descent
