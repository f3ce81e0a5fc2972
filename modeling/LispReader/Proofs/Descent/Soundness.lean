import LispReader.Proofs.Descent.Passage

/-! What is read is a phrase.

A value comes from a phrase of the language that begins at the position. A refused token stands
behind the beginning of a phrase and does not satisfy its need, and a numeral that denotes no
integer is the lexeme of a number token. Nothing else ends the reading. This is shown for all the
functions together, along their calls: `sound`. -/
namespace LispReader.Descent
open Phrase

/-! ### Faults -/

/-- A fault is either of a token that does not satisfy the need of the beginning in front of it,
or of an unreadable number. -/
def Stopped (begun : List Token → Need → Prop) (c : Cursor) : ParseFault → Cursor → Prop
  | .refused fault, c' => ∃ p need, Passes c p c' ∧ begun p need ∧
      fault = need.fault c'.current ∧ ¬ need.Accepts c'.current.kind
  | .numeral fault, _ => ∃ token ∈ c.ahead, Unreadable token fault
  | .state _, _ => False

theorem Stopped.imp {begun begun' : List Token → Need → Prop} {c₀ c c' : Cursor}
    {fault : ParseFault} {w : List Token} (hw : Passes c₀ w c)
    (h : ∀ p need, begun p need → begun' (w ++ p) need) (hs : Stopped begun c fault c') :
    Stopped begun' c₀ fault c' := by
  cases fault with
  | refused fault =>
    obtain ⟨p, need, hp, hb, hf, ha⟩ := hs
    exact ⟨w ++ p, need, hw.trans hp, h p need hb, hf, ha⟩
  | numeral fault =>
    obtain ⟨token, ht, hu⟩ := hs
    exact ⟨token, by simp [hw.ahead, ht], hu⟩
  | state fault => exact hs.elim

theorem Stopped.mono {begun begun' : List Token → Need → Prop} {c c' : Cursor} {fault : ParseFault}
    (h : ∀ p need, begun p need → begun' p need) (hs : Stopped begun c fault c') :
    Stopped begun' c fault c' :=
  hs.imp (.refl c) h

/-- The token at the position is refused. -/
theorem stopped_at {begun : List Token → Need → Prop} {c : Cursor} (need : Need)
    (hb : begun [] need) (h : ¬ need.Accepts c.current.kind) :
    Stopped begun c (.refused (need.fault c.current)) c :=
  ⟨[], need, .refl c, hb, rfl, h⟩

/-! ### What the replies mean -/

/-- A beginning, or the place in front of it, where an expression is needed. -/
def Entering (begun : List Token → Need → Prop) (p : List Token) (need : Need) : Prop :=
  p = [] ∧ need = .expression ∨ begun p need

/-- Items of which the last one is open. -/
inductive BegunItems : List Token → Need → Prop
  | within {w p : List Token} {ts : List ParseTree} {need : Need} (items : Items w ts)
      (last : Begun p need) : BegunItems (w ++ p) need

/-- Nothing but a right parenthesis can follow the body, or the next token is no item of it. -/
def AtClosing (w : List Token) (c : Cursor) : Prop :=
  ∃ need, BegunBody w need ∧ (∀ token, need.fault token = .mismatch .rightParen token) ∧
    (need.Accepts c.current.kind → c.current.kind = .rightParen)

/-- A value is that of an expression, and a fault is accounted for. -/
def SoundExpression (c : Cursor) : Prop :=
  (expression c).elim (fun t c' => ∃ w, Passes c w c' ∧ Nonempty (Expression w t))
    (Stopped (Entering Begun) c)

/-- What follows a body is known to be what the body can be followed by, or to be a mistake. -/
def SoundBody (c : Cursor) : Prop :=
  (body c).elim (fun t c' => ∃ w, Passes c w c' ∧ Nonempty (Body w t) ∧ AtClosing w c')
    (Stopped BegunBody c)

def SoundApplication (c : Cursor) : Prop :=
  (application c).elim
    (fun t c' => ∃ w head tail, t = .sequence head tail ∧ Passes c w c' ∧
      Nonempty (Items w (head :: tail)) ∧ c'.current.kind ∉ Grammar.expressionFirst)
    (Stopped (Entering BegunItems) c)

/-- Items end in front of a token that begins no other one. -/
def SoundItems (c : Cursor) : Prop :=
  (items c).elim
    (fun ts c' => ∃ w, Passes c w c' ∧ Nonempty (Items w ts) ∧
      c'.current.kind ∉ Grammar.expressionFirst)
    (Stopped BegunItems c)

def SoundOperands (ops : List Operand) (c : Cursor) : Prop :=
  (operands ops c).elim (fun ts c' => ∃ w, Passes c w c' ∧ Nonempty (Operands ops w ts))
    (Stopped (BegunOperands ops) c)

/-- A token with which an expression begins is not refused where one is needed. -/
theorem Stopped.of_entering {begun : List Token → Need → Prop} {c c' : Cursor} {fault : ParseFault}
    (h : c.current.kind ∈ Grammar.expressionFirst) (hs : Stopped (Entering begun) c fault c') :
    Stopped begun c fault c' := by
  cases fault with
  | refused fault =>
    obtain ⟨p, need, hp, hb, hf, ha⟩ := hs
    rcases hb with ⟨rfl, rfl⟩ | hb
    -- Nothing has been passed, so the token refused would be the first one.
    · cases hp.unique (.refl c)
      exact absurd h ha
    · exact ⟨p, need, hp, hb, hf, ha⟩
  | numeral fault => exact hs
  | state fault => exact hs

/-! ### The functions, case by case -/

variable {c : Cursor}

/-- The value of a number or an identifier token is its phrase. -/
theorem elim_value_current (h : c.current.kind = .number ∨ c.current.kind = .identifier) :
    (value c.current c.advance).elim
      (fun t c' => Passes c [c.current] c' ∧ Nonempty (Expression [c.current] t))
      (Stopped (Entering Begun) c) := by
  have hp : Passes c [c.current] c.advance := .advance (by rcases h with h | h <;> simp [h])
  rw [elim_value]
  rcases leaf_cases h with ⟨t, ht, d⟩ | ⟨fault, hf, hu⟩
  · rw [ht]
    exact ⟨hp, d⟩
  · rw [hf]
    exact ⟨c.current, by simp [hp.ahead], hu⟩

theorem soundExpression_leaf (h : c.current.kind = .number ∨ c.current.kind = .identifier) :
    SoundExpression c := by
  have hv := elim_value_current h
  rw [SoundExpression, expression_of_leaf h]
  cases hx : value c.current c.advance with
  | error stop => rw [hx] at hv; exact hv
  | ok r => rw [hx] at hv; exact ⟨_, hv⟩

theorem soundExpression_leftParen (h : c.current.kind = .leftParen) (hb : SoundBody c.advance) :
    SoundExpression c := by
  have hp : Passes c [c.current] c.advance := .advance (by simp [h])
  rw [SoundBody] at hb
  rw [SoundExpression, expression_of_leftParen h, Reply.elim_bind]
  cases hx : body c.advance with
  | error stop =>
    rw [hx] at hb
    exact Stopped.imp hp (fun p need b => .inr (.parenthesized _ h b)) hb
  | ok r =>
    rw [hx] at hb
    obtain ⟨w, hw, ⟨d⟩, need, begun, hf, ha⟩ := hb
    show ((token .rightParen r.cursor).map fun _ => r.value).elim _ _
    rw [Reply.elim_map]
    by_cases hk : r.cursor.current.kind = .rightParen
    · rw [token_of_eq hk]
      have hc : Passes r.cursor [r.cursor.current] r.cursor.advance := .advance (by simp [hk])
      exact ⟨_, hp.trans (hw.trans hc), ⟨.parenthesized _ _ h d hk⟩⟩
    · rw [token_of_ne hk]
      -- An item was possible too, but the body would have gone on with it.
      refine ⟨_, need, hp.trans hw, .inr (.parenthesized _ h begun), (hf _).symm, ?_⟩
      exact fun hacc => hk (ha hacc)

theorem soundExpression_other (h : c.current.kind ∉ Grammar.expressionFirst) :
    SoundExpression c := by
  rw [SoundExpression, expression_other h]
  exact stopped_at .expression (.inl ⟨rfl, rfl⟩) h

theorem soundBody_of_form {f : Form} (h : Form.ofLeader? c.current.kind = some f)
    (ho : SoundOperands f.operands c.advance) : SoundBody c := by
  obtain ⟨known, leads⟩ := Form.ofLeader?_eq_some_iff.1 h
  have hp : Passes c [c.current] c.advance := .advance (ne_endOfInput_of_ofLeader? h)
  rw [SoundOperands] at ho
  rw [SoundBody, body_of_form h, Reply.elim_weaken, Reply.elim_map]
  cases hx : operands f.operands c.advance with
  | error stop =>
    rw [hx] at ho
    exact Stopped.imp hp (fun p need b => .operands f _ known leads.symm b) ho
  | ok r =>
    rw [hx] at ho
    obtain ⟨w, hw, ⟨d⟩⟩ := ho
    refine ⟨_, hp.trans hw, ⟨.form f _ known leads.symm d⟩, .closing, ?_, fun _ => rfl, id⟩
    exact .form f _ known leads.symm d

theorem soundBody_of_application (h : Form.ofLeader? c.current.kind = none)
    (hk : c.current.kind ∈ Grammar.expressionFirst) (ha : SoundApplication c) : SoundBody c := by
  rw [SoundApplication] at ha
  rw [SoundBody, body_of_application h hk]
  cases hx : application c with
  | error stop =>
    rw [hx] at ha
    exact Stopped.mono (fun _ _ ⟨items, last⟩ => .item items last) (Stopped.of_entering hk ha)
  | ok r =>
    rw [hx] at ha
    obtain ⟨w, head, tail, ht, hw, ⟨d⟩, hn⟩ := ha
    refine ⟨w, hw, ?_, .item, .application d, fun _ => rfl, fun h => h.resolve_right hn⟩
    show Nonempty (Body w r.value)
    rw [ht]
    exact ⟨.application d⟩

theorem soundBody_other (h : Form.ofLeader? c.current.kind = none)
    (hk : c.current.kind ∉ Grammar.expressionFirst) : SoundBody c := by
  rw [SoundBody, body_other h hk]
  refine stopped_at .body .start ?_
  intro ha
  rcases ha with ha | ha
  · simp [h] at ha
  · exact hk ha

/-- An expression and the items behind it. -/
theorem elim_expression_items {γ : Type} {f : ParseTree → List ParseTree → γ}
    {found : γ → Cursor → Prop} {fault : ParseFault → Cursor → Prop} (he : SoundExpression c)
    (hi : ∀ r : Read ParseTree c.advance, SoundItems r.cursor)
    (hf : ∀ w t ts c', Passes c w c' → Items w (t :: ts) →
      c'.current.kind ∉ Grammar.expressionFirst → found (f t ts) c')
    (hs : ∀ e c', Stopped (Entering BegunItems) c e c' → fault e c') :
    ((expression c).bind fun r => (items r.cursor).map (f r.value)).elim found fault := by
  rw [SoundExpression] at he
  rw [Reply.elim_bind]
  cases hx : expression c with
  | error stop =>
    rw [hx] at he
    refine hs _ _ (Stopped.mono ?_ he)
    intro p need hb
    rcases hb with ⟨rfl, rfl⟩ | begun
    · exact .inl ⟨rfl, rfl⟩
    · exact .inr (.within .nil begun)
  | ok r =>
    rw [hx] at he
    obtain ⟨w, hw, ⟨d⟩⟩ := he
    have hi := hi r
    rw [SoundItems] at hi
    show ((items r.cursor).map (f r.value)).elim _ _
    rw [Reply.elim_map]
    cases hy : items r.cursor with
    | error stop =>
      rw [hy] at hi
      refine hs _ _ (Stopped.imp hw ?_ hi)
      intro p need hb
      obtain ⟨items, last⟩ := hb
      rw [← List.append_assoc]
      exact .inr (.within (.cons d items) last)
    | ok r' =>
      rw [hy] at hi
      obtain ⟨w', hw', ⟨d'⟩, hn⟩ := hi
      exact hf _ _ _ _ (hw.trans hw') (.cons d d') hn

theorem soundApplication (he : SoundExpression c)
    (hi : ∀ r : Read ParseTree c.advance, SoundItems r.cursor) : SoundApplication c := by
  rw [SoundApplication, application, Reply.elim_weaken]
  refine elim_expression_items he hi ?_ fun _ _ hs => hs
  exact fun w t ts c' hw d hn => ⟨w, t, ts, rfl, hw, ⟨d⟩, hn⟩

theorem soundItems_of_mem (hk : c.current.kind ∈ Grammar.expressionFirst)
    (he : SoundExpression c) (hi : ∀ r : Read ParseTree c.advance, SoundItems r.cursor) :
    SoundItems c := by
  rw [SoundItems, items, if_pos hk, Reply.elim_weaken]
  refine elim_expression_items he hi ?_ fun _ _ hs => hs.of_entering hk
  exact fun w t ts c' hw d hn => ⟨w, hw, ⟨d⟩, hn⟩

theorem soundItems_of_not_mem (hk : c.current.kind ∉ Grammar.expressionFirst) :
    SoundItems c := by
  rw [SoundItems, items, if_neg hk]
  exact ⟨[], .refl c, ⟨.nil⟩, hk⟩

theorem soundOperands_nil (c : Cursor) : SoundOperands [] c := by
  rw [SoundOperands, operands]
  exact ⟨[], .refl c, ⟨.nil⟩⟩

theorem soundOperands_expression {ops : List Operand} (he : SoundExpression c)
    (ho : ∀ r : Read ParseTree c.advance, SoundOperands ops r.cursor) :
    SoundOperands (.expression :: ops) c := by
  rw [SoundExpression] at he
  rw [SoundOperands, operands, Reply.elim_weaken, Reply.elim_bind]
  cases hx : expression c with
  | error stop =>
    rw [hx] at he
    refine Stopped.mono ?_ he
    intro p need hb
    rcases hb with ⟨rfl, rfl⟩ | begun
    · exact .needExpression ops
    · exact .within ops begun
  | ok r =>
    rw [hx] at he
    obtain ⟨w, hw, ⟨d⟩⟩ := he
    have ho := ho r
    rw [SoundOperands] at ho
    show ((operands ops r.cursor).map (r.value :: ·)).elim _ _
    rw [Reply.elim_map]
    cases hy : operands ops r.cursor with
    | error stop =>
      rw [hy] at ho
      exact Stopped.imp hw (fun p need begun => .expression d begun) ho
    | ok r' =>
      rw [hy] at ho
      obtain ⟨w', hw', ⟨d'⟩⟩ := ho
      exact ⟨_, hw.trans hw', ⟨.expression d d'⟩⟩

theorem soundOperands_identifier {ops : List Operand}
    (ho : ∀ r : Read ParseTree c, SoundOperands ops r.cursor) :
    SoundOperands (.identifier :: ops) c := by
  rw [SoundOperands, operands, Reply.elim_bind]
  by_cases hk : c.current.kind = .identifier
  · obtain ⟨name, hl⟩ := exists_lexeme (.inr hk)
    have hp : Passes c [c.current] c.advance := .advance (by simp [hk])
    have hv : identifier c = .ok ⟨.symbol name, c.advance, c.length_ahead_advance_le⟩ := by
      rw [identifier_of_eq hk, value, leaf_identifier hk hl]
      rfl
    have ho := ho ⟨.symbol name, c.advance, c.length_ahead_advance_le⟩
    rw [SoundOperands] at ho
    rw [hv]
    show ((operands ops c.advance).map (_ :: ·)).elim _ _
    rw [Reply.elim_map]
    cases hy : operands ops c.advance with
    | error stop =>
      rw [hy] at ho
      exact Stopped.imp hp (fun p need begun => .identifier _ hk hl begun) ho
    | ok r =>
      rw [hy] at ho
      obtain ⟨w, hw, ⟨d⟩⟩ := ho
      exact ⟨_, hp.trans hw, ⟨.identifier _ hk hl d⟩⟩
  · rw [identifier_of_ne hk]
    exact stopped_at .identifier (.needIdentifier ops) hk

theorem sound : (∀ c, SoundExpression c) ∧ (∀ c, SoundBody c) ∧ (∀ c, SoundApplication c) ∧
    (∀ c, SoundItems c) ∧ ∀ ops c, SoundOperands ops c :=
  Descent.induction (fun _ => soundExpression_leaf) (fun _ => soundExpression_leftParen)
    (fun _ => soundExpression_other) (fun _ _ => soundBody_of_form)
    (fun _ => soundBody_of_application) (fun _ => soundBody_other) (fun _ => soundApplication)
    (fun _ => soundItems_of_mem) (fun _ => soundItems_of_not_mem) soundOperands_nil
    (fun _ _ => soundOperands_expression) fun _ _ => soundOperands_identifier

theorem length_of_operands {ops : List Operand} {r : Read (List ParseTree) c}
    (h : operands ops c = .ok r) : r.value.length = ops.length := by
  have hs := sound.2.2.2.2 ops c
  rw [SoundOperands, h] at hs
  obtain ⟨w, -, ⟨d⟩⟩ := hs
  exact d.length_eq

end LispReader.Descent
