import LispReader.Proofs.ViablePrefix

/-! Where unreadable numbers end a parse.

A number token that denotes no integer ends the parse that gets to it. Whether a parse gets to it
depends on kinds only: those of the tokens in front of it and of the number itself have to begin
some program. `exists_numeral_iff` says so. How the parse gets to a number is seen by following the
reading by recursive descent. Conversely, the numbers of a tree have been read, and so have those in
front of a refused token, with which no program goes on. -/
namespace LispReader

namespace Descent
open Phrase

/-! ### Meeting an unreadable number -/

/-- An unreadable number stands where one of the words goes on with a number. -/
def Meets (words : List Token → Prop) (c : Cursor) (fault : Numeral.Fault) : Prop :=
  ∃ p c' w r, Passes c p c' ∧ Unreadable c'.current fault ∧ words w ∧
    kinds w = kinds p ++ .number :: r

/-- If an unreadable number ends the reading, it is met. -/
def EndsAmong (words : List Token → Prop) (c₀ : Cursor) {α : Type} {c : Cursor}
    (x : Reply α c) : Prop :=
  ∀ fault c', x = .error (.numeral fault, c') → Meets words c₀ fault

namespace EndsAmong

variable {α β : Type} {words words' : List Token → Prop} {c₀ c c' : Cursor} {x : Reply α c}

theorem ok (r : Read α c) : EndsAmong words c₀ (.ok r) := nofun

theorem refused (fault : SyntaxFault) :
    EndsAmong words c₀ (.error (.refused fault, c') : Reply α c) := nofun

/-- What is met among the words is met among longer ones. -/
theorem within {v : List Token} (h : EndsAmong words c₀ x) (hp : Passes c' v c₀)
    (hw : ∀ w, words w → ∃ w', words' (v ++ (w ++ w'))) : EndsAmong words' c' x := by
  intro fault c₁ hx
  obtain ⟨p, c₂, w, r, hp', hu, hword, hk⟩ := h fault c₁ hx
  obtain ⟨w', hw'⟩ := hw w hword
  exact ⟨v ++ p, c₂, _, r ++ kinds w', hp.trans hp', hu, hw', by simp [hk]⟩

/-- What is met among the words is met behind other tokens. -/
theorem behind {v : List Token} (h : EndsAmong words c₀ x) (hp : Passes c' v c₀)
    (hw : ∀ w, words w → words' (v ++ w)) : EndsAmong words' c' x :=
  h.within hp fun w hword => ⟨[], by rw [List.append_nil]; exact hw w hword⟩

/-- A reading that ends where its first part does meets what this part meets. -/
theorem of_stop {y : Reply β c'} (h : EndsAmong words c₀ x)
    (hstop : ∀ stop, x = .error stop → y = .error stop)
    (hread : ∀ r, x = .ok r → EndsAmong words c₀ y) : EndsAmong words c₀ y := by
  cases x with
  | ok r => exact hread r rfl
  | error stop =>
    intro fault c₁ hy
    cases (hstop stop rfl).symm.trans hy
    exact h fault c₁ rfl

theorem weaken (h : EndsAmong words c₀ x) (hl : c.ahead.length ≤ c'.ahead.length) :
    EndsAmong words c₀ (x.weaken hl) := by
  refine h.of_stop ?_ ?_
  · rintro stop rfl
    rfl
  · rintro r rfl
    exact .ok _

theorem map (h : EndsAmong words c₀ x) (f : α → β) : EndsAmong words c₀ (x.map f) := by
  refine h.of_stop ?_ ?_
  · rintro stop rfl
    rfl
  · rintro r rfl
    exact .ok _

theorem bind {f : (r : Read α c) → Reply β r.cursor} (h : EndsAmong words c₀ x)
    (hf : ∀ r, x = .ok r → EndsAmong words c₀ (f r)) : EndsAmong words c₀ (x.bind f) := by
  refine h.of_stop ?_ ?_
  · rintro stop rfl
    rfl
  · rintro r rfl
    exact (hf r rfl).weaken r.length_le

theorem token (kind : Kind) : EndsAmong words c₀ (token kind c) := by
  by_cases h : c.current.kind = kind
  · rw [token_of_eq h]
    exact .ok _
  · rw [token_of_ne h]
    exact .refused _

end EndsAmong

/-! ### The functions, case by case -/

/-- The words that are passed by the four functions. -/
def ExpressionWord (w : List Token) : Prop := ∃ t, Nonempty (Expression w t)

def BodyWord (w : List Token) : Prop := ∃ t, Nonempty (Body w t)

def OperandsWord (ops : List Operand) (w : List Token) : Prop := ∃ ts, Nonempty (Operands ops w ts)

def ItemsWord (w : List Token) : Prop := ∃ t ts, Nonempty (Items w (t :: ts))

variable {c : Cursor}

theorem endsAmong_leaf (h : c.current.kind = .number ∨ c.current.kind = .identifier) :
    EndsAmong ExpressionWord c (expression c) := by
  rw [expression_of_leaf h, value]
  rcases leaf_cases h with ⟨t, ht, -⟩ | ⟨fault, hf, hu⟩
  · rw [ht]
    exact .ok _
  · rw [hf]
    intro fault' c' hx
    cases hx
    exact ⟨[], c, [.sample .number], [], .refl c, hu, ⟨_, ⟨.number _ rfl rfl rfl⟩⟩, rfl⟩

theorem endsAmong_leftParen (h : c.current.kind = .leftParen)
    (hb : EndsAmong BodyWord c.advance (body c.advance)) :
    EndsAmong ExpressionWord c (expression c) := by
  have hp : Passes c [c.current] c.advance := .advance (by simp [h])
  rw [expression_of_leftParen h]
  refine (hb.within hp ?_).bind fun r _ => (EndsAmong.token .rightParen).map _
  rintro w ⟨t, ⟨d⟩⟩
  exact ⟨[.sample .rightParen], t, ⟨.parenthesized _ _ h d rfl⟩⟩

theorem endsAmong_other (h : c.current.kind ∉ Grammar.expressionFirst) :
    EndsAmong ExpressionWord c (expression c) := by
  rw [expression_other h]
  exact .refused _

theorem endsAmong_form {f : Form} (h : Form.ofLeader? c.current.kind = some f)
    (ho : EndsAmong (OperandsWord f.operands) c.advance (operands f.operands c.advance)) :
    EndsAmong BodyWord c (body c) := by
  obtain ⟨known, leads⟩ := Form.ofLeader?_eq_some_iff.1 h
  have hp : Passes c [c.current] c.advance := .advance (ne_endOfInput_of_ofLeader? h)
  rw [body_of_form h]
  refine ((ho.behind hp ?_).map _).weaken _
  rintro w ⟨ts, ⟨d⟩⟩
  exact ⟨_, ⟨.form f _ known leads.symm d⟩⟩

theorem endsAmong_body_of_application (h : Form.ofLeader? c.current.kind = none)
    (hk : c.current.kind ∈ Grammar.expressionFirst)
    (ha : EndsAmong ItemsWord c (application c)) : EndsAmong BodyWord c (body c) := by
  rw [body_of_application h hk]
  refine ha.behind (.refl c) ?_
  rintro w ⟨t, ts, ⟨d⟩⟩
  exact ⟨_, ⟨.application d⟩⟩

theorem endsAmong_body_other (h : Form.ofLeader? c.current.kind = none)
    (hk : c.current.kind ∉ Grammar.expressionFirst) : EndsAmong BodyWord c (body c) := by
  rw [body_other h hk]
  exact .refused _

/-- An expression that has been read is passed with its phrase. -/
theorem exists_passes_of_expression {r : Read ParseTree c.advance} (h : expression c = .ok r) :
    ∃ w, Passes c w r.cursor ∧ Nonempty (Expression w r.value) := by
  have hs := sound.1 c
  rw [SoundExpression, h] at hs
  exact hs

theorem endsAmong_expression_items {β : Type} {f : ParseTree → List ParseTree → β}
    (he : EndsAmong ExpressionWord c (expression c))
    (hi : ∀ r : Read ParseTree c.advance, EndsAmong ItemsWord r.cursor (items r.cursor)) :
    EndsAmong ItemsWord c ((expression c).bind fun r => (items r.cursor).map (f r.value)) := by
  refine EndsAmong.bind (he.within (.refl c) ?_) fun r hr => ?_
  · rintro w ⟨t, ⟨d⟩⟩
    have item := Items.cons d .nil
    exact ⟨[], t, [], ⟨item⟩⟩
  · obtain ⟨v, hv, ⟨d⟩⟩ := exists_passes_of_expression hr
    refine ((hi r).behind hv ?_).map _
    rintro w ⟨t, ts, ⟨d'⟩⟩
    exact ⟨_, _, ⟨.cons d d'⟩⟩

theorem endsAmong_application (he : EndsAmong ExpressionWord c (expression c))
    (hi : ∀ r : Read ParseTree c.advance, EndsAmong ItemsWord r.cursor (items r.cursor)) :
    EndsAmong ItemsWord c (application c) := by
  rw [application]
  exact (endsAmong_expression_items he hi).weaken _

theorem endsAmong_items_of_mem (hk : c.current.kind ∈ Grammar.expressionFirst)
    (he : EndsAmong ExpressionWord c (expression c))
    (hi : ∀ r : Read ParseTree c.advance, EndsAmong ItemsWord r.cursor (items r.cursor)) :
    EndsAmong ItemsWord c (items c) := by
  rw [items, if_pos hk]
  exact (endsAmong_expression_items he hi).weaken _

theorem endsAmong_items_of_not_mem (hk : c.current.kind ∉ Grammar.expressionFirst) :
    EndsAmong ItemsWord c (items c) := by
  rw [items, if_neg hk]
  exact .ok _

theorem endsAmong_operands_nil (c : Cursor) : EndsAmong (OperandsWord []) c (operands [] c) := by
  rw [operands]
  exact .ok _

theorem endsAmong_operands_expression {ops : List Operand}
    (he : EndsAmong ExpressionWord c (expression c))
    (ho : ∀ r : Read ParseTree c.advance,
      EndsAmong (OperandsWord ops) r.cursor (operands ops r.cursor)) :
    EndsAmong (OperandsWord (.expression :: ops)) c (operands (.expression :: ops) c) := by
  rw [operands]
  refine (EndsAmong.bind (he.within (.refl c) ?_) fun r hr => ?_).weaken _
  · rintro w ⟨t, ⟨d⟩⟩
    obtain ⟨w', ts, ⟨rest⟩⟩ := exists_operands ops
    have whole := Operands.expression d rest
    exact ⟨w', _, ⟨whole⟩⟩
  · obtain ⟨v, hv, ⟨d⟩⟩ := exists_passes_of_expression hr
    refine ((ho r).behind hv ?_).map _
    rintro w ⟨ts, ⟨d'⟩⟩
    exact ⟨_, ⟨.expression d d'⟩⟩

theorem endsAmong_operands_identifier {ops : List Operand}
    (ho : ∀ r : Read ParseTree c, EndsAmong (OperandsWord ops) r.cursor (operands ops r.cursor)) :
    EndsAmong (OperandsWord (.identifier :: ops)) c (operands (.identifier :: ops) c) := by
  rw [operands]
  by_cases hk : c.current.kind = .identifier
  · obtain ⟨name, hl⟩ := exists_lexeme (.inr hk)
    have hp : Passes c [c.current] c.advance := .advance (by simp [hk])
    have hv : identifier c = .ok ⟨.symbol name, c.advance, c.length_ahead_advance_le⟩ := by
      rw [identifier_of_eq hk, value, leaf_identifier hk hl]
      rfl
    rw [hv]
    refine EndsAmong.bind (.ok _) fun r hr => ?_
    cases hr
    refine ((ho _).behind hp ?_).map _
    rintro w ⟨ts, ⟨d⟩⟩
    exact ⟨_, ⟨.identifier _ hk hl d⟩⟩
  · rw [identifier_of_ne hk]
    exact .refused _

theorem endsAmong : (∀ c, EndsAmong ExpressionWord c (expression c)) ∧
    (∀ c, EndsAmong BodyWord c (body c)) ∧ (∀ c, EndsAmong ItemsWord c (application c)) ∧
    (∀ c, EndsAmong ItemsWord c (items c)) ∧
    ∀ ops c, EndsAmong (OperandsWord ops) c (operands ops c) :=
  Descent.induction (fun _ => endsAmong_leaf) (fun _ => endsAmong_leftParen)
    (fun _ => endsAmong_other) (fun _ _ => endsAmong_form)
    (fun _ => endsAmong_body_of_application) (fun _ => endsAmong_body_other)
    (fun _ => endsAmong_application) (fun _ => endsAmong_items_of_mem)
    (fun _ => endsAmong_items_of_not_mem) endsAmong_operands_nil
    (fun _ _ => endsAmong_operands_expression) fun _ _ => endsAmong_operands_identifier

end Descent

/-! ### Numbers of phrases -/

namespace Phrase
open Descent

/-- No number among the tokens is unreadable. -/
def Readable (w : List Token) : Prop := ∀ token ∈ w, ∀ fault, ¬ Unreadable token fault

theorem readable_append {w w' : List Token} (h : Readable w) (h' : Readable w') :
    Readable (w ++ w') := List.forall_mem_append.2 ⟨h, h'⟩

theorem readable_cons {token : Token} {w : List Token} (hk : token.kind ≠ .number)
    (h : Readable w) : Readable (token :: w) :=
  List.forall_mem_cons.2 ⟨fun _ hu => hk hu.1, h⟩

theorem readable_nil : Readable [] := nofun

mutual

theorem Expression.readable : {w : List Token} → {t : ParseTree} → Expression w t → Readable w
  | _, _, .number token kind spelled denotes => by
    refine List.forall_mem_singleton.2 ?_
    rintro fault ⟨-, lexeme, hl, hr⟩
    cases spelled.symm.trans hl
    cases denotes.symm.trans hr
  | _, _, .identifier token kind _ => readable_cons (by simp [kind]) readable_nil
  | _, _, .parenthesized opening closing opens body closes =>
    readable_cons (by simp [opens])
      (readable_append body.readable (readable_cons (by simp [closes]) readable_nil))

theorem Body.readable : {w : List Token} → {t : ParseTree} → Body w t → Readable w
  | _, _, .form f leader known leads operands => by
    refine readable_cons (fun hk => ?_) operands.readable
    exact Form.leader_not_mem_expressionFirst known (by rw [← leads, hk]; decide)
  | _, _, .application items => items.readable

theorem Operands.readable : {ops : List Operand} → {w : List Token} → {ts : List ParseTree} →
    Operands ops w ts → Readable w
  | _, _, _, .nil => readable_nil
  | _, _, _, .expression first rest => readable_append first.readable rest.readable
  | _, _, _, .identifier token kind _ rest => readable_cons (by simp [kind]) rest.readable

theorem Items.readable : {w : List Token} → {ts : List ParseTree} → Items w ts → Readable w
  | _, _, .nil => readable_nil
  | _, _, .cons first rest => readable_append first.readable rest.readable

end

/-- The tokens of a beginning are those of some program. -/
theorem BegunProgram.exists_program {p : List Token} {need : Need} (b : BegunProgram p need) :
    ∃ s t, Derives (p ++ s) t := by
  cases b with
  | start =>
    obtain ⟨token, s, t, -, hd⟩ := exists_expression (e := .number) (by decide)
    exact ⟨token :: s, t, hd⟩
  | within b =>
    obtain ⟨e, he⟩ := need.exists_accepts
    obtain ⟨token, s, t, -, hd⟩ := b.exists_completion he
    exact ⟨token :: s, t, hd⟩
  | whole d => exact ⟨[], _, by rw [List.append_nil]; exact ⟨d⟩⟩

theorem BegunProgram.readable {p : List Token} {need : Need} (b : BegunProgram p need) :
    Readable p := by
  obtain ⟨s, t, ⟨d⟩⟩ := b.exists_program
  exact fun token ht => d.readable token (List.mem_append_left s ht)

end Phrase

/-! ### Programs -/

namespace Derivation
open Descent Phrase

variable {c : Cursor}

theorem exists_viable_of_numeral {fault : Numeral.Fault}
    (h : (parseStandard c).result = .error (.numeral fault)) :
    ∃ p token rest, c.ahead = p ++ token :: rest ∧ Unreadable token fault ∧
      Viable (kinds p ++ [.number]) := by
  by_cases hk : c.current.kind ∈ Grammar.expressionFirst
  · have hr : (parseStandard c).result = (program c).result.1 :=
      congrArg Prod.fst (parseStandard_eq hk)
    have hp : EndsAmong ExpressionWord c (program c) :=
      ((endsAmong.1 c).bind fun r _ => (EndsAmong.token .endOfInput).map _).weaken _
    rw [hr] at h
    cases hx : program c with
    | ok r =>
      rw [hx] at h
      cases h
    | error stop =>
      obtain ⟨e, c'⟩ := stop
      rw [hx] at h
      cases h
      obtain ⟨p, c₁, w, r, hpass, hu, ⟨t, hd⟩, hw⟩ := hp fault c' hx
      have ha := (Passes.advance (c := c₁) (by simp [hu.1])).ahead
      refine ⟨p, c₁.current, c₁.advance.ahead, ?_, hu, r, w, t, by simpa using hw, hd⟩
      rw [hpass.ahead, ha]
      rfl
  · have hr := congrArg Prod.fst (parseStandard_of_not_mem hk)
    cases hr.symm.trans h

/-- With the next token a program goes on, if it does so with further ones. -/
theorem acceptable_current {ks : List Kind} {w rest : List Token} (ha : c.ahead = w ++ rest)
    (hn : w ≠ []) (h : Viable (ks ++ kinds w)) : Acceptable ks c.current.kind := by
  obtain ⟨token, w, rfl⟩ := List.exists_cons_of_ne_nil hn
  obtain ⟨r, hr⟩ := h
  rw [Cursor.current_eq_of_ahead ha, Acceptable, if_neg (c.ahead_kind token (by simp [ha]))]
  exact ⟨kinds w ++ r, by simpa using hr⟩

theorem exists_numeral_of_viable {p rest : List Token} {token : Token} {fault : Numeral.Fault}
    (ha : c.ahead = p ++ token :: rest) (hu : Unreadable token fault)
    (hv : Viable (kinds p ++ [.number])) :
    ∃ fault, (parseStandard c).result = .error (.numeral fault) := by
  have hs := parseStandard_sound c
  cases hx : (parseStandard c).result with
  | ok t =>
    rw [hx] at hs
    obtain ⟨d⟩ := hs
    exact absurd hu (d.readable token (by simp [ha]) fault)
  | error e =>
    rw [hx] at hs
    cases e with
    | numeral fault => exact ⟨fault, rfl⟩
    | state fault => exact hs.elim
    | refused e =>
      obtain ⟨w, need, hp, hb, -, hn⟩ := hs
      have hk : kinds [token] = [.number] := by simp [hu.1]
      rw [hp.ahead] at ha
      rcases List.append_eq_append_iff.1 ha with ⟨v, rfl, hc⟩ | ⟨v, rfl, hc⟩
      · -- The refused token is not behind the number.
        have hc' : (parseStandard c).cursor.ahead = v ++ [token] ++ rest := by simp [hc]
        have hv' : Viable (kinds w ++ kinds (v ++ [token])) := by simpa [hu.1] using hv
        exact absurd (hb.acceptable_iff.1 (acceptable_current hc' (by simp) hv')) hn
      · cases v with
        | nil =>
          have hv' : Viable (kinds (p ++ []) ++ kinds [token]) := by simpa [hu.1] using hv
          exact absurd (hb.acceptable_iff.1 (acceptable_current hc.symm (by simp) hv')) hn
        | cons x v =>
          obtain ⟨rfl, -⟩ := List.cons.inj hc
          exact absurd hu (hb.readable token (by simp) fault)

/-- An unreadable number ends a parse just if some program begins with the kinds in front of it and
its own. -/
theorem exists_numeral_iff :
    (∃ fault, (parseStandard c).result = .error (.numeral fault)) ↔
      ∃ p token rest fault, c.ahead = p ++ token :: rest ∧ Unreadable token fault ∧
        Viable (kinds p ++ [.number]) := by
  constructor
  · rintro ⟨fault, h⟩
    obtain ⟨p, token, rest, hs⟩ := exists_viable_of_numeral h
    exact ⟨p, token, rest, fault, hs⟩
  · rintro ⟨p, token, rest, fault, ha, hu, hv⟩
    exact exists_numeral_of_viable ha hu hv

end Derivation

end LispReader
