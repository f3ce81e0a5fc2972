import Mathlib.Data.List.Forall2
import LispReader.Proofs.Programs

/-! Labels in place of leaders.

The tree of a form is the sequence of its label and its operands, so an application of the label to
the same operands has the same tree. A token list can therefore be spelled in another way: any of
its leaders, wherever they stand, is replaced by an identifier that is the label of its form
(`Token.Respelled`). The operands of the form are then read as arguments, be they expressions or
identifiers, and nothing around the form changes. So what is accepted in one spelling is accepted in
every other one, with the same tree: `accepts_of_respelled`. -/
namespace LispReader
open List (Forall₂)

/-- The second token stands in the place of the first one: it is the same, or the first one leads a
form and the second one is an identifier with the form's label, at any position. -/
inductive Token.Respelled : Token → Token → Prop
  | same (token : Token) : Respelled token token
  | label {f : Form} {leader name : Token} (known : f ∈ Form.all) (leads : leader.kind = f.leader)
      (kind : name.kind = .identifier) (spelled : name.lexeme = some f.label) :
      Respelled leader name

namespace Token.Respelled

variable {token token' : Token}

/-- Only leaders are replaced. -/
theorem eq_of_not_leader (h : Respelled token token') (hk : Form.ofLeader? token.kind = none) :
    token' = token := by
  cases h with
  | same => rfl
  | label known leads =>
    rw [Form.ofLeader?_eq_some_iff.2 ⟨known, leads.symm⟩] at hk
    cases hk

theorem kind_eq_endOfInput_iff (h : Respelled token token') :
    token'.kind = .endOfInput ↔ token.kind = .endOfInput := by
  cases h with
  | same => exact Iff.rfl
  | label known leads kind =>
    have hf := Descent.ne_endOfInput_of_ofLeader? (Form.ofLeader?_eq_some_iff.2 ⟨known, leads.symm⟩)
    exact iff_of_false (by simp [kind]) hf

end Token.Respelled

/-! ### Respelled lists -/

/-- What corresponds to a list in two parts is in two parts. -/
theorem exists_append_of_forall₂ {α β : Type} {R : α → β → Prop} {front back : List α}
    {l : List β} (h : Forall₂ R (front ++ back) l) :
    ∃ front' back', l = front' ++ back' ∧ Forall₂ R front front' ∧ Forall₂ R back back' := by
  induction front generalizing l with
  | nil => exact ⟨[], l, rfl, .nil, h⟩
  | cons a front ih =>
    cases h with
    | cons ha ht =>
      obtain ⟨front', back', rfl, hf, hb⟩ := ih ht
      exact ⟨_ :: front', back', rfl, .cons ha hf, hb⟩

variable {tokens tokens' : List Token}

/-- The ends of input are at the same places. -/
theorem word_respelled (h : Forall₂ Token.Respelled tokens tokens') :
    Forall₂ Token.Respelled (word tokens) (word tokens') := by
  induction h with
  | nil => exact .nil
  | @cons token token' tokens tokens' ht _ ih =>
    rw [word, word, List.takeWhile_cons, List.takeWhile_cons]
    by_cases hk : token.kind = .endOfInput
    · rw [if_neg (by simp [hk]), if_neg (by simp [ht.kind_eq_endOfInput_iff.2 hk])]
      exact .nil
    · have hk' := mt ht.kind_eq_endOfInput_iff.1 hk
      rw [if_pos (by simp [hk]), if_pos (by simp [hk'])]
      exact .cons ht ih

theorem Terminated.respelled (h : Terminated tokens) (hs : Forall₂ Token.Respelled tokens tokens') :
    Terminated tokens' := by
  obtain ⟨last, hl, hk⟩ := h
  -- The last tokens correspond to each other, as the first ones of the reversed lists do.
  have hr := List.forall₂_reverse_iff.2 hs
  rw [List.getLast?_eq_head?_reverse] at hl
  obtain ⟨rest, hrest⟩ := List.head?_eq_some_iff.1 hl
  rw [hrest] at hr
  obtain ⟨last', rest', ht, -, hl'⟩ := List.forall₂_cons_left_iff.1 hr
  refine ⟨last', ?_, ht.kind_eq_endOfInput_iff.2 hk⟩
  rw [List.getLast?_eq_head?_reverse, hl']
  rfl

/-! ### Respelled phrases -/

namespace Phrase

/-- What is an operand can be an argument. -/
theorem Operands.nonempty_items {ops : List Operand} {w : List Token} {ts : List ParseTree}
    (d : Operands ops w ts) : Nonempty (Items w ts) := by
  cases d with
  | nil => exact ⟨.nil⟩
  | expression first rest =>
    obtain ⟨items⟩ := rest.nonempty_items
    exact ⟨.cons first items⟩
  | identifier token kind spelled rest =>
    obtain ⟨items⟩ := rest.nonempty_items
    exact ⟨.cons (.identifier token kind spelled) items⟩

mutual

/-- An expression keeps its tree, however its leaders are spelled. -/
theorem Expression.respelled : {w : List Token} → {t : ParseTree} → Expression w t →
    {w' : List Token} → Forall₂ Token.Respelled w w' → Nonempty (Expression w' t)
  | _, _, .number token kind spelled denotes, _, h => by
    obtain ⟨token', _, hs, hn, rfl⟩ := List.forall₂_cons_left_iff.1 h
    cases hs.eq_of_not_leader (by rw [kind]; rfl)
    cases hn
    exact ⟨.number token kind spelled denotes⟩
  | _, _, .identifier token kind spelled, _, h => by
    obtain ⟨token', _, hs, hn, rfl⟩ := List.forall₂_cons_left_iff.1 h
    cases hs.eq_of_not_leader (by rw [kind]; rfl)
    cases hn
    exact ⟨.identifier token kind spelled⟩
  | _, _, .parenthesized opening closing opens body closes, _, h => by
    obtain ⟨opening', _, ho, hb, rfl⟩ := List.forall₂_cons_left_iff.1 h
    obtain ⟨_, _, rfl, hw, hl⟩ := exists_append_of_forall₂ hb
    obtain ⟨closing', _, hc, hn, rfl⟩ := List.forall₂_cons_left_iff.1 hl
    obtain ⟨body⟩ := body.respelled hw
    cases ho.eq_of_not_leader (by rw [opens]; rfl)
    cases hc.eq_of_not_leader (by rw [closes]; rfl)
    cases hn
    exact ⟨.parenthesized opening closing opens body closes⟩

/-- A form becomes an application of its label, or stays a form. -/
theorem Body.respelled : {w : List Token} → {t : ParseTree} → Body w t →
    {w' : List Token} → Forall₂ Token.Respelled w w' → Nonempty (Body w' t)
  | _, _, .form f leader known leads operands, _, h => by
    obtain ⟨leader', _, hs, hw, rfl⟩ := List.forall₂_cons_left_iff.1 h
    obtain ⟨operands⟩ := operands.respelled hw
    cases hs with
    | same => exact ⟨.form f leader known leads operands⟩
    | label known' leads' kind spelled =>
      cases Form.eq_of_leader_eq known' known (leads'.symm.trans leads)
      obtain ⟨arguments⟩ := operands.nonempty_items
      exact ⟨.application (.cons (.identifier leader' kind spelled) arguments)⟩
  | _, _, .application items, _, h => by
    obtain ⟨items⟩ := items.respelled h
    exact ⟨.application items⟩

theorem Operands.respelled : {ops : List Operand} → {w : List Token} → {ts : List ParseTree} →
    Operands ops w ts → {w' : List Token} → Forall₂ Token.Respelled w w' →
    Nonempty (Operands ops w' ts)
  | _, _, _, .nil, _, h => by
    cases h
    exact ⟨.nil⟩
  | _, _, _, .expression first rest, _, h => by
    obtain ⟨_, _, rfl, hf, hr⟩ := exists_append_of_forall₂ h
    obtain ⟨first⟩ := first.respelled hf
    obtain ⟨rest⟩ := rest.respelled hr
    exact ⟨.expression first rest⟩
  | _, _, _, .identifier token kind spelled rest, _, h => by
    obtain ⟨token', _, hs, hr, rfl⟩ := List.forall₂_cons_left_iff.1 h
    obtain ⟨rest⟩ := rest.respelled hr
    cases hs.eq_of_not_leader (by rw [kind]; rfl)
    exact ⟨.identifier token kind spelled rest⟩

theorem Items.respelled : {w : List Token} → {ts : List ParseTree} → Items w ts →
    {w' : List Token} → Forall₂ Token.Respelled w w' → Nonempty (Items w' ts)
  | _, _, .nil, _, h => by
    cases h
    exact ⟨.nil⟩
  | _, _, .cons first rest, _, h => by
    obtain ⟨_, _, rfl, hf, hr⟩ := exists_append_of_forall₂ h
    obtain ⟨first⟩ := first.respelled hf
    obtain ⟨rest⟩ := rest.respelled hr
    exact ⟨.cons first rest⟩

end

end Phrase

/-! ### Respelled programs -/

namespace Derivation
open Phrase

/-- The parser accepts the list and returns this tree. -/
def Accepts (tokens : List Token) (t : ParseTree) : Prop :=
  ∃ o, parseTokens? tokens = some o ∧ o.result = .ok t

theorem accepts_iff {t : ParseTree} :
    Accepts tokens t ↔ Terminated tokens ∧ Derives (word tokens) t := by
  constructor
  · rintro ⟨o, ho, ht⟩
    obtain ⟨c, hc, rfl⟩ := Option.map_eq_some_iff.1 ho
    obtain ⟨-, ha, -⟩ := begins_of_ofTokens? hc
    exact ⟨terminated_of_ofTokens? hc, ha ▸ parseStandard_ok_iff.1 ht⟩
  · rintro ⟨h, hd⟩
    obtain ⟨c, hc, -, ha, -⟩ := h.exists_cursor
    refine ⟨parseStandard c, by rw [parseTokens?, hc]; rfl, ?_⟩
    rw [parseStandard_ok_iff, ha]
    exact hd

/-- A token list that is accepted is accepted in every other spelling, with the same tree. -/
theorem accepts_of_respelled {t : ParseTree} (h : Accepts tokens t)
    (hs : Forall₂ Token.Respelled tokens tokens') : Accepts tokens' t := by
  obtain ⟨ht, ⟨d⟩⟩ := accepts_iff.1 h
  exact accepts_iff.2 ⟨ht.respelled hs, d.respelled (word_respelled hs)⟩

/-- The tokens of `(+ 0 (λ x x))`, where the first leader is the given token. -/
def addition (leader : Token) : List Token :=
  .sample .leftParen :: leader :: [Kind.number, .leftParen, .lambda, .identifier, .identifier,
    .rightParen, .rightParen, .endOfInput].map .sample

theorem accepts_addition_labelled :
    let t := .sequence (.symbol "PLUS")
      [.number 0, .sequence (.symbol "LAMBDA") [.symbol "x", .symbol "x"]]
    Accepts (addition (.sample .plus)) t ∧ Accepts (addition (.identifier "PLUS" .start)) t := by
  intro t
  have name : Expression [.sample .identifier] (.symbol "x") := .identifier _ rfl rfl
  have abstraction : Body ([Kind.lambda, .identifier, .identifier].map .sample) _ :=
    .form ⟨.lambda, "LAMBDA", [.identifier, .expression]⟩ (.sample .lambda) (by decide) rfl
      (.identifier (.sample .identifier) rfl rfl (.expression name .nil))
  have sum : Body _ t :=
    .form ⟨.plus, "PLUS", [.expression, .expression]⟩ (.sample .plus) (by decide) rfl
      (.expression (.number (.sample .number) rfl rfl rfl)
        (.expression (.parenthesized (.sample .leftParen) (.sample .rightParen) rfl abstraction rfl)
          .nil))
  have h : Accepts (addition (.sample .plus)) t := accepts_iff.2 ⟨⟨_, rfl, rfl⟩,
    ⟨.parenthesized (.sample .leftParen) (.sample .rightParen) rfl sum rfl⟩⟩
  have hf : (⟨.plus, "PLUS", [.expression, .expression]⟩ : Form) ∈ Form.all := by decide
  have hs : Forall₂ Token.Respelled (addition (.sample .plus))
      (addition (.identifier "PLUS" .start)) :=
    .cons (.same _) (.cons (.label hf rfl rfl rfl)
      (List.forall₂_same.2 fun token _ => .same token))
  exact ⟨h, accepts_of_respelled h hs⟩

end Derivation

end LispReader
