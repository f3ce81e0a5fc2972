import LispReader.Proofs.Descent.Passage

/-! Every phrase is read.

A phrase at the position is read to its end, and its tree is the value. This is shown along the
derivation of the phrase: `Expression.gives`. The functions do not look behind the phrase, except
that a body must be followed by a token that begins no further item. -/
namespace LispReader.Descent
open Phrase

/-- The reply is this value and the position behind it. -/
def Gives {α : Type} {c : Cursor} (x : Reply α c) (a : α) (c' : Cursor) : Prop :=
  ∃ h, x = .ok ⟨a, c', h⟩

namespace Gives

variable {α β : Type} {c c' c'' : Cursor} {a : α} {b : β}

theorem map {x : Reply α c} (h : Gives x a c') (f : α → β) : Gives (x.map f) (f a) c' := by
  obtain ⟨hl, rfl⟩ := h
  exact ⟨hl, rfl⟩

theorem weaken {x : Reply α c} (h : Gives x a c') (hc : c.ahead.length ≤ c''.ahead.length) :
    Gives (x.weaken hc) a c' := by
  obtain ⟨hl, rfl⟩ := h
  exact ⟨Nat.le_trans hl hc, rfl⟩

theorem bind {x : Reply α c} {f : (r : Read α c) → Reply β r.cursor} (h : Gives x a c')
    (hf : ∀ hl, Gives (f ⟨a, c', hl⟩) b c'') : Gives (x.bind f) b c'' := by
  obtain ⟨hl, rfl⟩ := h
  exact (hf hl).weaken hl

end Gives

theorem gives_token {kind : Kind} {token : Token} {c c' : Cursor} (hp : Passes c [token] c')
    (hk : token.kind = kind) : Gives (Descent.token kind c) token c' := by
  cases hp.current_of_cons
  cases hp.tail.unique (.refl _)
  exact ⟨_, token_of_eq hk⟩

theorem gives_value {token : Token} {t : ParseTree} {c : Cursor} (h : token.leaf = .ok t) :
    Gives (value token c) t c := by
  rw [value, h]
  exact ⟨Nat.le_refl _, rfl⟩

end LispReader.Descent

namespace LispReader.Phrase
open Descent

theorem Expression.current_mem {w : List Token} {t : ParseTree} {c c' : Cursor}
    (d : Expression w t) (hp : Passes c w c') : c.current.kind ∈ Grammar.expressionFirst := by
  obtain ⟨token, w, rfl, hk⟩ := d.exists_head
  rw [hp.current_of_cons]
  exact hk

mutual

/-- An expression at the position is read to its end. -/
theorem Expression.gives : {w : List Token} → {t : ParseTree} → Expression w t →
    {c c' : Cursor} → Passes c w c' → Gives (expression c) t c'
  | _, _, .number token kind spelled denotes, c, c', hp => by
    cases hp.current_of_cons
    cases hp.tail.unique (.refl _)
    rw [expression_of_leaf (.inl kind)]
    refine gives_value ?_
    rw [leaf_number kind spelled, denotes]
  | _, _, .identifier token kind spelled, c, c', hp => by
    cases hp.current_of_cons
    cases hp.tail.unique (.refl _)
    rw [expression_of_leaf (.inr kind)]
    exact gives_value (leaf_identifier kind spelled)
  | _, _, .parenthesized opening closing opens body closes, c, c', hp => by
    cases hp.current_of_cons
    obtain ⟨c₁, hb, hc⟩ := hp.tail.exists_between
    have hn : c₁.current.kind ∉ Grammar.expressionFirst := by
      rw [hc.current_of_cons, closes]
      decide
    rw [expression_of_leftParen opens]
    exact (body.gives hb hn).bind fun _ => (gives_token hc closes).map _

/-- A body at the position is read up to a token that begins no item. -/
theorem Body.gives : {w : List Token} → {t : ParseTree} → Body w t → {c c' : Cursor} →
    Passes c w c' → c'.current.kind ∉ Grammar.expressionFirst → Gives (body c) t c'
  | _, _, .form f leader known leads operands, c, c', hp, _ => by
    cases hp.current_of_cons
    rw [body_of_form (Form.ofLeader?_eq_some_iff.2 ⟨known, leads.symm⟩)]
    exact ((operands.gives hp.tail).map f.tree).weaken _
  | _, _, .application (.cons first rest), c, c', hp, hn => by
    obtain ⟨c₁, hf, hr⟩ := hp.exists_between
    have hk := first.current_mem hf
    rw [body_of_application (Form.ofLeader?_eq_none hk) hk, Descent.application]
    exact ((first.gives hf).bind fun _ => (rest.gives hr hn).map _).weaken _

theorem Operands.gives : {ops : List Operand} → {w : List Token} → {ts : List ParseTree} →
    Operands ops w ts → {c c' : Cursor} → Passes c w c' → Gives (operands ops c) ts c'
  | _, _, _, .nil, c, c', hp => by
    cases hp.unique (.refl _)
    rw [operands]
    exact ⟨Nat.le_refl _, rfl⟩
  | _, _, _, .expression first rest, c, c', hp => by
    obtain ⟨c₁, hf, hr⟩ := hp.exists_between
    rw [operands]
    exact ((first.gives hf).bind fun _ => (rest.gives hr).map _).weaken _
  | _, _, _, .identifier token kind spelled rest, c, c', hp => by
    cases hp.current_of_cons
    rw [operands, identifier_of_eq kind]
    refine ((gives_value (leaf_identifier kind spelled)).weaken _).bind fun _ => ?_
    exact (rest.gives hp.tail).map _

theorem Items.gives : {w : List Token} → {ts : List ParseTree} → Items w ts → {c c' : Cursor} →
    Passes c w c' → c'.current.kind ∉ Grammar.expressionFirst → Gives (items c) ts c'
  | _, _, .nil, c, c', hp, hn => by
    cases hp.unique (.refl _)
    rw [items, if_neg hn]
    exact ⟨Nat.le_refl _, rfl⟩
  | _, _, .cons first rest, c, c', hp, hn => by
    obtain ⟨c₁, hf, hr⟩ := hp.exists_between
    rw [items, if_pos (first.current_mem hf)]
    exact ((first.gives hf).bind fun _ => (rest.gives hr hn).map _).weaken _

end

end LispReader.Phrase
