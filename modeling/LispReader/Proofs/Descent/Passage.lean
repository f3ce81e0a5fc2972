import LispReader.Proofs.Begun
import LispReader.Proofs.Descent

/-! Words between two positions, and the values of single tokens.

A position lies behind a word of the tokens ahead of another one; `Passes` says which word. Words
are passed one after the other, a word leads to one position only, and a word that is made of two
can be passed in two parts. A number or an identifier is passed with its value, unless it is a
number that denotes no integer: `leaf_cases`. -/
namespace LispReader.Descent
open Phrase

/-! ### Words between two positions -/

/-- The second position lies behind a word that begins at the first one. -/
structure Passes (c : Cursor) (w : List Token) (c' : Cursor) : Prop where
  ahead : c.ahead = w ++ c'.ahead
  index : c'.index = c.index + w.length
  terminator : c'.terminator = c.terminator

namespace Passes

variable {c c' c'' : Cursor} {w w' : List Token} {token : Token}

theorem refl (c : Cursor) : Passes c [] c := ⟨rfl, rfl, rfl⟩

theorem trans (h : Passes c w c') (h' : Passes c' w' c'') : Passes c (w ++ w') c'' where
  ahead := by rw [h.ahead, h'.ahead, List.append_assoc]
  index := by rw [h'.index, h.index, List.length_append, Nat.add_assoc]
  terminator := h'.terminator.trans h.terminator

/-- A word leads to one position only. -/
theorem unique (h : Passes c w c') (h' : Passes c w c'') : c' = c'' := by
  have ha : c'.ahead = c''.ahead := List.append_cancel_left (h.ahead.symm.trans h'.ahead)
  have hi : c'.index = c''.index := h.index.trans h'.index.symm
  have ht : c'.terminator = c''.terminator := h.terminator.trans h'.terminator.symm
  exact Cursor.ext hi ha ht

theorem advance (h : c.current.kind ≠ .endOfInput) : Passes c [c.current] c.advance := by
  unfold Cursor.advance
  split
  · next ha => simp [Cursor.current, ha, c.terminator_kind] at h
  · next t rest ha => exact ⟨by simp [Cursor.current, ha], rfl, rfl⟩

theorem current_of_cons (h : Passes c (token :: w) c') : c.current = token :=
  Cursor.current_eq_of_ahead h.ahead

theorem tail (h : Passes c (token :: w) c') : Passes c.advance w c' := by
  have ha := h.ahead
  have hi := h.index
  unfold Cursor.advance
  split
  · next hn => simp [hn] at ha
  · next t rest hc =>
    rw [hc, List.cons_append] at ha
    refine ⟨(List.cons.inj ha).2, ?_, h.terminator⟩
    show c'.index = c.index + 1 + w.length
    rw [hi, List.length_cons]
    omega

/-- A word can be passed in two parts. -/
theorem exists_between (h : Passes c (w ++ w') c') : ∃ c₁, Passes c w c₁ ∧ Passes c₁ w' c' := by
  induction w generalizing c with
  | nil => exact ⟨c, refl c, h⟩
  | cons token w ih =>
    obtain ⟨c₁, h₁, h₂⟩ := ih h.tail
    have hc : c.current.kind ≠ .endOfInput :=
      h.current_of_cons ▸ c.ahead_kind token (by simp [h.ahead])
    refine ⟨c₁, ?_, h₂⟩
    simpa [h.current_of_cons] using (advance hc).trans h₁

theorem exists_end (c : Cursor) : ∃ c', Passes c c.ahead c' ∧ c'.current.kind = .endOfInput := by
  let c' : Cursor := { c with index := c.index + c.ahead.length, ahead := [], ahead_kind := nofun }
  exact ⟨c', ⟨(List.append_nil c.ahead).symm, rfl, rfl⟩, c.terminator_kind⟩

end Passes

theorem ahead_eq_nil {c : Cursor} (h : c.current.kind = .endOfInput) : c.ahead = [] := by
  have ha := c.atEnd_eq_isEmpty
  rw [Cursor.atEnd, h] at ha
  exact List.isEmpty_iff.1 ha.symm

/-- The end of input is not passed. -/
theorem advance_eq_self {c : Cursor} (h : c.current.kind = .endOfInput) : c.advance = c := by
  unfold Cursor.advance
  split
  · rfl
  · next t rest hc => cases hc.symm.trans (ahead_eq_nil h)

/-! ### Values of tokens -/

/-- A number token whose lexeme denotes no integer. -/
def Unreadable (token : Token) (fault : Numeral.Fault) : Prop :=
  token.kind = .number ∧ ∃ lexeme, token.lexeme = some lexeme ∧ Numeral.read lexeme = .error fault

theorem leaf_number {token : Token} {lexeme : String} (h : token.kind = .number)
    (hl : token.lexeme = some lexeme) : (token.leaf : Except ParseFault ParseTree) =
      match Numeral.read lexeme with
      | .ok n => .ok (.number n)
      | .error fault => .error (.numeral fault) := by
  rw [Token.leaf, hl]
  exact if_pos h

theorem leaf_identifier {token : Token} {name : String} (h : token.kind = .identifier)
    (hl : token.lexeme = some name) :
    (token.leaf : Except ParseFault ParseTree) = .ok (.symbol name) := by
  simp [Token.leaf, h, hl]

theorem exists_lexeme {token : Token} (h : token.kind = .number ∨ token.kind = .identifier) :
    ∃ lexeme, token.lexeme = some lexeme := by
  refine Option.isSome_iff_exists.1 ?_
  rw [token.isSome_lexeme]
  rcases h with h | h <;> rw [h] <;> rfl

/-- A number or an identifier is an expression, unless it is an unreadable number. -/
theorem leaf_cases {token : Token} (h : token.kind = .number ∨ token.kind = .identifier) :
    (∃ t, (token.leaf : Except ParseFault ParseTree) = .ok t ∧ Nonempty (Expression [token] t)) ∨
      ∃ fault, (token.leaf : Except ParseFault ParseTree) = .error (.numeral fault) ∧
        Unreadable token fault := by
  obtain ⟨lexeme, hl⟩ := exists_lexeme h
  rcases h with h | h
  · rw [leaf_number h hl]
    cases hr : Numeral.read lexeme with
    | ok n => exact .inl ⟨_, rfl, ⟨.number _ h hl hr⟩⟩
    | error fault => exact .inr ⟨fault, rfl, h, lexeme, hl, hr⟩
  · rw [leaf_identifier h hl]
    exact .inl ⟨_, rfl, ⟨.identifier _ h hl⟩⟩

end LispReader.Descent
