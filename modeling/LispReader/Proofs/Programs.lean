import LispReader.Proofs.Descent.Completeness
import LispReader.Proofs.Descent.Table

/-! The parser accepts the language.

A token list that ends in an end of input is parsed up to its first end of input; the tokens in
front of that one are its word. The parser returns a tree just if the word derives it, and a word
has one derivation at most, whose leaves are the tokens of the word: `parse_iff_derives`. -/
namespace LispReader

/-- The list ends in an end of input. -/
def Terminated (tokens : List Token) : Prop :=
  ∃ last, tokens.getLast? = some last ∧ last.kind = .endOfInput

/-- The tokens in front of the first end of input. -/
def word (tokens : List Token) : List Token := tokens.takeWhile (·.kind ≠ .endOfInput)

/-- The word is an expression, and this is its tree. -/
def Derives (w : List Token) (t : ParseTree) : Prop := Nonempty (Phrase.Expression w t)

theorem word_append {w rest : List Token} {last : Token} (hw : ∀ t ∈ w, t.kind ≠ .endOfInput)
    (hl : last.kind = .endOfInput) : word (w ++ last :: rest) = w := by
  rw [word, List.takeWhile_append_of_pos (by simpa using hw)]
  simp [hl]

/-- Reading begins at the first token, and what lies ahead is the word. -/
theorem Terminated.exists_cursor {tokens : List Token} (h : Terminated tokens) :
    ∃ c, Cursor.ofTokens? tokens = some c ∧ c.index = 0 ∧ c.ahead = word tokens ∧
      ∃ rest, tokens = word tokens ++ c.terminator :: rest := by
  obtain ⟨last, hl, hk⟩ := h
  obtain ⟨c, hc⟩ := Option.isSome_iff_exists.1 (Cursor.isSome_ofTokens? hl hk)
  refine ⟨c, hc, ?_⟩
  unfold Cursor.ofTokens? at hc
  split at hc
  · split at hc
    · next terminator hf =>
      cases hc
      obtain ⟨hk, w, rest, ht, hw⟩ := List.find?_eq_some_iff_append.1 hf
      have hword : word tokens = w := by
        rw [ht]
        exact word_append (by simpa using hw) (by simpa using hk)
      refine ⟨rfl, rfl, rest, ?_⟩
      rw [hword]
      exact ht
    · cases hc
  · cases hc

/-- A reading position is only made of a list that ends in an end of input. -/
theorem terminated_of_ofTokens? {tokens : List Token} {c : Cursor}
    (h : Cursor.ofTokens? tokens = some c) : Terminated tokens := by
  unfold Cursor.ofTokens? at h
  split at h
  · next hl =>
    obtain ⟨last, hl, hk⟩ := (Option.any_eq_true _ _).1 hl
    exact ⟨last, hl, by simpa using hk⟩
  · cases h

/-- The position made of a list is in front of its word. -/
theorem begins_of_ofTokens? {tokens : List Token} {c : Cursor}
    (h : Cursor.ofTokens? tokens = some c) :
    c.index = 0 ∧ c.ahead = word tokens ∧
      ∃ rest, tokens = word tokens ++ c.terminator :: rest := by
  obtain ⟨d, hd, hb⟩ := (terminated_of_ofTokens? h).exists_cursor
  cases h.symm.trans hd
  exact hb

namespace Derivation
open Descent Phrase

variable {c : Cursor}

theorem program_sound (h : c.current.kind ∈ Grammar.expressionFirst) :
    (program c).elim (fun t _ => Derives c.ahead t) (Stopped BegunProgram c) := by
  have he := sound.1 c
  rw [SoundExpression] at he
  rw [program, Reply.elim_weaken, Reply.elim_bind]
  cases hx : expression c with
  | error stop =>
    rw [hx] at he
    exact Stopped.mono (fun p need => .within) (Stopped.of_entering h he)
  | ok r =>
    rw [hx] at he
    obtain ⟨w, hw, ⟨d⟩⟩ := he
    show ((token .endOfInput r.cursor).map fun _ => r.value).elim _ _
    rw [Reply.elim_map]
    by_cases hk : r.cursor.current.kind = .endOfInput
    · rw [token_of_eq hk]
      have ha : c.ahead = w := by rw [hw.ahead, ahead_eq_nil hk, List.append_nil]
      show Derives c.ahead r.value
      rw [ha]
      exact ⟨d⟩
    · rw [token_of_ne hk]
      exact ⟨w, .endOfInput, hw, .whole d, rfl, hk⟩

/-- Every end of a derivation is accounted for by the words of the language. -/
theorem parseStandard_sound (c : Cursor) :
    match (parseStandard c).result with
    | .ok t => Derives c.ahead t
    | .error fault => Stopped BegunProgram c fault (parseStandard c).cursor := by
  by_cases h : c.current.kind ∈ Grammar.expressionFirst
  · obtain ⟨hr, hc⟩ := Prod.mk.inj (parseStandard_eq h)
    have hs := program_sound h
    rw [hr, hc]
    cases hx : program c <;> rw [hx] at hs <;> exact hs
  · obtain ⟨hr, hc⟩ := Prod.mk.inj (parseStandard_of_not_mem h)
    rw [hr, hc]
    exact stopped_at .program .start h

theorem parseStandard_complete {t : ParseTree} (h : Derives c.ahead t) :
    (parseStandard c).result = .ok t := by
  obtain ⟨d⟩ := h
  obtain ⟨c', hp, hk⟩ := Passes.exists_end c
  have hr : (parseStandard c).result = (program c).result.1 :=
    congrArg Prod.fst (parseStandard_eq (d.current_mem hp))
  have he : Gives (token .endOfInput c') c'.current c'.advance := ⟨_, token_of_eq hk⟩
  have hg : Gives (program c) t c'.advance :=
    ((d.gives hp).bind fun _ => he.map fun _ => t).weaken _
  obtain ⟨hl, hx⟩ := hg
  rw [hr, hx]
  rfl

theorem parseStandard_ok_iff {t : ParseTree} :
    (parseStandard c).result = .ok t ↔ Derives c.ahead t := by
  constructor
  · intro h
    have hs := parseStandard_sound c
    rw [h] at hs
    exact hs
  · exact parseStandard_complete

/-- The parser returns the tree that the word derives, and nothing else; the derivation is the
only one, and it uses each token of the word once. -/
theorem parse_iff_derives {tokens : List Token} (h : Terminated tokens) :
    ∃ o, parseTokens? tokens = some o ∧ (∀ t, o.result = .ok t ↔ Derives (word tokens) t) ∧
      ∀ {t t'} (d : Expression (word tokens) t) (d' : Expression (word tokens) t'),
        t = t' ∧ HEq d d' ∧ d.leaves = word tokens := by
  obtain ⟨c, hc, -, ha, -⟩ := h.exists_cursor
  refine ⟨parseStandard c, by rw [parseTokens?, hc]; rfl, fun t => ?_, fun d d' => ?_⟩
  · rw [← ha]
    exact parseStandard_ok_iff
  · obtain ⟨ht, hd⟩ := d'.eq_of_word d rfl
    exact ⟨ht, hd, d.leaves_eq⟩

/-- The tokens of `(+ 0 x)`. -/
def sum : List Token :=
  [Kind.leftParen, .plus, .number, .identifier, .rightParen, .endOfInput].map .sample

theorem parse_sum : Terminated sum ∧ ∃ o, parseTokens? sum = some o ∧
    o.result = .ok (.sequence (.symbol "PLUS") [.number 0, .symbol "x"]) := by
  have h : Terminated sum := ⟨_, rfl, rfl⟩
  obtain ⟨o, ho, hd, -⟩ := parse_iff_derives h
  refine ⟨h, o, ho, (hd _).2 ?_⟩
  let operands : Operands [.expression, .expression] [.sample .number, .sample .identifier]
      [.number 0, .symbol "x"] :=
    .expression (.number (.sample .number) rfl rfl rfl)
      (.expression (.identifier (.sample .identifier) rfl rfl) .nil)
  let body := Body.form ⟨.plus, "PLUS", [.expression, .expression]⟩ (.sample .plus) (by decide) rfl
    operands
  exact ⟨.parenthesized (.sample .leftParen) (.sample .rightParen) rfl body rfl⟩

end Derivation

end LispReader
