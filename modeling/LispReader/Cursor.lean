import LispReader.Fault

/-! A reading position in a token list.

A list that ends in an end of input is read up to its first end of input. The cursor never moves
past that token, and what lies behind it is never seen. -/
namespace LispReader

structure Cursor where
  /-- The number of tokens consumed. -/
  index : Nat
  /-- The tokens from the current one up to the end of input. -/
  ahead : List Token
  /-- The token at which reading ends. -/
  terminator : Token
  ahead_kind : ∀ t ∈ ahead, t.kind ≠ .endOfInput
  terminator_kind : terminator.kind = .endOfInput

namespace Cursor

/-- A cursor at the first token; none if the list does not end in an end of input. -/
def ofTokens? (tokens : List Token) : Option Cursor :=
  if tokens.getLast?.any (·.kind = .endOfInput) then
    match h : tokens.find? (·.kind = .endOfInput) with
    | some terminator =>
      some
        { index := 0
          ahead := tokens.takeWhile (·.kind ≠ .endOfInput)
          terminator
          ahead_kind := fun t ht => by
            simpa using List.all_eq_true.1 (List.all_takeWhile (l := tokens)) t ht
          terminator_kind := by simpa using List.find?_some h }
    | none => none
  else none

theorem isSome_ofTokens? {tokens : List Token} {t : Token} (h : tokens.getLast? = some t)
    (ht : t.kind = .endOfInput) : (ofTokens? tokens).isSome := by
  have hf : (tokens.find? (·.kind = .endOfInput)).isSome := by
    rw [List.find?_isSome]
    exact ⟨t, List.mem_of_getLast? h, by simp [ht]⟩
  unfold ofTokens?
  rw [if_pos (by simp [h, ht])]
  split
  · rfl
  · next hn => simp [hn] at hf

/-- What is said of a token list without a final end of input. -/
def endMissingMessage : String := "token stream must end with an EOF token"

def current (c : Cursor) : Token := c.ahead.headD c.terminator

def atEnd (c : Cursor) : Bool := c.current.kind = .endOfInput

/-- Moves past the current token, unless it is the end of input. -/
def advance (c : Cursor) : Cursor :=
  match h : c.ahead with
  | [] => c
  | t :: rest =>
    { c with
      index := c.index + 1
      ahead := rest
      ahead_kind := fun u hu => c.ahead_kind u (by simp [h, hu]) }

/-- Moves past a token of the given kind, which becomes the result; otherwise a mismatch is
reported and the cursor stays. -/
def expect (kind : Kind) (c : Cursor) : Except SyntaxFault (Token × Cursor) :=
  if c.current.kind = kind then .ok (c.current, c.advance)
  else .error (.mismatch kind c.current)

theorem ext {c c' : Cursor} (hi : c.index = c'.index) (ha : c.ahead = c'.ahead)
    (ht : c.terminator = c'.terminator) : c = c' := by
  cases c
  cases c'
  cases hi
  cases ha
  cases ht
  rfl

theorem current_eq_of_ahead {c : Cursor} {t : Token} {rest : List Token}
    (h : c.ahead = t :: rest) : c.current = t := by
  simp [current, h]

theorem atEnd_eq_isEmpty (c : Cursor) : c.atEnd = c.ahead.isEmpty := by
  cases h : c.ahead with
  | nil => simp [atEnd, current, h, c.terminator_kind]
  | cons t rest => simp [atEnd, current, h, c.ahead_kind t]

theorem ahead_advance (c : Cursor) : c.advance.ahead = c.ahead.tail := by
  unfold advance
  split <;> simp_all

theorem terminator_advance (c : Cursor) : c.advance.terminator = c.terminator := by
  unfold advance
  split <;> rfl

theorem length_ahead_advance_le (c : Cursor) : c.advance.ahead.length ≤ c.ahead.length := by
  simp [ahead_advance]

theorem length_ahead_of_expect {kind : Kind} {c c' : Cursor} {t : Token}
    (h : c.expect kind = .ok (t, c')) : c'.ahead.length ≤ c.ahead.length := by
  unfold expect at h
  split at h
  · cases h; exact c.length_ahead_advance_le
  · cases h

/-- A token other than the end of input is moved past. -/
theorem length_ahead_advance {c : Cursor} (h : c.current.kind ≠ .endOfInput) :
    c.advance.ahead.length + 1 = c.ahead.length := by
  rw [ahead_advance]
  cases hc : c.ahead with
  | nil => simp [current, hc, c.terminator_kind] at h
  | cons t rest => simp

end Cursor

end LispReader
