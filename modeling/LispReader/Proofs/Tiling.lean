import LispReader.Proofs.Lexis
import LispReader.Proofs.Lines

/-! Texts as gaps and tokens.

A text that can be scanned is nothing but its tokens and the gaps around them. `Tiling` cuts a text
into a gap, the text of the first token, a gap, the text of the second one, and so on up to a last
gap, and says of each token that it is spelled as its kind requires, that the text behind does not
continue it, and that its position counts the lines and columns of everything in front of it. The
tokens of a text tile it, and an end of input stands behind them and nowhere else: `scan_tiles`. -/
namespace LispReader

/-- Behind the text `front`, the text `cs` consists of gaps and the given tokens. -/
inductive Tiling : List Char → List Char → List Token → Prop
  | last {front gap : List Char} {position : Position} (isGap : ∀ c ∈ gap, Scan.isGap c = true)
      (behind : position.IsBehind (front ++ gap)) : Tiling front gap [Token.endOfInput position]
  | token {front gap cs : List Char} {t : Token} {tokens : List Token}
      (isGap : ∀ c ∈ gap, Scan.isGap c = true) (behind : t.position.IsBehind (front ++ gap))
      (spelled : t.WellSpelled) (ends : t.EndsBefore cs)
      (rest : Tiling (front ++ gap ++ t.text.toList) cs tokens) :
      Tiling front (gap ++ t.text.toList ++ cs) (t :: tokens)

/-- A character of a gap makes the first gap longer. -/
theorem Tiling.cons_gap {front cs : List Char} {c : Char} {tokens : List Token}
    (hc : Scan.isGap c = true) (h : Tiling (front ++ [c]) cs tokens) :
    Tiling front (c :: cs) tokens := by
  have hf (gap : List Char) : front ++ [c] ++ gap = front ++ c :: gap := by simp
  cases h with
  | last hg hb =>
    rw [hf] at hb
    exact .last (List.forall_mem_cons.2 ⟨hc, hg⟩) hb
  | token hg hb hs he hr =>
    rw [hf] at hb hr
    exact .token (List.forall_mem_cons.2 ⟨hc, hg⟩) hb hs he hr

namespace Scan

theorem Reads.tiling {p : Position} {cs : List Char} {r : Except LexicalFault (List Token)}
    (h : Reads p cs r) {front : List Char} (hp : p = Position.start.along front)
    {tokens : List Token} (hr : r = .ok tokens) : Tiling front cs tokens := by
  induction h generalizing front tokens with
  | nil p =>
    cases hr
    refine .last nofun ?_
    rw [hp, List.append_nil]
    exact Position.isBehind_along front
  | @gap p c cs r hc _ ih =>
    refine Tiling.cons_gap hc (ih ?_ hr)
    rw [hp, Position.along_append]
    rfl
  | @token t cs r hs he _ ih =>
    cases r with
    | error fault => cases hr
    | ok tokens =>
      cases hr
      have hb := Position.isBehind_along front
      refine @Tiling.token front [] cs t tokens nofun ?_ hs he (ih ?_ rfl)
      · rw [hp, List.append_nil]
        exact hb
      · rw [hp, List.append_nil, Position.along_append]
  | letter => cases hr
  | stray => cases hr

/-- What is read is a list of tokens with the end of input behind them. -/
theorem Reads.exists_body {p : Position} {cs : List Char}
    {r : Except LexicalFault (List Token)} (h : Reads p cs r) {tokens : List Token}
    (hr : r = .ok tokens) :
    ∃ body q, tokens = body ++ [Token.endOfInput q] ∧ ∀ t ∈ body, t.WellSpelled := by
  induction h generalizing tokens with
  | nil p =>
    cases hr
    exact ⟨[], p, rfl, nofun⟩
  | gap _ _ ih => exact ih hr
  | @token t cs r hs _ _ ih =>
    cases r with
    | error fault => cases hr
    | ok tokens =>
      cases hr
      obtain ⟨body, q, rfl, hb⟩ := ih rfl
      exact ⟨t :: body, q, rfl, List.forall_mem_cons.2 ⟨hs, hb⟩⟩
  | letter => cases hr
  | stray => cases hr

end Scan

/-- The tokens of a text and the gaps between them are the text; the end of input is the last token
and no other one. -/
theorem scan_tiles {source : String} {tokens : List Token} (h : scan source = .ok tokens) :
    Tiling [] source.toList tokens ∧
      ∃ body p, tokens = body ++ [Token.endOfInput p] ∧ ∀ t ∈ body, t.kind ≠ .endOfInput := by
  have hr := Scan.scan_eq_iff.1 h
  obtain ⟨body, p, hb, hs⟩ := hr.exists_body rfl
  exact ⟨hr.tiling rfl rfl, body, p, hb, fun t ht => (hs t ht).kind_ne⟩

/-- A text of two lines. -/
def twoLines : String := "(f\r\n 012)"

theorem scan_tiles_twoLines :
    ∃ tokens, scan twoLines = .ok tokens ∧ Tiling [] twoLines.toList tokens ∧
      tokens.map (fun t => (t.position.line, t.position.column)) =
        [(1, 1), (1, 2), (2, 2), (2, 5), (2, 6)] := by
  have hf : IsName ['f'] := .mk rfl nofun
  have hn : IsNumeral ['0', '1', '2'] := ⟨nofun, by simp⟩
  have hl : Kind.leftParen.glyph = some '(' := rfl
  have hr : Kind.rightParen.glyph = some ')' := rfl
  have hs : Scan.Reads .start ['(', 'f', '\r', '\n', ' ', '0', '1', '2', ')'] _ :=
    .glyph hl (.identifier hf (detached_cons rfl ['\n', ' ', '0', '1', '2', ')'])
      (.gap rfl (.gap rfl (.gap rfl (.number hn (detached_cons rfl []) (.glyph hr (.nil _)))))))
  have h := @Scan.scan_eq_iff twoLines _ |>.2 hs
  exact ⟨_, h, (scan_tiles h).1, rfl⟩

end LispReader
