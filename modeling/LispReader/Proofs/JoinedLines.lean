import LispReader.Proofs.Displacement

/-! Texts joined by a line feed.

A line feed ends every word, and behind it the column is one again, whatever was in front. So two
texts with a line feed between them are read one after the other, and all that the second one keeps
of the first one is the number of its lines: `scan_joined`. -/
namespace LispReader

namespace Position

/-- The position so many lines further down. -/
def below (n : Nat) (p : Position) : Position :=
  { p with line := p.line + n, one_le_line := Nat.le_add_right_of_le p.one_le_line }

theorem carries_below (n : Nat) (cs : List Char) : Carries (below n) cs := by
  intro c _ p
  by_cases h : c = '\n'
  · simp [below, after, h, Nat.add_right_comm]
  · simp [below, after, h]

/-- A line feed leads to the first column of the next line. -/
theorem start_along_newline (cs : List Char) :
    start.along (cs ++ ['\n']) = start.below (1 + cs.count '\n') := by
  have hl : (start.along cs).line + 1 = 1 + (1 + cs.count '\n') := by
    rw [(isBehind_along cs).line, Nat.add_comm]
  rw [along_append, along_cons, along_nil, after, if_pos rfl]
  simp only [hl]
  rfl

end Position

open Position (below)

/-- A fault further down is reported as before, but for its line and the message that names it. -/
theorem LexicalFault.report_move_below (n : Nat) (f : LexicalFault) :
    (f.move (below n)).report =
      { f.report with line := f.report.line + n, message := (f.move (below n)).message } := rfl

namespace Scan

/-- What is in front of a line feed is read as if the text ended there, and what is behind it as if
the text began there, only further down. -/
theorem scan_eq_followed (a b : String) :
    scan (a ++ "\n" ++ b) =
      followed (scan a) (move (below (1 + a.toList.count '\n')) (scan b)) := by
  have ha := scan_eq_iff.1 (rfl : scan a = scan a)
  have hb := (scan_eq_iff.1 (rfl : scan b = scan b)).move
    (Position.carries_below (1 + a.toList.count '\n') b.toList)
  rw [← Position.start_along_newline, Position.along_append] at hb
  have hg : isGap '\n' = true := rfl
  have hd : Detached ('\n' :: b.toList) := detached_cons rfl b.toList
  have hs : (a ++ "\n" ++ b).toList = a.toList ++ '\n' :: b.toList := by simp
  apply scan_eq_iff.2
  rw [hs]
  exact ha.append (.inr hd) (.gap hg hb)

end Scan

/-- Of two texts with a line feed between them, the first one is read as alone, and its fault is
that of the whole. Otherwise the second one is read as alone as well, with its tokens or its fault
further down by the lines of the first one, and in the same columns. -/
theorem scan_joined (a b : String) :
    match scan a, scan b with
    | .error fault, _ => scan (a ++ "\n" ++ b) = .error fault
    | .ok _, .error fault =>
      let fault' := fault.move (below (1 + a.toList.count '\n'))
      scan (a ++ "\n" ++ b) = .error fault' ∧
        fault'.report = { fault.report with
          line := fault.report.line + (1 + a.toList.count '\n' : Nat)
          message := fault'.message }
    | .ok tokens, .ok tokens' =>
      scan (a ++ "\n" ++ b) =
        .ok (tokens.dropLast ++ tokens'.map (Token.move (below (1 + a.toList.count '\n')))) := by
  have h := Scan.scan_eq_followed a b
  cases ha : scan a with
  | error fault =>
    rw [ha] at h
    exact h
  | ok tokens =>
    have hw : tokens.dropLast = word tokens := by
      conv_lhs => rw [eq_word_of_scan ha]
      exact List.dropLast_concat
    rw [ha] at h
    cases hb : scan b with
    | error fault =>
      rw [hb] at h
      exact ⟨h, fault.report_move_below _⟩
    | ok tokens' =>
      rw [hb] at h
      simp only [hw]
      exact h

end LispReader
