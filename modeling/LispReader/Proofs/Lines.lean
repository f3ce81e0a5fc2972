import LispReader.Position

/-! Positions by counting.

The position behind a text is found character by character. What it says can be counted instead:
its line is one more than the line feeds of the text, and its column one more than the characters
of the last line: `Position.isBehind_along`. The lines themselves are what a text is split into at
its line feeds, and the one that a text ends in is found by the same counting:
`getElem?_linesOf`. -/
namespace LispReader

/-- The offset at which the last line of a text begins: behind its last line feed. -/
def lineStart (cs : List Char) : Nat := cs.length - cs.reverse.idxOf '\n'

example : lineStart ['a', '\n', 'b', '\n', 'c'] = 4 := by decide
example : lineStart ['a', 'b'] = 0 := by decide

theorem lineStart_le (cs : List Char) : lineStart cs ≤ cs.length := Nat.sub_le ..

theorem lineStart_append {back : List Char} (front : List Char) (h : '\n' ∉ back) :
    lineStart (front ++ '\n' :: back) = front.length + 1 := by
  have hi : (front ++ '\n' :: back).reverse.idxOf '\n' = back.length := by
    simp [List.idxOf_append, h]
  rw [lineStart, hi]
  simp only [List.length_append, List.length_cons]
  omega

/-- Another character does not begin a line. -/
theorem lineStart_concat {c : Char} (cs : List Char) (h : c ≠ '\n') :
    lineStart (cs ++ [c]) = lineStart cs := by
  have hi : (cs ++ [c]).reverse.idxOf '\n' = cs.reverse.idxOf '\n' + 1 := by
    rw [List.reverse_concat, List.idxOf_cons, cond_eq_ite, if_neg (by simpa using h)]
  rw [lineStart, lineStart, hi, List.length_append, List.length_singleton, Nat.add_sub_add_right]

/-- The position that a character has behind a text. -/
structure Position.IsBehind (p : Position) (cs : List Char) : Prop where
  line : p.line = 1 + cs.count '\n'
  column : p.column = cs.length - lineStart cs + 1

theorem Position.isBehind_along (cs : List Char) : (start.along cs).IsBehind cs := by
  -- A character is added at the end, so the induction is on the text from its end on.
  obtain ⟨rev, rfl⟩ : ∃ rev : List Char, cs = rev.reverse := ⟨cs.reverse, by simp⟩
  induction rev with
  | nil => exact ⟨rfl, rfl⟩
  | cons c rev ih =>
    obtain ⟨hl, hc⟩ := ih
    have ha : start.along (c :: rev).reverse = (start.along rev.reverse).after c := by
      simp [along_append]
    have hle := lineStart_le rev.reverse
    rw [ha, after, List.reverse_cons]
    by_cases hn : c = '\n'
    · subst hn
      have hs : lineStart (rev.reverse ++ ['\n']) = rev.reverse.length + 1 :=
        lineStart_append rev.reverse List.not_mem_nil
      rw [if_pos rfl]
      constructor
      · simp only [List.count_append, List.count_singleton_self, hl]
        omega
      · simp [hs]
    · rw [if_neg hn]
      constructor
      · simp [hl, List.count_append, hn]
      · show (start.along rev.reverse).column + 1 = _
        rw [hc, lineStart_concat _ hn, List.length_append, List.length_singleton]
        omega

/-! ### Lines -/

/-- The lines of a text, without the line feeds between them. -/
def linesOf (cs : List Char) : List (List Char) := cs.splitOn '\n'

example : linesOf ['a', '\n', '\n', 'b', 'c'] = [['a'], [], ['b', 'c']] := by decide

theorem linesOf_append (front back : List Char) :
    linesOf (front ++ '\n' :: back) = linesOf front ++ linesOf back :=
  List.splitOnP_append_cons front back (beq_self_eq_true _)

/-- The first line goes on up to the first line feed. -/
theorem head?_linesOf (cs : List Char) : (linesOf cs).head? = some (cs.takeWhile (· ≠ '\n')) := by
  induction cs with
  | nil => rfl
  | cons c cs ih =>
    rw [linesOf, List.splitOn_cons_eq_if_modifyHead]
    by_cases hc : c = '\n'
    · simp [hc]
    · rw [if_neg (by simpa using hc), List.head?_modifyHead, ← linesOf, ih]
      simp [hc]

theorem length_linesOf (cs : List Char) : (linesOf cs).length = cs.count '\n' + 1 := by
  induction cs with
  | nil => rfl
  | cons c cs ih =>
    rw [linesOf, List.splitOn_cons_eq_if_modifyHead]
    by_cases hc : c = '\n'
    · rw [if_pos (by simpa using hc), List.length_cons, ← linesOf, ih, hc, List.count_cons_self]
    · rw [if_neg (by simpa using hc), List.length_modifyHead, ← linesOf, ih,
        List.count_cons_of_ne hc]

theorem linesOf_newline (cs : List Char) : linesOf ('\n' :: cs) = [] :: linesOf cs := by
  rw [linesOf, List.splitOn_cons_eq_if_modifyHead, if_pos (beq_self_eq_true _)]
  rfl

theorem linesOf_cons {c : Char} (h : c ≠ '\n') (cs : List Char) :
    ∃ line lines, linesOf cs = line :: lines ∧ linesOf (c :: cs) = (c :: line) :: lines := by
  obtain ⟨line, lines, hl⟩ := List.exists_cons_of_length_pos
    (Nat.lt_of_lt_of_eq (Nat.succ_pos _) (length_linesOf cs).symm)
  refine ⟨line, lines, hl, ?_⟩
  rw [linesOf, List.splitOn_cons_eq_if_modifyHead, if_neg (by simpa using h), ← linesOf, hl]
  rfl

theorem not_mem_of_mem_linesOf {cs line : List Char} (h : line ∈ linesOf cs) : '\n' ∉ line := by
  induction cs generalizing line with
  | nil =>
    rw [List.mem_singleton.1 h]
    exact List.not_mem_nil
  | cons c cs ih =>
    rw [linesOf, List.splitOn_cons_eq_if_modifyHead, ← linesOf] at h
    by_cases hc : c = '\n'
    · rw [if_pos (by simpa using hc)] at h
      rcases List.mem_cons.1 h with rfl | h
      · exact List.not_mem_nil
      · exact ih h
    · rw [if_neg (by simpa using hc)] at h
      cases hl : linesOf cs with
      | nil => simp [hl] at h
      | cons first rest =>
        rw [hl, List.modifyHead_cons] at h
        rcases List.mem_cons.1 h with rfl | h
        · have hf : '\n' ∉ first := ih (hl ▸ List.mem_cons_self)
          exact List.not_mem_cons_of_ne_of_not_mem (Ne.symm hc) hf
        · exact ih (hl ▸ List.mem_cons_of_mem _ h)

theorem head?_linesOf_append {front : List Char} (h : '\n' ∉ front) (back : List Char) :
    (linesOf (front ++ back)).head? = some (front ++ back.takeWhile (· ≠ '\n')) := by
  have hw : ∀ c ∈ front, decide (c ≠ '\n') = true := fun c hc =>
    decide_eq_true (ne_of_mem_of_not_mem hc h)
  rw [head?_linesOf, List.takeWhile_append_of_pos hw]

theorem exists_last_line {cs : List Char} (h : '\n' ∈ cs) :
    ∃ earlier line, cs = earlier ++ '\n' :: line ∧ '\n' ∉ line := by
  -- The last line feed is the first one of the reversed text.
  obtain ⟨line, earlier, hs, hl⟩ := List.eq_append_cons_of_mem (List.mem_reverse.2 h)
  refine ⟨earlier.reverse, line.reverse, List.reverse_inj.1 ?_, by simpa using hl⟩
  simpa using hs

/-- A text ends in the line with the number of its line feeds. The part of this line that belongs to
the text begins at the start of the line, and the rest of the line stands behind the text. -/
theorem getElem?_linesOf (front back : List Char) :
    (linesOf (front ++ back))[front.count '\n']? =
      some (front.drop (lineStart front) ++ back.takeWhile (· ≠ '\n')) := by
  by_cases hn : '\n' ∈ front
  · obtain ⟨earlier, line, hf, hline⟩ := exists_last_line hn
    have hcount : front.count '\n' = (linesOf earlier).length := by
      rw [hf, List.count_append, List.count_cons_self, List.count_eq_zero_of_not_mem hline,
        length_linesOf]
    have hdrop : front.drop (lineStart front) = line := by
      rw [hf, lineStart_append earlier hline, List.append_cons]
      exact List.drop_left' (by simp)
    rw [hdrop, hcount, hf, List.append_assoc, List.cons_append, linesOf_append,
      List.getElem?_append_right (Nat.le_refl _), Nat.sub_self, ← List.head?_eq_getElem?]
    exact head?_linesOf_append hline back
  · have hstart : lineStart front = 0 := by
      rw [lineStart, List.idxOf_eq_length (by simpa using hn), List.length_reverse, Nat.sub_self]
    rw [List.count_eq_zero_of_not_mem hn, hstart, List.drop_zero, ← List.head?_eq_getElem?]
    exact head?_linesOf_append hn back

end LispReader
