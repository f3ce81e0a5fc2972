import LispReader.Proofs.Transcripts

/-! Input in pieces.

A session does not wait for all of its input: it takes a piece, responds to the lines of that, and
then takes the next piece. As long as the input is cut behind line feeds, no line is in two pieces
and no line end is torn apart, so the session is the one on the whole input:
`answerSession_pieces`. -/
namespace LispReader

/-! ### Lines of pieces -/

namespace Text.Newline

/-- A line feed at the end of a text stays there. -/
theorem getLast?_unify {cs : List Char} (h : cs.getLast? = some '\n') :
    (unify cs).getLast? = some '\n' := by
  fun_induction unify cs with
  | case1 rest ih =>
    cases rest with
    | nil => rfl
    | cons c rest =>
      rw [List.getLast?_cons_cons, List.getLast?_cons_cons] at h
      rw [List.getLast?_cons, ih h]
      rfl
  | case2 rest hn ih =>
    cases rest with
    | nil => cases h
    | cons c rest =>
      rw [List.getLast?_cons_cons] at h
      rw [List.getLast?_cons, ih h]
      rfl
  | case3 c rest hr hn ih =>
    cases rest with
    | nil => exact h
    | cons d rest =>
      rw [List.getLast?_cons_cons] at h
      rw [List.getLast?_cons, ih h]
      rfl
  | case4 => cases h

/-- Behind a line feed, line ends are unified as in a text of its own. -/
theorem unify_append {front : List Char} (h : front.getLast? = some '\n') (back : List Char) :
    unify (front ++ back) = unify front ++ unify back := by
  fun_induction unify front with
  | case1 rest ih =>
    cases rest with
    | nil => rfl
    | cons c rest =>
      rw [List.getLast?_cons_cons, List.getLast?_cons_cons] at h
      exact congrArg ('\n' :: ·) (ih h)
  | case2 rest hn ih =>
    cases rest with
    | nil => cases h
    | cons c rest =>
      rw [List.getLast?_cons_cons] at h
      have hc : c ≠ '\n' := fun hc => hn rest (congrArg (· :: rest) hc)
      have hu : unify ('\r' :: c :: (rest ++ back)) = '\n' :: unify (c :: (rest ++ back)) := by
        rw [unify]
        intro rest' he
        exact hc (List.cons.inj he).1
      exact hu.trans (congrArg ('\n' :: ·) (ih h))
  | case3 c rest hr hn ih =>
    have hu (cs : List Char) : unify (c :: cs) = c :: unify cs := by
      rw [unify]
      · exact fun _ hc _ => hn hc
      · exact hn
    cases rest with
    | nil =>
      obtain rfl := Option.some.inj h
      exact hu back
    | cons d rest =>
      rw [List.getLast?_cons_cons] at h
      exact (hu _).trans (congrArg (c :: ·) (ih h))
  | case4 => cases h

/-- Behind a line feed, further lines begin. -/
theorem lines_append {front : List Char} (h : front.getLast? = some '\n') (back : List Char) :
    lines (front ++ back) = lines front ++ lines back := by
  obtain ⟨front, rfl⟩ := List.getLast?_eq_some_iff.1 h
  have hfront : lines (front ++ ['\n']) = linesOf front := by
    have hl : linesOf (front ++ ['\n']) = linesOf front ++ [[]] := linesOf_append front []
    rw [lines, ← linesOf, hl, if_pos List.getLast?_concat, List.dropLast_concat]
  have hback : linesOf back ≠ [] := by
    intro hb
    have hl := length_linesOf back
    rw [hb] at hl
    cases hl
  have happend : linesOf (front ++ ['\n'] ++ back) = linesOf front ++ linesOf back := by
    rw [List.append_assoc, List.singleton_append, linesOf_append]
  rw [hfront, lines, lines, ← linesOf, ← linesOf, happend, List.getLast?_append_of_ne_nil _ hback]
  split
  · exact List.dropLast_append_of_ne_nil hback
  · rfl

end Text.Newline

namespace CommandLine

variable {o : Options}

/-! ### Stretches -/

/-- A stretch that goes on, unless it has ended the session. -/
def Stretch.andThen (s t : Stretch) : Stretch :=
  match s.ending with
  | some _ => s
  | none => t.after s.output

theorem Stretch.after_andThen (s t : Stretch) (first : Output) :
    (s.after first).andThen t = (s.andThen t).after first := by
  obtain ⟨output, ending⟩ := s
  cases ending with
  | some exit => rfl
  | none => exact congrArg (Stretch.mk · t.ending) (Output.append_assoc first output t.output)

theorem Stretch.close_andThen (s t : Stretch) : (s.andThen t).close =
    match s.ending with
    | some exit => ⟨s.output, exit⟩
    | none => t.close.after s.output := by
  obtain ⟨output, ending⟩ := s
  cases ending with
  | some exit => rfl
  | none => exact t.close_after output

theorem respondAll_append (front back : List String) :
    respondAll o (front ++ back) = (respondAll o front).andThen (respondAll o back) := by
  induction front with
  | nil => exact congrArg (Stretch.mk · _) (Output.empty_append _).symm
  | cons line rest ih =>
    rw [List.cons_append, respondAll, respondAll]
    cases respond o line with
    | leave => rfl
    | proceed output =>
      show (respondAll o (rest ++ back)).after _ = ((respondAll o rest).after _).andThen _
      rw [ih, Stretch.after_andThen]
    | abort output condition => rfl

/-! ### Pieces -/

theorem inputLines_append {front : String} (h : front.toList.getLast? = some '\n')
    (back : String) : inputLines (front ++ back) = inputLines front ++ inputLines back := by
  rw [inputLines, String.toList_append, Text.Newline.unify_append h,
    Text.Newline.lines_append (Text.Newline.getLast?_unify h), List.map_append]
  rfl

/-- The answer behind a prompt to input that comes in pieces. Each is responded to before there is
another one. -/
def answerPieces (o : Options) : List String → Answer
  | [] => endOfSession
  | piece :: rest =>
    match (respondAll o (inputLines piece)).ending with
    | some exit => ⟨(respondAll o (inputLines piece)).output, exit⟩
    | none => (answerPieces o rest).after (respondAll o (inputLines piece)).output

/-- Input that is cut behind line feeds is answered as it is in one piece. -/
theorem answerPieces_eq {pieces : List String}
    (h : ∀ piece ∈ pieces.dropLast, piece.toList.getLast? = some '\n') :
    answerPieces o pieces = (respondAll o (inputLines (String.join pieces))).close := by
  induction pieces with
  | nil => rfl
  | cons piece rest ih =>
    cases rest with
    | nil =>
      rw [String.join_cons, String.join_nil, String.append_empty]
      rfl
    | cons next rest =>
      rw [List.dropLast_cons_cons] at h
      obtain ⟨hp, hr⟩ := List.forall_mem_cons.1 h
      have hjoin : String.join (piece :: next :: rest) = piece ++ String.join (next :: rest) :=
        String.join_cons
      rw [answerPieces, ih hr, hjoin, inputLines_append hp, respondAll_append,
        Stretch.close_andThen]

/-- So a session may ask for its input piece by piece. -/
theorem answerSession_pieces {pieces : List String}
    (h : ∀ piece ∈ pieces.dropLast, piece.toList.getLast? = some '\n') :
    answerSession o (inputLines (String.join pieces)) =
      (answerPieces o pieces).after (.toOut (banner ++ prompt)) := by
  have hstart : Output.toOut (banner ++ prompt) = .toOut banner ++ .toOut prompt := rfl
  rw [answerPieces_eq h, hstart, ← Answer.after_after]
  rfl

end CommandLine
end LispReader
