import LispReader.Proofs.Sessions

/-! Transcripts of sessions.

A session asks for one line after the other and reports each as if it were the only one. Nothing
that is reported ends it, be it an error, as long as the runs of digits are short. It is over behind
the first line that is the command to leave, or at the end of the input. So the transcript of lines
without that command goes on with the transcript of any others where the input would have ended:
`session_unfolds`. -/
namespace LispReader

/-- The text between the white space at the ends of a line has no longer runs of digits. -/
theorem ShortRuns.trim {line : String} (h : ShortRuns line) : ShortRuns (Text.trim line) := by
  intro run hr hd
  have ht : (Text.trim line).toList <:+: line.toList :=
    ⟨Text.leading line, Text.trailing line, by
      rw [Text.toList_eq_trim line, List.append_assoc]⟩
  exact h run (hr.trans ht) hd

namespace CommandLine

/-! ### Outputs one behind the other -/

namespace Output

theorem empty_append (a : Output) : {} ++ a = a :=
  congrArg₂ Output.mk String.empty_append String.empty_append

theorem append_empty (a : Output) : a ++ {} = a :=
  congrArg₂ Output.mk String.append_empty String.append_empty

theorem append_assoc (a b c : Output) : a ++ b ++ c = a ++ (b ++ c) :=
  congrArg₂ Output.mk String.append_assoc String.append_assoc

end Output

theorem Answer.after_after (a : Answer) (b c : Output) : (a.after b).after c = a.after (c ++ b) :=
  congrArg (Answer.mk · a.exit) (Output.append_assoc c b a.output).symm

/-! ### Single lines -/

variable {o : Options} {line : String} {front back : List String}

/-- The line is the command to leave. -/
def IsExit (line : String) : Prop := (Text.trim line).toLower = "exit"

theorem isExit_iff : IsExit line ↔ (Text.trim line).toList.map Char.toLower = "exit".toList := by
  rw [IsExit, ← String.toList_inj, toList_toLower]

instance : DecidablePred IsExit := fun _ => decidable_of_iff _ isExit_iff.symm

/-- What is reported on a line. -/
def contribution (o : Options) (line : String) : Output :=
  match respond o line with
  | .leave => {}
  | .proceed output => output
  | .abort output _ => output

theorem respond_of_isExit (h : IsExit line) : respond o line = .leave := by
  have hb : Text.trim line ≠ "" := by
    intro hb
    rw [IsExit, hb] at h
    exact toLower_ne (by decide) h
  simp only [respond, if_neg hb]
  exact if_pos h

theorem respond_of_isBlank (h : Text.trim line = "") : respond o line = .proceed {} := by
  simp only [respond, if_pos h]

/-- Every other line is reported, and the session goes on. -/
theorem respond_of_not_isExit (hs : ShortRuns line) (h : ¬ IsExit line) :
    respond o line = .proceed (contribution o line) := by
  have hp : ∃ output, respond o line = .proceed output := by
    by_cases hb : Text.trim line = ""
    · exact ⟨_, respond_of_isBlank hb⟩
    · by_cases hh : (Text.trim line).toLower = "help"
      · refine ⟨.toOut (examples ++ "\n"), ?_⟩
        simp only [respond, if_neg hb, if_pos hh]
        exact if_neg h
      · -- a text with short runs of digits has an analysis, and any analysis is reported
        obtain ⟨a, ha⟩ := hs.trim.exists_analysis (some "<stdin>")
        rw [respond_of_isInput ⟨hb, h, hh⟩, answerText_of_analysis ha]
        exact ⟨_, rfl⟩
  obtain ⟨output, hr⟩ := hp
  rw [contribution, hr]

theorem contribution_of_isBlank (h : Text.trim line = "") : contribution o line = {} := by
  rw [contribution, respond_of_isBlank h]

/-! ### Lines one after the other -/

/-- The answer to the lines of a session from some line on, and the lines that are not read. -/
def attend (o : Options) : List String → Answer × List String
  | [] => (⟨.toOut (prompt ++ "\n"), .ok 0⟩, [])
  | line :: rest =>
    match respond o line with
    | .leave => (⟨.toOut prompt, .ok 0⟩, rest)
    | .proceed output =>
      ((attend o rest).1.after (.toOut prompt ++ output), (attend o rest).2)
    | .abort output condition => (⟨.toOut prompt ++ output, .error condition⟩, rest)

theorem Stretch.close_after (s : Stretch) (first : Output) :
    (s.after first).close = s.close.after first := by
  obtain ⟨output, ending⟩ := s
  cases ending with
  | some exit => rfl
  | none => exact (endOfSession.after_after output first).symm

theorem attend_fst (o : Options) (lines : List String) :
    (attend o lines).1 = answerLines o lines := by
  induction lines with
  | nil => rfl
  | cons line rest ih =>
    rw [attend, answerLines, respondAll]
    cases respond o line with
    | leave => rfl
    | proceed output =>
      show (attend o rest).1.after _ = ((respondAll o rest).after _).close.after _
      rw [Stretch.close_after, Answer.after_after, ih, answerLines, Answer.after_after,
        Output.append_assoc]
    | abort output condition => rfl

/-- What is reported on some lines, with the prompt in front of each. -/
def transcript (o : Options) : List String → Output
  | [] => {}
  | line :: rest => .toOut prompt ++ contribution o line ++ transcript o rest

theorem attend_cons (hs : ShortRuns line) (h : ¬ IsExit line) (rest : List String) :
    attend o (line :: rest) =
      ((attend o rest).1.after (.toOut prompt ++ contribution o line), (attend o rest).2) := by
  rw [attend, respond_of_not_isExit hs h]

theorem attend_exit (h : IsExit line) (rest : List String) :
    attend o (line :: rest) = (⟨.toOut prompt, .ok 0⟩, rest) := by
  rw [attend, respond_of_isExit h]

/-- Lines that do not end the session are reported in front of what comes behind them. -/
theorem attend_append (hs : ∀ line ∈ front, ShortRuns line) (h : ∀ line ∈ front, ¬ IsExit line)
    (back : List String) :
    attend o (front ++ back) =
      ((attend o back).1.after (transcript o front), (attend o back).2) := by
  induction front with
  | nil => exact Prod.ext (congrArg (Answer.mk · _) (Output.empty_append _).symm) rfl
  | cons line rest ih =>
    obtain ⟨hsl, hsr⟩ := List.forall_mem_cons.1 hs
    obtain ⟨hl, hr⟩ := List.forall_mem_cons.1 h
    rw [List.cons_append, attend_cons hsl hl, ih hsr hr, Answer.after_after, transcript]

/-- The session ends without a fault. -/
theorem exit_attend {lines : List String} (hs : ∀ line ∈ lines, ShortRuns line) :
    (attend o lines).1.exit = .ok 0 := by
  induction lines with
  | nil => rfl
  | cons line rest ih =>
    obtain ⟨hsl, hsr⟩ := List.forall_mem_cons.1 hs
    by_cases hl : IsExit line
    · rw [attend_exit hl]
    · rw [attend_cons hsl hl]
      exact ih hsr

/-! ### Sessions -/

/-- What is written at the end of the input. -/
def endOfInput : Output := .toOut (prompt ++ "\n")

theorem answerSession_eq (o : Options) (lines : List String) :
    answerSession o lines = (attend o lines).1.after (.toOut banner) := by
  rw [answerSession, attend_fst]

/-- How a session on these lines goes. -/
structure Unfolds (o : Options) (lines : List String) : Prop where
  exit : (answerSession o lines).exit = .ok 0
  /-- Without the command to leave, all lines are read and reported, one after the other. -/
  toEnd : (∀ line ∈ lines, ¬ IsExit line) →
    (answerSession o lines).output = .toOut banner ++ transcript o lines ++ endOfInput ∧
      (attend o lines).2 = []
  /-- The first command to leave is the last line that is read. -/
  toExit : ∀ front line back, lines = front ++ line :: back → (∀ l ∈ front, ¬ IsExit l) →
    IsExit line →
    (answerSession o lines).output = .toOut banner ++ transcript o front ++ .toOut prompt ∧
      (attend o lines).2 = back
  blank : ∀ line ∈ lines, Text.trim line = "" → contribution o line = {}
  /-- What is reported on a line is what a session reports in which it is the only line. -/
  alone : ∀ line ∈ lines, ¬ IsExit line → (answerSession o [line]).output =
    .toOut banner ++ (.toOut prompt ++ contribution o line) ++ endOfInput
  /-- Where the input would have ended, the transcript goes on with that of the other lines without
  its banner. -/
  append : ∀ front back, lines = front ++ back → (∀ line ∈ front, ¬ IsExit line) →
    ∃ before behind, (answerSession o front).output = before ++ endOfInput ∧
      (answerSession o back).output = .toOut banner ++ behind ∧
      (answerSession o lines).output = before ++ behind

theorem output_answerSession (hs : ∀ line ∈ front, ShortRuns line)
    (h : ∀ line ∈ front, ¬ IsExit line) (back : List String) :
    (answerSession o (front ++ back)).output =
      .toOut banner ++ transcript o front ++ (attend o back).1.output := by
  rw [answerSession_eq, attend_append hs h, Answer.after_after]
  rfl

theorem output_answerSession_end (hs : ∀ line ∈ front, ShortRuns line)
    (h : ∀ line ∈ front, ¬ IsExit line) :
    (answerSession o front).output = .toOut banner ++ transcript o front ++ endOfInput := by
  have ho := output_answerSession hs h (o := o) []
  rwa [List.append_nil] at ho

/-- A session on lines with short runs of digits is the fold of what is reported on them. -/
theorem session_unfolds {lines : List String} (hs : ∀ line ∈ lines, ShortRuns line)
    (o : Options) : Unfolds o lines where
  exit := by
    rw [answerSession_eq]
    exact exit_attend hs
  toEnd h := by
    refine ⟨output_answerSession_end hs h, ?_⟩
    have ha := attend_append hs h (o := o) []
    rw [List.append_nil] at ha
    rw [ha]
    rfl
  toExit front line back he hf hl := by
    subst he
    have hsf : ∀ l ∈ front, ShortRuns l := fun l hm => hs l (List.mem_append_left _ hm)
    rw [output_answerSession hsf hf, attend_append hsf hf, attend_exit hl]
    exact ⟨rfl, rfl⟩
  blank _ _ hb := contribution_of_isBlank hb
  alone line hm hl := by
    have ho := output_answerSession_end (o := o) (List.forall_mem_singleton.2 (hs line hm))
      (List.forall_mem_singleton.2 hl)
    rw [ho, transcript, transcript, Output.append_empty]
  append front back he hf := by
    subst he
    have hsf : ∀ l ∈ front, ShortRuns l := fun l hm => hs l (List.mem_append_left _ hm)
    refine ⟨_, (attend o back).1.output, output_answerSession_end hsf hf, ?_,
      output_answerSession hsf hf back⟩
    rw [answerSession_eq]
    rfl

/-- Errors, a blank line, a request for help, an expression and the command to leave. -/
def typed : List String := ["-", " ", "(f (+ 1", "Help", "(f 12)", "\tEXIT ", "(g y)"]

theorem session_unfolds_typed : (∀ line ∈ typed, ShortRuns line) ∧
    Unfolds { tokens := true } typed ∧ (attend { tokens := true } typed).2 = ["(g y)"] := by
  have hl : ∀ line ∈ typed, line.length ≤ Numeral.digitLimit := by decide
  have hs : ∀ line ∈ typed, ShortRuns line := fun line hm => shortRuns_of_length (hl line hm)
  have hu := session_unfolds hs { tokens := true }
  exact ⟨hs, hu, (hu.toExit (typed.take 5) "\tEXIT " ["(g y)"] rfl (by decide) (by decide)).2⟩

end CommandLine

end LispReader
