import LispReader.Proofs.Displacement
import LispReader.Proofs.Reports

/-! Lines of a session.

A session answers a line by what it answers to the text between the white space at the ends of the
line, known as standard input. That text is not the line as it was typed: what is told of it has the
columns of the text, which are fewer than those of the line by the white space in front, and white
space at the ends that separates no tokens is not told of at all. `respond_reported` says how what
is told goes with what there is to tell of the line. -/
namespace LispReader
open Text (Only IsInline)

/-! ### White space at the ends -/

namespace Text

/-- The white space in front of a text. -/
def leading (s : String) : List Char := s.toList.takeWhile isBlank

/-- The white space behind a text that is not all white space. -/
def trailing (s : String) : List Char :=
  ((s.toList.dropWhile isBlank).reverse.takeWhile isBlank).reverse

theorem toList_eq_trim (s : String) :
    s.toList = leading s ++ ((trim s).toList ++ trailing s) := by
  have hd : s.toList.dropWhile isBlank = (trim s).toList ++ trailing s := by
    rw [trim, String.toList_ofList, trimBy, trailing, ← List.reverse_append,
      List.takeWhile_append_dropWhile, List.reverse_reverse]
  rw [leading, ← hd, List.takeWhile_append_dropWhile]

/-- The white space at both ends. -/
def ends (s : String) : List Char := leading s ++ trailing s

theorem isBlank_of_mem_ends {s : String} {c : Char} (h : c ∈ ends s) : isBlank c = true := by
  rcases List.mem_append.1 h with h | h
  · exact List.all_eq_true.1 List.all_takeWhile c h
  · exact List.all_eq_true.1 List.all_takeWhile c (List.mem_reverse.1 h)

theorem mem_of_mem_ends {s : String} {c : Char} (h : c ∈ ends s) : c ∈ s.toList := by
  rw [toList_eq_trim s]
  rcases List.mem_append.1 h with h | h
  · exact List.mem_append_left _ h
  · exact List.mem_append_right _ (List.mem_append_right _ h)

theorem isAlphanum_eq_false_of_isBlank {c : Char} (h : isBlank c = true) :
    c.isAlphanum = false := by
  have hv : c.toNat = c.val.toNat := rfl
  simp only [isBlank, Bool.or_eq_true, Bool.and_eq_true, decide_eq_true_eq, beq_iff_eq] at h
  have hd : c.isDigit = false := by
    have hi := @Char.isDigit_iff_toNat c
    grind
  have ha : c.isAlpha = false := by
    show (decide (c.val ≥ 65 ∧ c.val ≤ 90) || (c.val ≥ 97 && c.val ≤ 122)) = false
    simp only [ge_iff_le, UInt32.le_iff_toNat_le]
    grind
  rw [Char.isAlphanum, hd, ha]
  rfl

end Text

/-- White space that separates no tokens cannot be read. -/
theorem Scan.isStray_of_isBlank {c : Char} (h : Text.isBlank c = true) (hg : isGap c = false) :
    IsStray c where
  gap := hg
  glyph := by
    refine Option.eq_none_iff_forall_ne_some.2 fun kind hk => ?_
    have hc := Kind.ofGlyph?_eq_some_iff.1 hk
    revert h
    cases kind <;> simp only [Kind.glyph, Option.some.injEq, reduceCtorEq] at hc <;>
      subst hc <;> decide
  word := Text.isAlphanum_eq_false_of_isBlank h

/-- A text with a character that belongs to nothing is not read. -/
theorem exists_fault_of_stray {source : String} {c : Char} (hm : c ∈ source.toList)
    (hc : Scan.IsStray c) : ∃ fault, scan source = .error fault := by
  obtain ⟨front, back, hs⟩ := List.append_of_mem hm
  have hbad : Bad source.toList front.length := ⟨front, c, back, hs, rfl, .inl hc⟩
  cases hr : scan source with
  | error fault => exact ⟨fault, rfl⟩
  | ok tokens => exact absurd hbad ((Scan.scan_eq_iff.1 hr).accounts front.length)

namespace CommandLine

variable {o : Options} {line : String}

/-- The response that an answer makes, before the next line is asked for. -/
def Response.ofAnswer : Answer → Response
  | ⟨output, .ok _⟩ => .proceed output
  | ⟨output, .error condition⟩ => .abort output condition

/-- The line is neither blank nor a command. -/
structure IsInput (line : String) : Prop where
  notBlank : Text.trim line ≠ ""
  notExit : (Text.trim line).toLower ≠ "exit"
  notHelp : (Text.trim line).toLower ≠ "help"

theorem respond_of_isInput (h : IsInput line) (o : Options) :
    respond o line = .ofAnswer (answerText o "<stdin>" (Text.trim line)) := by
  simp only [respond, if_neg h.notBlank, if_neg h.notExit, if_neg h.notHelp]
  obtain ⟨output, exit⟩ := answerText o "<stdin>" (Text.trim line)
  cases exit <;> rfl

/-! ### Lines as they are typed -/

theorem inline_of_mem_inputLines {input : String} (h : line ∈ inputLines input) :
    Only IsInline line := by
  obtain ⟨cs, hc, rfl⟩ := List.mem_map.1 h
  have hl : cs ∈ linesOf (Text.Newline.unify input.toList) := by
    rw [Text.Newline.lines] at hc
    split at hc
    · exact List.dropLast_subset _ hc
    · exact hc
  exact Text.only_ofList.2 fun c hm => ne_of_mem_of_not_mem hm (not_mem_of_mem_linesOf hl)

theorem traceLines_eq (source : String) :
    traceLines source =
      ((read source).events.map Derivation.Event.text).map fun text => "trace: " ++ text := by
  rw [List.map_map]
  rfl

/-- A tree does not tell where its text stands. -/
theorem answerText_of_indented {name source source' : String} {before behind : Nat} {t : ParseTree}
    (h : (read source).Indented before behind (read source')) (ht : (read source).result = .ok t)
    (ho : o.tokens = false) : answerText o name source' = answerText o name source := by
  have ht' : (read source').result = .ok t := by
    rw [h.result, ht]
    rfl
  have ha : (read source).analysis (some name) =
      .ok { tree := some t, tokens := (read source).tokens } := by rw [Reading.analysis, ht]
  have ha' : (read source').analysis (some name) =
      .ok { tree := some t, tokens := (read source').tokens } := by rw [Reading.analysis, ht']
  have hl : traced o source' = traced o source := by
    rw [traced, traced, traceLines_eq, traceLines_eq, h.trace]
  have hlisting (tokens : List Token) : listing o tokens = "" := by rw [listing, ho]; rfl
  rw [answerText_of_analysis ha, answerText_of_analysis ha', hl, report_tree, report_tree, ho,
    hlisting, hlisting]
  rfl

/-- How the response to a line goes with what there is to tell of the line as it was typed. -/
structure Reported (o : Options) (line : String) : Prop where
  /-- The answer is the one to the text between the white space at the ends. -/
  response : respond o line = .ofAnswer (answerText o "<stdin>" (Text.trim line))
  /-- Without such white space that is the line itself. -/
  exact : Text.ends line = [] → respond o line = .ofAnswer (answerText o "<stdin>" line)
  /-- If the white space separates tokens, the line is read as the text is, but further to the right
  by all that stands in front. -/
  indented : (∀ c ∈ Text.ends line, Scan.isGap c = true) →
    (read (Text.trim line)).Indented (Text.leading line).length (Text.trailing line).length
      (read line)
  /-- Then nothing is lost on a line that is read, as long as no tokens are listed. -/
  tree : (∀ c ∈ Text.ends line, Scan.isGap c = true) →
    o.tokens = false → ∀ t, (read (Text.trim line)).result = .ok t →
      respond o line = .ofAnswer (answerText o "<stdin>" line)
  /-- Any other white space at the ends makes the line one that cannot be read. -/
  unread : ∀ c ∈ Text.ends line, Scan.isGap c = false →
    ∃ fault, (read line).result = .error (.lexical fault)

theorem surrounded_of_gaps (hl : Only IsInline line)
    (hg : ∀ c ∈ Text.ends line, Scan.isGap c = true) :
    Surrounded (Text.leading line) (Text.trailing line) (Text.trim line) line where
  toList_eq := Text.toList_eq_trim line
  front c hc := hg c (List.mem_append_left _ hc)
  back c hc := hg c (List.mem_append_right _ hc)
  inline := hl

/-- Any line that is neither blank nor a command is answered in this way, whatever the options. -/
theorem respond_reported (o : Options) (hl : Only IsInline line) (h : IsInput line) :
    Reported o line := by
  have hr := respond_of_isInput h o
  refine ⟨hr, fun he => ?_, fun hg => (surrounded_of_gaps hl hg).indented,
    fun hg ho t ht => ?_, fun c hc hg => ?_⟩
  · obtain ⟨hf, hb⟩ := List.append_eq_nil_iff.1 he
    have hs := Text.toList_eq_trim line
    rw [hf, hb, List.nil_append, List.append_nil, String.toList_inj] at hs
    rw [hr, ← hs]
  · rw [hr, answerText_of_indented (surrounded_of_gaps hl hg).indented ht ho]
  · have hc' := Scan.isStray_of_isBlank (Text.isBlank_of_mem_ends hc) hg
    obtain ⟨fault, hf⟩ := exists_fault_of_stray (Text.mem_of_mem_ends hc) hc'
    exact ⟨fault, by rw [read_of_scan_error hf]⟩

/-- A hyphen behind two spaces. -/
def indentedHyphen : String := "  -"

theorem toList_toLower (s : String) : s.toLower.toList = s.toList.map Char.toLower :=
  String.toList_map

theorem toLower_ne {s t : String} (h : s.toList.map Char.toLower ≠ t.toList) : s.toLower ≠ t := by
  intro he
  rw [← he, toList_toLower] at h
  exact h rfl

theorem isInput_indentedHyphen : IsInput indentedHyphen where
  notBlank := by decide
  notExit := toLower_ne (by decide)
  notHelp := toLower_ne (by decide)

theorem respond_reported_indentedHyphen : indentedHyphen ∈ inputLines "  -\n" ∧
    Only IsInline indentedHyphen ∧ IsInput indentedHyphen ∧
      Reported { tokens := true } indentedHyphen := by
  have hm : indentedHyphen ∈ inputLines "  -\n" := by decide
  have hl := inline_of_mem_inputLines hm
  exact ⟨hm, hl, isInput_indentedHyphen, respond_reported _ hl isInput_indentedHyphen⟩

theorem answerText_of_hyphen {source : String} {p : Position}
    (h : scan source = .error (Scan.faultAt '-' p)) :
    answerText {} "<stdin>" source =
      ⟨.toErr (written
        (Diagnostic.ofLexical (some "<stdin>") (Scan.faultAt '-' p).report).lines), .ok 1⟩ := by
  have ha : (read source).analysis (some "<stdin>") =
      .ok { diagnostics := [.ofLexical (some "<stdin>") (Scan.faultAt '-' p).report] } := by
    rw [read_of_scan_error h]
    rfl
  rw [answerText_of_analysis ha, report_diagnostic]
  exact Answer.behind_nil _

/-- The hyphen is told of in column one, but it stands in column three. -/
theorem not_answered_as_typed : ¬ ∀ (o : Options) (line : String), Only IsInline line →
    IsInput line → respond o line = .ofAnswer (answerText o "<stdin>" line) := by
  intro hall
  have hstray : Scan.IsStray '-' := ⟨rfl, rfl, rfl⟩
  have htyped : scan indentedHyphen =
      .error (Scan.faultAt '-' ((Position.start.after ' ').after ' ')) :=
    Scan.scan_eq_iff.2 (.gap rfl (.gap rfl (.stray _ [] hstray)))
  have htrim : scan (Text.trim indentedHyphen) = .error (Scan.faultAt '-' .start) :=
    Scan.scan_eq_iff.2 (.stray _ [] hstray)
  have hr := hall {} indentedHyphen (by decide) isInput_indentedHyphen
  rw [respond_of_isInput isInput_indentedHyphen, answerText_of_hyphen htyped,
    answerText_of_hyphen htrim] at hr
  have he := congrArg Output.err (Response.proceed.inj hr)
  exact absurd he (by decide)

end CommandLine

end LispReader
