import LispReader.Proofs.LexicalFaults
import LispReader.Proofs.Reach
import LispReader.Proofs.Readings

/-! Where diagnostics point.

A lexical diagnostic stands at one character of the text, and one of the parser around the text of a
token. Positions are found by counting, so that the lines of the text can be asked what stands
there: it is the character that could not be read, or the text of the token that was refused, and
nothing if that token is the end of input. This is `span_exact`. -/
namespace LispReader

/-! ### Places in the lines of a text -/

/-- The span begins at this character of the text and has no end. -/
structure Span.IsAt (source : String) (c : Char) (s : Span) : Prop where
  place : ∃ (i j : Nat) (row : List Char),
    (linesOf source.toList)[i]? = some row ∧ row[j]? = some c ∧
    s.line = some (i + 1 : Int) ∧ s.column = some (j + 1 : Int)
  endLine : s.endLine = none
  endColumn : s.endColumn = none

/-- The span ends in the line in which it begins, and covers these characters of it. -/
structure Span.Covers (source : String) (text : List Char) (s : Span) : Prop where
  place : ∃ (i : Nat) (front back : List Char),
    (linesOf source.toList)[i]? = some (front ++ text ++ back) ∧
    s.line = some (i + 1 : Int) ∧ s.column = some (front.length + 1 : Int) ∧
    s.endColumn = some (front.length + text.length + 1 : Int)
  endLine : s.endLine = s.line

/-- The span is empty and stands behind the last character of the last line. -/
structure Span.IsAtEnd (source : String) (s : Span) : Prop where
  line : s.line = some ((linesOf source.toList).length : Int)
  column : ∃ last, (linesOf source.toList).getLast? = some last ∧
    s.column = some (last.length + 1 : Int)
  endLine : s.endLine = s.line
  endColumn : s.endColumn = s.column

/-- The diagnostic tells where the text could not be read or where its parse was refused. -/
inductive Diagnostic.PointsInto (source : String) (d : Diagnostic) : Prop
  | lexical {fault : LexicalFault} (phase : d.phase = some "lexer")
      (faulty : scan source = .error fault) (isAt : d.span.IsAt source fault.char)
  | syntactic {fault : SyntaxFault} (phase : d.phase = some "parser")
      (refused : (read source).result = .error (.parse (.refused fault)))
      (covers : d.span.Covers source fault.token.text.toList)
      (isAtEnd : fault.token.kind = .endOfInput → d.span.IsAtEnd source)

/-! ### Tokens -/

theorem Token.WellSpelled.not_mem_text {t : Token} (h : t.WellSpelled) : '\n' ∉ t.text.toList := by
  intro hn
  cases h with
  | glyph hg =>
    rw [Token.toList_text_of_glyph hg, List.mem_singleton] at hn
    cases hn
    cases Kind.isGap_glyph hg
  | number _ hl hd =>
    rw [Token.toList_text_of_lexeme hl] at hn
    cases hd.isAlphanum _ hn
  | identifier _ hl hx =>
    rw [Token.toList_text_of_lexeme hl] at hn
    cases hx.isAlphanum _ hn

/-- Nothing is written for the end of input. -/
theorem Token.text_of_endOfInput {t : Token} (h : t.kind = .endOfInput) : t.text = "" := by
  have hl : t.lexeme = none := by
    rw [← Option.isNone_iff_eq_none, ← Option.not_isSome, t.isSome_lexeme, h]
    rfl
  rw [text, hl, h]
  rfl

/-- The token stands in the text behind the given part of it; an end of input, behind all of it. -/
structure Token.StandsBehind (t : Token) (cs front : List Char) : Prop where
  split : ∃ back, cs = front ++ (t.text.toList ++ back)
  behind : t.position.IsBehind front
  not_mem : '\n' ∉ t.text.toList
  eq_front : t.kind = .endOfInput → cs = front

theorem Tiling.exists_standsBehind {front cs : List Char} {tokens : List Token}
    (h : Tiling front cs tokens) {t : Token} (ht : t ∈ tokens) :
    ∃ before, t.StandsBehind (front ++ cs) before := by
  induction h with
  | @last front gap p _ hb =>
    obtain rfl := List.mem_singleton.1 ht
    exact ⟨front ++ gap, ⟨[], (List.append_nil _).symm⟩, hb, List.not_mem_nil, fun _ => rfl⟩
  | @token front gap cs u tokens hg hb hs _ _ ih =>
    rcases List.mem_cons.1 ht with rfl | ht
    · exact ⟨front ++ gap, ⟨cs, by simp⟩, hb, hs.not_mem_text, fun hk => absurd hk hs.kind_ne⟩
    · obtain ⟨before, hb⟩ := ih ht
      exact ⟨before, by simpa using hb⟩

theorem exists_standsBehind_of_scan {source : String} {tokens : List Token} {t : Token}
    (h : scan source = .ok tokens) (ht : t ∈ tokens) :
    ∃ before, t.StandsBehind source.toList before := by
  have hr : Tiling [] source.toList tokens := (Scan.scan_eq_iff.1 h).tiling rfl rfl
  exact hr.exists_standsBehind ht

/-! ### Spans -/

/-- A position behind a text lies in the line where the text ends. -/
theorem Position.IsBehind.coordinates {p : Position} {front : List Char} (h : p.IsBehind front) :
    (p.line : Int) = front.count '\n' + 1 ∧
      (p.column : Int) = (front.drop (lineStart front)).length + 1 := by
  rw [h.line, h.column, List.length_drop]
  omega

section

variable {source : String} {file : Option String} {t : Token} {front : List Char}

theorem isAt_ofStart {p : Position} {c : Char} {back : List Char} (h : p.IsBehind front)
    (hs : source.toList = front ++ c :: back) (hc : c ≠ '\n') :
    (Span.ofStart file p.line p.column).IsAt source c where
  place := by
    obtain ⟨hl, hcol⟩ := h.coordinates
    refine ⟨_, _, front.drop (lineStart front) ++ (c :: back).takeWhile (· ≠ '\n'), ?_, ?_,
      congrArg some hl, congrArg some hcol⟩
    · rw [hs, getElem?_linesOf]
    · rw [List.getElem?_append_right (Nat.le_refl _), Nat.sub_self]
      simp [hc]
  endLine := rfl
  endColumn := rfl

theorem covers_ofToken (h : t.StandsBehind source.toList front) :
    (Span.ofToken file t).Covers source t.text.toList where
  place := by
    obtain ⟨back, hs⟩ := h.split
    obtain ⟨hl, hcol⟩ := h.behind.coordinates
    have hw : ∀ c ∈ t.text.toList, decide (c ≠ '\n') = true := fun c hc =>
      decide_eq_true (ne_of_mem_of_not_mem hc h.not_mem)
    refine ⟨front.count '\n', front.drop (lineStart front), back.takeWhile (· ≠ '\n'), ?_,
      congrArg some hl, congrArg some hcol, congrArg some ?_⟩
    · rw [hs, getElem?_linesOf, List.takeWhile_append_of_pos hw, List.append_assoc]
    · rw [Int.natCast_add, hcol, String.length_toList]
      omega
  endLine := rfl

theorem isAtEnd_ofToken (h : t.StandsBehind source.toList front) (hk : t.kind = .endOfInput) :
    (Span.ofToken file t).IsAtEnd source where
  line := by
    rw [length_linesOf, h.eq_front hk]
    exact congrArg some h.behind.coordinates.1
  column := by
    refine ⟨front.drop (lineStart front), ?_, congrArg some h.behind.coordinates.2⟩
    have hl := getElem?_linesOf front []
    rw [List.append_nil] at hl
    rw [h.eq_front hk, List.getLast?_eq_getElem?, length_linesOf, Nat.add_sub_cancel, hl]
    simp
  endLine := rfl
  endColumn := by
    rw [Span.ofToken, Token.text_of_endOfInput hk]
    rfl

end

/-! ### Diagnostics -/

/-- What is refused is one of the tokens. -/
theorem token_mem_of_refused {tokens : List Token} {c : Cursor} {fault : SyntaxFault}
    (hc : Cursor.ofTokens? tokens = some c)
    (h : (Derivation.parseStandard c).result = .error (.refused fault)) : fault.token ∈ tokens := by
  obtain ⟨limit, hr⟩ := Derivation.exists_run_standard (Derivation.start c)
  have hs := Derivation.stopsAt_of_run hr
  rw [hs.token_eq fault h]
  exact List.mem_of_getElem? (hs.reaches.getElem?_index hc)

/-- No character that cannot be read is a line feed. -/
theorem FirstBad.ne_newline {front back : List Char} {c : Char}
    (h : FirstBad (front ++ c :: back) front.length) : c ≠ '\n' := by
  rintro rfl
  obtain ⟨f, c, b, hs, hl, hb⟩ := bad_iff.1 h.bad
  obtain ⟨rfl, hcons⟩ := List.append_inj hs hl
  cases hcons
  rcases hb with hb | ⟨ha, -⟩
  · cases hb.gap
  · cases ha

theorem char_faultOf (c : Char) (p : Position) : (faultOf c p).char = c := by
  unfold faultOf
  split <;> rfl

theorem position_faultOf (c : Char) (p : Position) : (faultOf c p).position = p := by
  unfold faultOf
  split <;> rfl

variable {source : String} {file : Option String} {a : Analysis} {d : Diagnostic}

theorem pointsInto_ofLexical {fault : LexicalFault} (h : scan source = .error fault) :
    (Diagnostic.ofLexical file fault.report).PointsInto source := by
  have ha := (Scan.scan_eq_iff.1 h).accounts
  obtain ⟨front, c, back, hs, hf, rfl⟩ := ha
  rw [hs] at hf
  have hb := Position.isBehind_along front
  refine .lexical rfl h ?_
  rw [char_faultOf]
  rw [← position_faultOf c (Position.start.along front)] at hb
  exact isAt_ofStart hb hs hf.ne_newline

theorem pointsInto_ofSyntax {tokens : List Token} {c : Cursor} {fault : SyntaxFault}
    (hs : scan source = .ok tokens) (hc : Cursor.ofTokens? tokens = some c)
    (hr : (read source).result = .error (.parse (.refused fault)))
    (hf : (Derivation.parseStandard c).result = .error (.refused fault)) :
    (Diagnostic.ofSyntax file fault.report).PointsInto source := by
  obtain ⟨front, ht⟩ := exists_standsBehind_of_scan hs (token_mem_of_refused hc hf)
  exact .syntactic rfl hr (covers_ofToken ht) (isAtEnd_ofToken ht)

/-- Each diagnostic of a text names the file and points at what it tells of. -/
theorem span_exact (h : (read source).analysis file = .ok a) (hd : d ∈ a.diagnostics) :
    d.span.file = file ∧ d.PointsInto source := by
  cases hs : scan source with
  | error fault =>
    rw [read_of_scan_error hs] at h
    cases h
    obtain rfl := List.mem_singleton.1 hd
    exact ⟨rfl, pointsInto_ofLexical hs⟩
  | ok tokens =>
    obtain ⟨c, hc, -, hr⟩ := read_of_scan_ok hs
    cases hx : (Derivation.parseStandard c).result with
    | ok t =>
      rw [hr, hx] at h
      cases h
      cases hd
    | error fault =>
      rw [hx] at hr
      rw [hr] at h
      cases fault with
      | refused fault =>
        cases h
        obtain rfl := List.mem_singleton.1 hd
        exact ⟨rfl, pointsInto_ofSyntax hs hc (by rw [hr]; rfl) hx⟩
      | numeral fault => cases h
      | state fault => cases h

/-- A form without its second operand, on two lines. -/
def unfinished : String := "(= x\n)"

theorem span_exact_unfinished : ∃ a d, (read unfinished).analysis (some "f") = .ok a ∧
    d ∈ a.diagnostics ∧ d.span.line = some 2 ∧ d.span.file = some "f" ∧ d.PointsInto unfinished := by
  have hx : IsName ['x'] := .mk rfl nofun
  have hl : Kind.leftParen.glyph = some '(' := rfl
  have he : Kind.equals.glyph = some '=' := rfl
  have hr : Kind.rightParen.glyph = some ')' := rfl
  have hs : Scan.Reads .start ['(', '=', ' ', 'x', '\n', ')'] _ :=
    .glyph hl <| .glyph he <| .gap rfl <| .identifier hx (detached_cons rfl [')']) <|
      .gap rfl <| .glyph hr (.nil _)
  obtain ⟨c, hc, -, hread⟩ := read_of_scan_ok (@Scan.scan_eq_iff unfinished _ |>.2 hs)
  obtain ⟨o, hrun, fault, hf, hline⟩ : ∃ o,
      Derivation.run Grammar.standard 9 (Derivation.start c) = some o ∧
        ∃ fault, o.result = .error (.refused fault) ∧ fault.token.position.line = 2 := by
    cases hc
    exact ⟨_, rfl, _, rfl, rfl⟩
  obtain ⟨a, ha, hd⟩ : ∃ a, (read unfinished).analysis (some "f") = .ok a ∧
      .ofSyntax (some "f") fault.report ∈ a.diagnostics := by
    rw [hread, Derivation.parseStandard, Derivation.runStandard_eq_of_run hrun, hf]
    exact ⟨_, rfl, List.mem_singleton_self _⟩
  exact ⟨a, _, ha, hd, congrArg (some ∘ Nat.cast) hline, span_exact ha hd⟩

end LispReader
