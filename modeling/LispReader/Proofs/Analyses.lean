import LispReader.Proofs.Digits
import LispReader.Proofs.NumeralFaults
import LispReader.Proofs.Readings

/-! What becomes of a text.

An analysis tells of a text in one of three ways: by its tree, by one syntax error, or by one
lexical error. The exceptions are texts with a number that has more digits than are read, if the
parse gets to this number. There it ends in a fault that is neither lexical nor a refusal, and for
such a fault there is no diagnostic. `analysis_exact` says which texts these are, and that every
other one has its analysis. -/
namespace LispReader
open Descent

/-! ### Regular analyses -/

/-- An error that was found in the given part of the work on the given file. -/
structure Diagnostic.IsError (d : Diagnostic) (phase : String) (file : Option String) : Prop where
  severity : d.severity = "error"
  phase : d.phase = some phase
  file : d.span.file = file

/-- What an analysis can tell of a text: a tree and all tokens, all tokens and a syntax error, or
nothing but a lexical error. -/
inductive Analysis.Regular (source : String) (file : Option String) : Analysis → Prop
  | parsed {tokens : List Token} (t : ParseTree) (scanned : scan source = .ok tokens) :
      Regular source file { tree := some t, tokens, diagnostics := [] }
  | refused {tokens : List Token} {d : Diagnostic} (scanned : scan source = .ok tokens)
      (isError : d.IsError "parser" file) :
      Regular source file { tree := none, tokens, diagnostics := [d] }
  | unscanned {fault : LexicalFault} {d : Diagnostic} (faulty : scan source = .error fault)
      (isError : d.IsError "lexer" file) :
      Regular source file { tree := none, tokens := [], diagnostics := [d] }

theorem Diagnostic.isError_ofLexical (file : Option String) (r : LexicalReport) :
    (ofLexical file r).IsError "lexer" file := ⟨rfl, rfl, rfl⟩

theorem Diagnostic.isError_ofSyntax (file : Option String) (r : SyntaxReport) :
    (ofSyntax file r).IsError "parser" file where
  severity := rfl
  phase := rfl
  file := by
    rw [ofSyntax]
    cases r.token <;> rfl

/-! ### Overlong numbers -/

/-- A number token with so many digits, which are more than are read. -/
structure Token.Overlong (t : Token) (count : Nat) : Prop where
  kind : t.kind = .number
  length : t.lexeme.map String.length = some count
  lt : Numeral.digitLimit < count

/-- Nothing but its length keeps a number of a text from being read. -/
theorem unreadable_iff {token : Token} {fault : Numeral.Fault} (h : token.WellSpelled) :
    Unreadable token fault ↔ ∃ count, fault = .tooLong count ∧ token.Overlong count := by
  constructor
  · rintro ⟨hk, lexeme, hl, hr⟩
    rw [← @String.ofList_toList lexeme, Numeral.read_digits (h.isNumeral hk hl)] at hr
    split at hr
    · next hlt =>
      cases hr
      exact ⟨_, rfl, hk, by rw [hl, Option.map_some, String.length_toList], hlt⟩
    · cases hr
  · rintro ⟨count, rfl, hk, hc, hlt⟩
    obtain ⟨lexeme, hl, rfl⟩ := Option.map_eq_some_iff.1 hc
    refine ⟨hk, lexeme, hl, ?_⟩
    rw [← @String.ofList_toList lexeme, Numeral.read_digits (h.isNumeral hk hl)]
    rw [String.length_toList, String.ofList_toList]
    exact if_pos hlt

/-- There is a number with so many digits, more than are read, and some program begins with the
kinds of the tokens in front of it and a number. -/
inductive MeetsOverlong (source : String) (count : Nat) : Prop
  | mk {tokens p rest : List Token} {token : Token} (scanned : scan source = .ok tokens)
      (split : word tokens = p ++ token :: rest) (overlong : token.Overlong count)
      (viable : Viable (kinds p ++ [.number]))

/-! ### Texts with and without an analysis -/

variable {source : String} {file : Option String}

theorem regular_of_analysis {a : Analysis} (h : (read source).analysis file = .ok a) :
    a.Regular source file := by
  cases hs : scan source with
  | error fault =>
    rw [read_of_scan_error hs] at h
    cases h
    exact .unscanned hs (Diagnostic.isError_ofLexical file _)
  | ok tokens =>
    obtain ⟨c, -, -, hr⟩ := read_of_scan_ok hs
    rw [hr] at h
    cases hx : (Derivation.parseStandard c).result with
    | ok t =>
      rw [hx] at h
      cases h
      exact .parsed t hs
    | error fault =>
      rw [hx] at h
      cases fault with
      | refused fault =>
        cases h
        exact .refused hs (Diagnostic.isError_ofSyntax file _)
      | numeral fault => cases h
      | state fault => cases h

/-- Only an overlong number keeps a text from being analysed. -/
theorem meetsOverlong_of_analysis {fault : ParseFault}
    (h : (read source).analysis file = .error fault) :
    ∃ count, fault = .numeral (.tooLong count) ∧ MeetsOverlong source count := by
  cases hs : scan source with
  | error fault =>
    rw [read_of_scan_error hs] at h
    cases h
  | ok tokens =>
    obtain ⟨c, -, ha, hr⟩ := read_of_scan_ok hs
    obtain ⟨-, -, hspelled⟩ := exists_word_of_scan hs
    rw [hr] at h
    cases hx : (Derivation.parseStandard c).result with
    | ok t =>
      rw [hx] at h
      cases h
    | error fault =>
      rw [hx] at h
      cases fault with
      | refused fault => cases h
      | numeral fault =>
        cases h
        obtain ⟨p, token, rest, hsplit, hu, hv⟩ := Derivation.exists_viable_of_numeral hx
        rw [ha] at hsplit
        have hm : token ∈ word tokens := by simp [hsplit]
        obtain ⟨count, rfl, hlong⟩ := (unreadable_iff (hspelled token hm)).1 hu
        exact ⟨count, rfl, .mk hs hsplit hlong hv⟩
      | state fault =>
        have hp := Derivation.parseStandard_sound c
        rw [hx] at hp
        exact hp.elim

theorem MeetsOverlong.exists_fault {count : Nat} (h : MeetsOverlong source count)
    (file : Option String) : ∃ fault, (read source).analysis file = .error fault := by
  obtain ⟨hs, hsplit, hlong, hv⟩ := h
  obtain ⟨c, -, ha, hr⟩ := read_of_scan_ok hs
  obtain ⟨-, -, hspelled⟩ := exists_word_of_scan hs
  have hu := (unreadable_iff (hspelled _ (by simp [hsplit]))).2 ⟨count, rfl, hlong⟩
  obtain ⟨fault, hf⟩ := Derivation.exists_numeral_of_viable (ha.trans hsplit) hu hv
  rw [hr, hf]
  exact ⟨_, rfl⟩

/-- A text has a regular analysis, unless the parse gets to a number with too many digits. Then it
has none. -/
theorem analysis_exact (source : String) (file : Option String) :
    match (read source).analysis file with
    | .ok a => a.Regular source file ∧ ∀ count, ¬ MeetsOverlong source count
    | .error fault => ∃ count, fault = .numeral (.tooLong count) ∧ MeetsOverlong source count := by
  cases h : (read source).analysis file with
  | ok a =>
    refine ⟨regular_of_analysis h, fun count hm => ?_⟩
    obtain ⟨fault, hf⟩ := hm.exists_fault file
    cases h.symm.trans hf
  | error fault => exact meetsOverlong_of_analysis h

theorem scan_digits {digits : List Char} (h : IsNumeral digits) :
    scan (String.ofList digits) = .ok [Token.number (String.ofList digits) .start,
      Token.endOfInput (Position.start.along digits)] := by
  have hr := Scan.Reads.number h detached_nil (.nil (Position.start.along digits))
  rw [List.append_nil] at hr
  rw [Scan.scan_eq_iff, String.toList_ofList]
  exact hr

/-- A number is met at the start of a text. -/
theorem meetsOverlong_of_digits {digits : List Char} (h : IsNumeral digits)
    (hl : Numeral.digitLimit < digits.length) :
    MeetsOverlong (String.ofList digits) digits.length := by
  have hlong : (Token.number (String.ofList digits) .start).Overlong digits.length :=
    ⟨rfl, congrArg some String.length_ofList, hl⟩
  have hv : Viable (kinds [] ++ [.number]) :=
    ⟨[], [.sample .number], _, rfl, ⟨.number (.sample .number) rfl rfl rfl⟩⟩
  exact @MeetsOverlong.mk _ _ _ [] [] _ (scan_digits h) rfl hlong hv

/-- One digit more than is read. -/
def tooManyZeros : List Char := List.replicate (Numeral.digitLimit + 1) '0'

/-- Zeros are a number, and yet nothing is told of them. -/
theorem no_analysis_of_tooManyZeros :
    IsNumeral tooManyZeros ∧
      ∃ fault, (read (String.ofList tooManyZeros)).analysis none = .error fault := by
  have hn : IsNumeral tooManyZeros :=
    ⟨List.cons_ne_nil _ _, fun c hc => by rw [List.eq_of_mem_replicate hc]; rfl⟩
  have hl : Numeral.digitLimit < tooManyZeros.length := by
    rw [tooManyZeros, List.length_replicate]
    exact Nat.lt_succ_self _
  exact ⟨hn, (meetsOverlong_of_digits hn hl).exists_fault none⟩

/-! ### Texts with short runs of digits -/

/-- No run of digits in the text is longer than the numbers that are read. -/
def ShortRuns (source : String) : Prop :=
  ∀ run, run <:+: source.toList → (∀ c ∈ run, c.isDigit = true) → run.length ≤ Numeral.digitLimit

theorem shortRuns_of_length (h : source.length ≤ Numeral.digitLimit) : ShortRuns source := by
  intro run hr _
  have hl := hr.length_le
  rw [String.length_toList] at hl
  exact Nat.le_trans hl h

theorem Tiling.isInfix_text {front cs : List Char} {tokens : List Token} {t : Token}
    (h : Tiling front cs tokens) (ht : t ∈ tokens) : t.text.toList <:+: cs := by
  induction h with
  | last =>
    obtain rfl := List.mem_singleton.1 ht
    exact List.nil_infix
  | @token front gap cs u tokens _ _ _ _ _ ih =>
    rcases List.mem_cons.1 ht with rfl | ht
    · exact ⟨gap, cs, rfl⟩
    · exact (ih ht).trans (List.suffix_append _ _).isInfix

/-- No number of the text is overlong. -/
theorem ShortRuns.not_overlong {tokens : List Token} {t : Token} {count : Nat}
    (h : ShortRuns source) (hs : scan source = .ok tokens) (ht : t ∈ word tokens) :
    ¬ t.Overlong count := by
  intro ho
  obtain ⟨-, -, hspelled⟩ := exists_word_of_scan hs
  have htiles : Tiling [] source.toList tokens := (Scan.scan_eq_iff.1 hs).tiling rfl rfl
  have hinfix := htiles.isInfix_text ((List.takeWhile_prefix _).subset ht)
  obtain ⟨lexeme, hl, rfl⟩ := Option.map_eq_some_iff.1 ho.length
  have hd := (hspelled t ht).isNumeral ho.kind hl
  rw [← @String.ofList_toList lexeme] at hl
  rw [Token.toList_text_of_lexeme hl] at hinfix
  have hle := h _ hinfix hd.isDigit
  rw [String.length_toList] at hle
  exact absurd ho.lt (Nat.not_lt.2 hle)

theorem ShortRuns.exists_analysis (h : ShortRuns source) (file : Option String) :
    ∃ a, (read source).analysis file = .ok a := by
  cases ha : (read source).analysis file with
  | ok a => exact ⟨a, rfl⟩
  | error fault =>
    obtain ⟨count, -, hm⟩ := meetsOverlong_of_analysis ha
    cases hm with
    | @mk tokens p rest token scanned split overlong =>
      have ht : token ∈ word tokens := by simp [split]
      exact absurd overlong (h.not_overlong scanned ht)

end LispReader
