import LispReader.Proofs.Agreement
import LispReader.Proofs.Characters
import LispReader.Proofs.Spans

/-! Messages stay within a line.

A message is put together from fixed texts, numerals, names of kinds and the text or character that
it tells of. None of these has a line feed: a lexeme has none, and no line feed is a lexical fault.
So the diagnostic of a text takes one line, and each note of it another one, provided the name of
the file has no line feed either: `inline_lines_ofLexical`, `inline_lines_ofSyntax`. -/
namespace LispReader
open Text (Only IsInline only_append only_intercalate)

/-! ### Tokens -/

@[simp] theorem Kind.inline_name (k : Kind) : Only IsInline k.name := by cases k <;> decide

@[simp] theorem Kind.inline_describe (k : Kind) : Only IsInline k.describe := by cases k <;> decide

namespace Token

/-- The token has no lexeme, or one that stays within a line. -/
def Inline (t : Token) : Prop := ∀ lexeme, t.lexeme = some lexeme → Only IsInline lexeme

variable {t : Token}

theorem WellSpelled.inline (h : t.WellSpelled) : t.Inline := by
  intro lexeme hl c hc he
  have ht : t.text = lexeme := by rw [text, hl, Option.getD_some]
  rw [← ht, he] at hc
  exact h.not_mem_text hc

theorem inline_of_scan {source : String} {tokens : List Token} (h : scan source = .ok tokens)
    (ht : t ∈ tokens) : t.Inline := by
  obtain ⟨p, hp, hs⟩ := exists_word_of_scan h
  rw [hp] at ht
  rcases List.mem_append.1 ht with hw | he
  · exact (hs t hw).inline
  · obtain rfl := List.mem_singleton.1 he
    exact nofun

theorem inline_describe (h : t.Inline) : Only IsInline t.describe := by
  rw [describe]
  split
  · next lexeme hl =>
    have hx := h lexeme hl
    simp +decide [hx]
  · exact t.kind.inline_describe

theorem inline_listing (h : t.Inline) : Only IsInline t.listing := by
  rw [listing, Position.text]
  split
  · next lexeme hl =>
    have hx := h lexeme hl
    simp +decide [hx]
  · simp +decide

end Token

/-! ### Lexical faults -/

theorem Position.inline_place (p : Position) :
    Only IsInline s!"at line {p.line}, column {p.column}" := by
  simp +decide

namespace LexicalFault

variable {f : LexicalFault}

theorem inline_place (f : LexicalFault) : Only IsInline f.place := f.position.inline_place

/-- The message has no line feed unless it tells of one. -/
theorem inline_message (h : f.char ≠ '\n') : Only IsInline f.message := by
  have hp := f.inline_place
  have hc : IsInline f.char := h
  rw [message]
  split <;> simp only [only_append, Text.only_toString, Text.only_toString_char]
  · exact ⟨⟨⟨by decide, hp⟩, by decide⟩, by decide⟩
  · exact ⟨⟨⟨by decide, hc⟩, by decide⟩, hp⟩
  · exact ⟨⟨⟨⟨⟨by decide, hc⟩, by decide⟩, Text.inline_codePoint f.char⟩, by decide⟩, hp⟩

theorem inline_hint (f : LexicalFault) : ∀ hint ∈ f.hint, Only IsInline hint := by
  rw [hint]
  split
  · intro hint hh
    cases hh
    decide
  · exact nofun

end LexicalFault

/-! ### Syntax faults -/

theorem inline_oneOf (kinds : List Kind) : Only IsInline (oneOf kinds) := by
  match kinds with
  | [] => decide
  | [kind] => exact kind.inline_describe
  | first :: second :: rest =>
    have hs : Only IsInline ", " := by decide
    have hl : Only IsInline ((first :: second :: rest).getLast?.elim "" Kind.describe) := by
      rw [List.getLast?_eq_some_getLast (List.cons_ne_nil _ _)]
      exact Kind.inline_describe _
    rw [oneOf, only_append, only_append]
    refine ⟨⟨only_intercalate hs fun text ht => ?_, by decide⟩, hl⟩
    obtain ⟨kind, -, rfl⟩ := List.mem_map.1 ht
    exact kind.inline_describe

theorem SyntaxFault.message_mismatch (expected : Kind) (found : Token) :
    message (.mismatch expected found) =
      "expected " ++ expected.describe ++ " but found " ++ found.describe ++ " " ++
        s!"at line {found.position.line}, column {found.position.column}" := rfl

theorem SyntaxFault.inline_message {f : SyntaxFault} (ht : f.token.Inline)
    (hc : ∀ context ∈ f.context?, Only IsInline context) : Only IsInline f.message := by
  have hplace := f.token.position.inline_place
  have hfound : Only IsInline f.token.describe := Token.inline_describe ht
  simp only [only_append] at hplace
  cases f with
  | mismatch expected found =>
    simp only [message_mismatch, only_append]
    exact ⟨⟨⟨⟨⟨by decide, expected.inline_describe⟩, by decide⟩, hfound⟩, by decide⟩, hplace⟩
  | unexpected found expected context =>
    have hcontext := hc context rfl
    have hkinds := inline_oneOf expected
    simp only [message_unexpected, only_append]
    exact ⟨⟨⟨⟨⟨⟨⟨by decide, hfound⟩, by decide⟩, hplace⟩, by decide⟩, hcontext⟩, by decide⟩, hkinds⟩

theorem Need.inline_context (need : Need) (token : Token) :
    ∀ context ∈ (need.fault token).context?, Only IsInline context := by
  intro context h
  cases need with
  | identifier | closing | item | endOfInput => cases h
  | program | expression | body =>
    cases h
    decide

/-- What is refused is refused for what is needed at its place. -/
theorem Derivation.exists_need_of_refused {c : Cursor} {fault : SyntaxFault}
    (h : (parseStandard c).result = .error (.refused fault)) :
    ∃ need : Need, fault = need.fault fault.token := by
  have hs := parseStandard_sound c
  rw [h] at hs
  obtain ⟨p, need, -, -, rfl, -⟩ := hs
  exact ⟨need, by rw [Need.token_fault]⟩

/-! ### Traces -/

theorem Text.inline_alignLeft {width : Nat} {s : String} (h : Only IsInline s) :
    Only IsInline (alignLeft width s) := by
  rw [alignLeft, only_append, only_ofList]
  refine ⟨h, fun c hc => ?_⟩
  rw [List.eq_of_mem_replicate hc]
  decide

namespace Derivation
open Descent

theorem Move.inline_name (m : Move) : Only IsInline m.name := by cases m <;> decide

theorem Event.inline_text {e : Event} (hs : Only IsInline e.symbol.text)
    (ht : e.lookahead.Inline) : Only IsInline e.text := by
  have hm : Only IsInline (Text.alignLeft 8 e.move.name) := Text.inline_alignLeft e.move.inline_name
  have hn : Only IsInline (e.production.elim "" fun id => s!" [{Numeral.write id}]") := by
    cases e.production with
    | none => exact Text.only_empty
    | some id => simp +decide
  have hd := Token.inline_describe ht
  rw [text]
  simp +decide [hm, hs, hn, hd]

variable {table : Table} {s : State} {o : Outcome}

/-- Symbols still to be processed and events so far are told within a line each. -/
structure Inline (s : State) : Prop where
  control : ∀ symbol ∈ s.control.items, Only IsInline symbol.text
  trace : ∀ e ∈ s.trace, Only IsInline e.text

theorem Inline.of_top {symbol : Symbol} {control : List Symbol} (h : Inline s)
    (top : s.control.items = symbol :: control) :
    Only IsInline symbol.text ∧ ∀ symbol ∈ control, Only IsInline symbol.text :=
  List.forall_mem_cons.1 (top ▸ h.control)

/-- The symbol on top is told of in front of the current token. -/
theorem Inline.recorded {symbol : Symbol} {control : List Symbol} (h : Inline s)
    (top : s.control.items = symbol :: control) (hc : s.cursor.current.Inline) {e : Event}
    (symbol_eq : e.symbol = symbol) (lookahead_eq : e.lookahead = s.cursor.current) :
    ∀ e' ∈ e :: s.trace, Only IsInline e'.text := by
  subst symbol_eq
  exact List.forall_mem_cons.2 ⟨Event.inline_text (h.of_top top).1 (lookahead_eq ▸ hc), h.trace⟩

/-- The symbols of all right-hand sides are told within a line each. -/
def InlineRules (table : Table) : Prop :=
  ∀ p ∈ table.rules, ∀ symbol ∈ p.rhs, Only IsInline symbol.text

theorem inlineRules_standard : InlineRules Grammar.standard := by
  unfold InlineRules
  decide

/-- A step keeps to single lines, or the derivation stops and has kept to them. -/
def StaysInline : State ⊕ Outcome → Prop
  | .inl s => Inline s
  | .inr o => ∀ e ∈ o.trace, Only IsInline e.text

theorem inline_step (hr : InlineRules table) (hc : s.cursor.current.Inline) (h : Inline s) :
    StaysInline (s.step table) := by
  have hs := stepped table s
  generalize s.step table = r at hs
  cases hs with
  | closed | valueless | unclosed | unreadable | mismatched | failed | missed | unapplied | stray =>
    exact h.trace
  | bare top | leaf top | delegated top | applied top =>
    exact ⟨(h.of_top top).2, h.recorded top hc rfl rfl⟩
  | expanded top cell =>
    have hp := hr _ (Table.lookup_eq_some_iff.1 cell).1
    exact ⟨List.forall_mem_append.2 ⟨hp, (h.of_top top).2⟩, h.recorded top hc rfl rfl⟩

/-- If all tokens that can be reached have lexemes within a line, so has the whole trace. -/
theorem inline_of_run (hr : InlineRules table) (hc : ∀ c, Reaches s.cursor c → c.current.Inline)
    (h : Inline s) {limit : Nat} (ho : run table limit s = some o) :
    ∀ e ∈ o.trace, Only IsInline e.text := by
  induction limit generalizing s with
  | zero => cases ho
  | succ limit ih =>
    have hs := inline_step hr (hc _ (.refl _)) h
    have hreach := stepsFrom_step table s
    rw [run] at ho
    cases hx : s.step table with
    | inl s' =>
      rw [hx] at hs hreach ho
      exact ih (fun c hr' => hc c (hreach.trans hr')) hs ho
    | inr o' =>
      rw [hx] at hs ho
      cases ho
      exact hs

end Derivation

/-- The trace of a text takes one line for each event. -/
theorem inline_events (source : String) : ∀ e ∈ (read source).events, Only IsInline e.text := by
  cases hs : scan source with
  | error fault =>
    rw [read_of_scan_error hs]
    exact List.forall_mem_nil _
  | ok tokens =>
    obtain ⟨c, hc, -, hr⟩ := read_of_scan_ok hs
    obtain ⟨limit, ho⟩ := Derivation.exists_run_standard (Derivation.start c)
    have htokens : ∀ c', Reaches c c' → c'.current.Inline := fun c' h =>
      Token.inline_of_scan hs (List.mem_of_getElem? (h.getElem?_index hc))
    have hsymbols : ∀ symbol ∈ [Symbol.nonterminal .program, .terminal .endOfInput],
        Only IsInline symbol.text := by decide
    have hstart : Derivation.Inline (Derivation.start c) := ⟨hsymbols, List.forall_mem_nil _⟩
    rw [hr]
    intro e he
    exact Derivation.inline_of_run Derivation.inlineRules_standard htokens hstart ho e
      (List.mem_reverse.1 he)

/-! ### Diagnostics -/

namespace Diagnostic

/-- The line with the place and the message, and one for each note. -/
def lines (d : Diagnostic) : List String :=
  s!"{d.span.label}: {d.severity}: {d.message}" :: d.notes.map fun note => s!"  note: {note}"

theorem text_eq (d : Diagnostic) : d.text = "\n".intercalate d.lines := rfl

end Diagnostic

theorem Span.inline_label {s : Span} (h : ∀ name ∈ s.file, Only IsInline name) :
    Only IsInline s.label := by
  have hf : Only IsInline ((s.file.filter (· ≠ "")).getD "<input>") := by
    cases hx : s.file.filter (· ≠ "") with
    | none => decide
    | some name => exact h name (Option.filter_eq_some_iff.1 hx).1
  have hn (n : Option Int) : Only IsInline (n.elim "?" Numeral.write) := by
    cases n with
    | none => decide
    | some n => exact Text.inline_write n
  simp only [label, only_append, Text.only_toString]
  exact ⟨⟨⟨⟨hf, by decide⟩, hn _⟩, by decide⟩, hn _⟩

theorem Diagnostic.inline_lines {d : Diagnostic} (hl : Only IsInline d.span.label)
    (hs : Only IsInline d.severity) (hm : Only IsInline d.message)
    (hn : ∀ note ∈ d.notes, Only IsInline note) : ∀ line ∈ d.lines, Only IsInline line := by
  refine List.forall_mem_cons.2 ⟨by simp +decide [hl, hs, hm], fun line h => ?_⟩
  obtain ⟨note, hmem, rfl⟩ := List.mem_map.1 h
  have hx := hn note hmem
  simp +decide [hx]

variable {source name : String}

theorem inline_lines_ofLexical (hn : Only IsInline name) {fault : LexicalFault}
    (h : scan source = .error fault) :
    ∀ line ∈ (Diagnostic.ofLexical (some name) fault.report).lines, Only IsInline line := by
  have hc : fault.char ≠ '\n' := by
    obtain ⟨front, c, back, hs, hf, rfl⟩ := (Scan.scan_eq_iff.1 h).accounts
    rw [hs] at hf
    rw [char_faultOf]
    exact hf.ne_newline
  have hfile : ∀ file ∈ some name, Only IsInline file := fun _ hf => Option.some.inj hf ▸ hn
  have hseverity : Only IsInline "error" := by decide
  refine Diagnostic.inline_lines (Span.inline_label hfile) hseverity
    (LexicalFault.inline_message hc) fun note hnote => ?_
  exact fault.inline_hint note (Option.filter_eq_some_iff.1 (Option.mem_toList.1 hnote)).1

theorem inline_lines_ofSyntax (hn : Only IsInline name) {tokens : List Token} {c : Cursor}
    {fault : SyntaxFault} (hs : scan source = .ok tokens) (hc : Cursor.ofTokens? tokens = some c)
    (hf : (Derivation.parseStandard c).result = .error (.refused fault)) :
    ∀ line ∈ (Diagnostic.ofSyntax (some name) fault.report).lines, Only IsInline line := by
  have hcontext : ∀ context ∈ fault.context?, Only IsInline context := by
    obtain ⟨need, hneed⟩ := Derivation.exists_need_of_refused hf
    rw [hneed]
    exact need.inline_context fault.token
  have htoken := Token.inline_of_scan hs (token_mem_of_refused hc hf)
  have hfile : ∀ file ∈ some name, Only IsInline file := fun _ h => Option.some.inj h ▸ hn
  have hseverity : Only IsInline "error" := by decide
  exact Diagnostic.inline_lines (Span.inline_label hfile) hseverity
    (SyntaxFault.inline_message htoken hcontext) nofun

end LispReader
