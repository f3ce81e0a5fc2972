import LispReader.Proofs.Messages
import LispReader.Proofs.Payload

/-! Reports under all options.

A text is reported by its tree or by one diagnostic, as text or as a line of JSON, with its tokens
and a trace if they are asked for. How a text is reported under some options says much about the
report under others: the exit code does not depend on them, the trace does nothing but stand in
front of the error channel, and the tree has the same text wherever it is written.
`answerText_coherent` says this of every text whose runs of digits are short, for every name without
a line feed. What the lines are is said here once more, line by line and apart from the functions
that write them. -/
namespace LispReader.CommandLine
open Text (Only IsInline)

variable {name source : String} {o : Options}

/-! ### Lines -/

/-- Lines, each with its line feed. -/
def written : List String → String
  | [] => ""
  | line :: rest => line ++ "\n" ++ written rest

theorem lines_eq_written (lines : List String) : Output.lines lines = written lines := by
  induction lines with
  | nil => rfl
  | cons line rest ih =>
    rw [written, ← ih]
    cases rest with
    | nil =>
      rw [Output.lines, List.map_cons, List.map_nil, String.intercalate_singleton]
      exact String.append_empty.symm
    | cons next rest =>
      rw [Output.lines, List.map_cons, List.map_cons, String.intercalate_cons_cons,
        String.append_empty]
      rfl

/-- Lines with line feeds between them are written as so many lines. -/
theorem written_intercalate (line : String) (rest : List String) :
    written ["\n".intercalate (line :: rest)] = written (line :: rest) := by
  induction rest generalizing line with
  | nil => rw [String.intercalate_singleton]
  | cons next rest ih =>
    have hn := ih next
    rw [written, written, String.append_empty] at hn
    rw [String.intercalate_cons_cons, written, written, written, ← hn]
    simp only [String.append_assoc, String.append_empty]

/-- A token as it is listed: its kind, its lexeme if it has one, and its place. -/
def tokenLine (t : Token) : String :=
  "Token(" ++ t.kind.name ++ ", " ++ t.lexeme.elim "" (fun lexeme => "'" ++ lexeme ++ "', ") ++
    toString t.position.line ++ ":" ++ toString t.position.column ++ ")"

/-- One line for each token but the end of input. -/
def tokenLines (tokens : List Token) : List String :=
  (tokens.filter fun t => t.kind ≠ .endOfInput).map tokenLine

/-- One line for each event of the derivation. -/
def traceLines (source : String) : List String :=
  (read source).events.map fun e => "trace: " ++ e.text

/-- One line with the place and the message, and one for each note. -/
def diagnosticLines (name : String) (line column : Nat) (d : Diagnostic) : List String :=
  ((if name = "" then "<input>" else name) ++ ":" ++ toString line ++ ":" ++ toString column ++
    ": error: " ++ d.message) :: d.notes.map fun note => "  note: " ++ note

theorem listing_eq_tokenLine (t : Token) : t.listing = tokenLine t := by
  have htext (s : String) : toString s = s := rfl
  have hquote : ", '" = ", " ++ "'" := rfl
  rw [Token.listing, Position.text, tokenLine]
  cases t.lexeme <;>
    simp only [htext, Option.elim_none, Option.elim_some, String.append_empty, hquote,
      String.append_assoc]

theorem listings_eq_tokenLines (tokens : List Token) : Token.listings tokens = tokenLines tokens :=
  List.map_congr_left fun t _ => listing_eq_tokenLine t

theorem traceText_eq_written (events : List Derivation.Event) :
    traceText events = written (events.map fun e => "trace: " ++ e.text) := by
  rw [traceText, lines_eq_written]
  rfl

/-! ### Analyses -/

/-- The diagnostic is an error on the file, and its place is known. -/
structure IsErrorAt (d : Diagnostic) (name : String) (line column : Nat) : Prop where
  severity : d.severity = "error"
  file : d.span.file = some name
  line : d.span.line = some (line : Int)
  column : d.span.column = some (column : Int)

theorem isErrorAt_ofLexical (name : String) (fault : LexicalFault) :
    IsErrorAt (.ofLexical (some name) fault.report) name fault.position.line
      fault.position.column :=
  ⟨rfl, rfl, rfl, rfl⟩

theorem isErrorAt_ofSyntax (name : String) (fault : SyntaxFault) :
    IsErrorAt (.ofSyntax (some name) fault.report) name fault.token.position.line
      fault.token.position.column :=
  ⟨rfl, rfl, rfl, rfl⟩

theorem IsErrorAt.lines_eq {d : Diagnostic} {line column : Nat} (h : IsErrorAt d name line column) :
    d.lines = diagnosticLines name line column d := by
  have hfile : ((some name).filter (· ≠ "")).getD "<input>" =
      if name = "" then "<input>" else name := by
    by_cases hn : name = "" <;> simp [Option.filter, hn]
  have hlabel : d.span.label = (if name = "" then "<input>" else name) ++ ":" ++ toString line ++
      ":" ++ toString column := by
    rw [Span.label, h.file, h.line, h.column, hfile]
    rfl
  have hcons : d.lines = (d.span.label ++ ": " ++ d.severity ++ ": " ++ d.message) ::
      d.notes.map fun note => "  note: " ++ note := rfl
  have herror : ": " ++ "error" ++ ": " = ": error: " := rfl
  rw [hcons, hlabel, h.severity, diagnosticLines, ← herror]
  simp only [String.append_assoc]

/-- What an analysis tells: the tree of a text that is read, or one diagnostic, whose lines are
lines, of a text that is not. -/
inductive Told (name source : String) : Analysis → Prop
  | tree {tokens : List Token} {t : ParseTree} (scanned : scan source = .ok tokens)
      (result : (read source).result = .ok t) : Told name source { tree := some t, tokens }
  | diagnostic {tokens : List Token} {d : Diagnostic} {line column : Nat}
      (unread : ∀ t, (read source).result ≠ .ok t) (place : IsErrorAt d name line column)
      (inline : ∀ line ∈ d.lines, Only IsInline line) :
      Told name source { tokens, diagnostics := [d] }

theorem told_of_analysis (hn : Only IsInline name) {a : Analysis}
    (ha : (read source).analysis (some name) = .ok a) : Told name source a := by
  cases hs : scan source with
  | error fault =>
    have hr := read_of_scan_error hs
    rw [hr] at ha
    cases ha
    refine .diagnostic (fun t ht => ?_) (isErrorAt_ofLexical name fault)
      (inline_lines_ofLexical hn hs)
    rw [hr] at ht
    cases ht
  | ok tokens =>
    obtain ⟨c, hc, -, hr⟩ := read_of_scan_ok hs
    cases hx : (Derivation.parseStandard c).result with
    | ok t =>
      rw [hx] at hr
      rw [hr] at ha
      cases ha
      exact .tree hs (by rw [hr]; rfl)
    | error fault =>
      rw [hx] at hr
      rw [hr] at ha
      cases fault with
      | refused fault =>
        cases ha
        refine .diagnostic (fun t ht => ?_) (isErrorAt_ofSyntax name fault)
          (inline_lines_ofSyntax hn hs hc hx)
        rw [hr] at ht
        cases ht
      | numeral fault => cases ha
      | state fault => cases ha

/-! ### The line of JSON -/

/-- A line of JSON with a given tree, and with `back` from the value of the diagnostics on. -/
def jsonLine (exit : Nat) (tree back : String) : String :=
  "\x7b\"exit_code\": " ++ toString exit ++ ", \"tree\": " ++ tree ++ ", \"diagnostics\": " ++
    back ++ "\x7d"

theorem member_eq {name quoted : String} (h : Json.string name ++ ": " = quoted)
    (value : String) : member name value = quoted ++ value := by
  rw [← h]
  rfl

/-- The tree stands in the line behind the code and in front of the diagnostics. -/
theorem payload_eq (a : Analysis) (exit : Nat) (withTokens : Bool) :
    ∃ back, payload a exit withTokens =
      jsonLine exit (a.tree.elim "null" (Tree.render .compact)) back := by
  have hmembers (code tree diagnostics : String) (more : List String) :
      ", ".intercalate ([code, tree, diagnostics] ++ more) =
        code ++ ", " ++ tree ++ ", " ++ diagnostics ++ String.join (more.map (", " ++ ·)) := by
    rw [List.cons_append, List.cons_append, String.intercalate_cons_cons, List.cons_append,
      String.intercalate_cons_cons, List.nil_append, Tree.intercalate_cons]
    simp only [String.append_assoc]
  rw [payload, hmembers]
  generalize (if withTokens then [member "tokens" (Json.write .spaced
    (.array (a.tokens.map tokenJson)))] else []) = more
  generalize Json.write .spaced (.array (a.diagnostics.map Diagnostic.json)) = diagnostics
  refine ⟨diagnostics ++ String.join (more.map (", " ++ ·)), ?_⟩
  have hcode : Json.string "exit_code" ++ ": " = "\"exit_code\": " := by decide
  have htree : Json.string "tree" ++ ": " = "\"tree\": " := by decide
  have hdiagnostics : Json.string "diagnostics" ++ ": " = "\"diagnostics\": " := by decide
  have hexit : Json.write .spaced (.integer exit) = toString exit := rfl
  rw [member_eq hcode, member_eq htree, member_eq hdiagnostics, hexit]
  show _ = "\x7b" ++ "\"exit_code\": " ++ toString exit ++ (", " ++ "\"tree\": ") ++
    a.tree.elim "null" (Tree.render .compact) ++ (", " ++ "\"diagnostics\": ") ++
      (diagnostics ++ String.join (more.map (", " ++ ·))) ++ "\x7d"
  simp only [String.append_assoc]

/-! ### Answers -/

/-- The lines of the trace, if they are asked for. -/
def traced (o : Options) (source : String) : List String :=
  if o.trace then traceLines source else []

/-- An answer with lines in front of what is on its error channel. -/
def Answer.behind (a : Answer) (lines : List String) : Answer :=
  ⟨⟨a.output.out, written lines ++ a.output.err⟩, a.exit⟩

theorem Answer.behind_nil (a : Answer) : a.behind [] = a := by
  rw [behind, written, String.empty_append]

theorem Answer.after_toErr_written (a : Answer) (lines : List String) :
    a.after (.toErr (written lines)) = a.behind lines := by
  show (⟨⟨"" ++ a.output.out, written lines ++ a.output.err⟩, a.exit⟩ : Answer) = _
  rw [String.empty_append]
  rfl

theorem answerText_of_analysis {a : Analysis}
    (ha : (read source).analysis (some name) = .ok a) :
    answerText o name source = (report o a).behind (traced o source) := by
  rw [answerText, ha, traced]
  cases o.trace with
  | false => exact (report o a).behind_nil.symm
  | true =>
    show (report o a).after (.toErr (traceText (read source).events)) = _
    rw [traceText_eq_written, Answer.after_toErr_written]
    rfl

/-! ### Reports -/

/-- The tokens, one on each line, and an empty line, if they are asked for. -/
def listing (o : Options) (tokens : List Token) : String :=
  if o.tokens then written (tokenLines tokens) ++ "\n" else ""

def style (o : Options) : Tree.Style := if o.compact then .compact else .indented

theorem report_tree (o : Options) (t : ParseTree) (tokens : List Token) :
    report o { tree := some t, tokens } =
      ⟨.toOut ((if o.json then payload { tree := some t, tokens } 0 o.tokens
        else listing o tokens ++ t.render (style o)) ++ "\n"), .ok 0⟩ := by
  rw [report, listing, ← listings_eq_tokenLines, ← lines_eq_written]
  cases o.json <;> rfl

theorem report_diagnostic (o : Options) (d : Diagnostic) (tokens : List Token) :
    report o { tokens, diagnostics := [d] } =
      ⟨if o.json then .toOut (payload { tokens, diagnostics := [d] } 1 o.tokens ++ "\n")
        else .toErr (written d.lines), .ok 1⟩ := by
  have hl : Output.lines [d.text] = written d.lines := by
    rw [lines_eq_written, d.text_eq]
    exact written_intercalate _ _
  rw [← hl, report]
  cases o.json <;> rfl

/-! ### All options -/

/-- Whether the text is read, as an exit code. -/
def exitCode (source : String) : Nat := if (read source).result.isOk then 0 else 1

/-- How the answers to a text under some options go with the text and with the answers under other
options. -/
structure Coherent (name source : String) (o : Options) : Prop where
  /-- There always is an exit code, and no option has a part in it. -/
  exit : (answerText o name source).exit = .ok (exitCode source)
  /-- A trace stands on the error channel in front of what is there without it. -/
  trace : answerText { o with trace := true } name source =
    (answerText { o with trace := false } name source).behind (traceLines source)
  /-- It has one line for each event. -/
  events : ∀ line ∈ traceLines source, Only IsInline line
  /-- A text that is read is told by its tree, behind a listing of its tokens, one line for each but
  the end of input, and an empty line. -/
  tree : o.json = false → ∀ t, (read source).result = .ok t →
    ∃ tokens, scan source = .ok tokens ∧
      (∀ line ∈ tokenLines tokens, Only IsInline line) ∧
      (answerText o name source).output =
        ⟨listing o tokens ++ t.render (style o) ++ "\n", written (traced o source)⟩
  /-- Any other text is told by the lines of one diagnostic. -/
  diagnostic : o.json = false → (∀ t, (read source).result ≠ .ok t) →
    ∃ a d line column, (read source).analysis (some name) = .ok a ∧ a.diagnostics = [d] ∧
      IsErrorAt d name line column ∧
      (∀ l ∈ diagnosticLines name line column d, Only IsInline l) ∧
      (answerText o name source).output =
        ⟨"", written (traced o source) ++ written (diagnosticLines name line column d)⟩
  /-- In a line of JSON, the tree has the text that is written of it alone without white space. -/
  json : o.json = true →
    ∃ tree back, (answerText o name source).output =
        ⟨jsonLine (exitCode source) tree back ++ "\n", written (traced o source)⟩ ∧
      (∀ t, (read source).result = .ok t →
        (answerText { compact := true } name source).output = ⟨tree ++ "\n", ""⟩) ∧
      ((∀ t, (read source).result ≠ .ok t) → tree = "null")

theorem inline_traceLines (source : String) : ∀ line ∈ traceLines source, Only IsInline line := by
  intro line hl
  obtain ⟨e, he, rfl⟩ := List.mem_map.1 hl
  exact Text.only_append.2 ⟨by decide, inline_events source e he⟩

theorem answerText_trace {a : Analysis} (ha : (read source).analysis (some name) = .ok a) :
    answerText { o with trace := true } name source =
      (answerText { o with trace := false } name source).behind (traceLines source) := by
  rw [answerText_of_analysis ha, answerText_of_analysis ha]
  show (report o a).behind _ = ((report o a).behind []).behind _
  rw [Answer.behind_nil]
  rfl

theorem coherent_of_tree {t : ParseTree} {tokens : List Token} (hs : scan source = .ok tokens)
    (ht : (read source).result = .ok t)
    (ha : (read source).analysis (some name) = .ok { tree := some t, tokens }) :
    Coherent name source o where
  exit := by
    rw [answerText_of_analysis ha, report_tree, exitCode, ht]
    rfl
  trace := answerText_trace ha
  events := inline_traceLines source
  tree hj t' ht' := by
    cases ht.symm.trans ht'
    refine ⟨tokens, hs, fun line hl => ?_, ?_⟩
    · obtain ⟨token, hm, rfl⟩ := List.mem_map.1 hl
      rw [← listing_eq_tokenLine]
      exact Token.inline_listing (Token.inline_of_scan hs (List.mem_of_mem_filter hm))
    · rw [answerText_of_analysis ha, report_tree, hj]
      exact congrArg (Output.mk _) String.append_empty
  diagnostic _ hu := absurd ht (hu t)
  json hj := by
    obtain ⟨back, hb⟩ := payload_eq { tree := some t, tokens } 0 o.tokens
    refine ⟨t.render .compact, back, ?_, fun t' ht' => ?_, fun hu => absurd ht (hu t)⟩
    · rw [answerText_of_analysis ha, exitCode, ht, report_tree, hj, if_pos rfl, hb]
      exact congrArg (Output.mk _) String.append_empty
    · cases ht.symm.trans ht'
      rw [answerText_of_analysis ha, report_tree]
      exact congrArg (Output.mk · "") (congrArg (· ++ "\n") String.empty_append)

theorem coherent_of_diagnostic {d : Diagnostic} {tokens : List Token} {line column : Nat}
    (hu : ∀ t, (read source).result ≠ .ok t) (hd : IsErrorAt d name line column)
    (hl : ∀ line ∈ d.lines, Only IsInline line)
    (ha : (read source).analysis (some name) = .ok { tokens, diagnostics := [d] }) :
    Coherent name source o := by
  have hcode : exitCode source = 1 := by
    rw [exitCode]
    cases hr : (read source).result with
    | ok t => exact absurd hr (hu t)
    | error failure => rfl
  exact {
    exit := by
      rw [answerText_of_analysis ha, report_diagnostic, hcode]
      rfl
    trace := answerText_trace ha
    events := inline_traceLines source
    tree := fun _ t ht => absurd ht (hu t)
    diagnostic := fun hj _ => by
      refine ⟨_, d, line, column, ha, rfl, hd, hd.lines_eq ▸ hl, ?_⟩
      rw [answerText_of_analysis ha, report_diagnostic, hj, ← hd.lines_eq]
      rfl
    json := fun hj => by
      obtain ⟨back, hb⟩ := payload_eq { tokens, diagnostics := [d] } 1 o.tokens
      refine ⟨"null", back, ?_, fun t ht => absurd ht (hu t), fun _ => rfl⟩
      rw [answerText_of_analysis ha, hcode, report_diagnostic, hj, if_pos rfl, hb]
      exact congrArg (Output.mk _) String.append_empty }

/-- Whatever the options, a text with short runs of digits, known by a name of one line, is reported
in the way in which it is reported under the others. -/
theorem answerText_coherent (hs : ShortRuns source) (hn : Only IsInline name) (o : Options) :
    Coherent name source o := by
  obtain ⟨a, ha⟩ := hs.exists_analysis (some name)
  cases told_of_analysis hn ha with
  | tree scanned result => exact coherent_of_tree scanned result ha
  | diagnostic unread place inline => exact coherent_of_diagnostic unread place inline ha

/-- An application that is not closed, and a hyphen on a second line. -/
def unclosed : String := "(f\n-"

theorem answerText_coherent_unclosed : ShortRuns unclosed ∧ Only IsInline "a.lisp" ∧
    Coherent "a.lisp" unclosed { tokens := true, json := true, trace := true } := by
  have hs : ShortRuns unclosed := shortRuns_of_length (by decide)
  have hn : Only IsInline "a.lisp" := by decide
  exact ⟨hs, hn, answerText_coherent hs hn _⟩

end LispReader.CommandLine
