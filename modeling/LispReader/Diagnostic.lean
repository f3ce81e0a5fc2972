import LispReader.Json.Value
import LispReader.Report
import LispReader.Span

/-! Diagnostics: what a user is told about an input. -/
namespace LispReader

structure Diagnostic where
  message : String
  code : Option String := none
  /-- The part of the work in which the problem was found. -/
  phase : Option String := none
  severity : String := "error"
  span : Span := {}
  notes : List String := []
  deriving DecidableEq

namespace Diagnostic

/-- One line with the place and the message, and one for each note. -/
def text (d : Diagnostic) : String :=
  "\n".intercalate
    (s!"{d.span.label}: {d.severity}: {d.message}" :: d.notes.map fun note => s!"  note: {note}")

def json (d : Diagnostic) : Json :=
  .object
    [("phase", .ofText? d.phase), ("code", .ofText? d.code), ("message", .text d.message),
      ("severity", .text d.severity), ("file", .ofText? d.span.file),
      ("line", .ofInteger? d.span.line), ("column", .ofInteger? d.span.column),
      ("end_line", .ofInteger? d.span.endLine), ("end_column", .ofInteger? d.span.endColumn),
      ("notes", .array (d.notes.map .text))]

/-- A lexical report points at a character; its hint, unless empty, becomes a note. -/
def ofLexical (file : Option String) (r : LexicalReport) : Diagnostic where
  message := r.message
  code := some r.code
  phase := some "lexer"
  span := .ofStart file r.line r.column
  notes := (r.hint.filter (· ≠ "")).toList

/-- A syntax report spans its token if there is one. -/
def ofSyntax (file : Option String) (r : SyntaxReport) : Diagnostic where
  message := r.message
  code := some r.code
  phase := some "parser"
  span :=
    match r.token with
    | some t => .ofToken file t
    | none => .ofStart file r.line r.column

end Diagnostic

end LispReader
