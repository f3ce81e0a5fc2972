import LispReader.Derivation
import LispReader.Diagnostic
import LispReader.Tree.Render

/-! From a source text to its tree, or to a diagnostic.

Reading a text gives the tokens, the trace of the derivation and the result. A reader who is not
interested in kinds of faults gets an analysis: a tree, or one diagnostic and whatever tokens
there are. Only lexical and syntax faults become diagnostics; a numeral that denotes no integer
ends the analysis. -/
namespace LispReader

/-- What can end the reading of a text. -/
inductive Failure where
  | lexical (fault : LexicalFault)
  | parse (fault : ParseFault)
  deriving DecidableEq

/-- What the reading of a text leaves. The tokens are missing after a lexical fault. -/
structure Reading where
  tokens : List Token
  events : List Derivation.Event
  result : Except Failure ParseTree

/-- The reading position at the first token of a text. -/
def cursorOfScan {source : String} {tokens : List Token} (h : scan source = .ok tokens) : Cursor :=
  (Cursor.ofTokens? tokens).get <| by
    obtain ⟨p, hp⟩ := getLast?_scan h
    exact Cursor.isSome_ofTokens? hp rfl

/-- Reads a text by the standard grammar. -/
def read (source : String) : Reading :=
  match h : scan source with
  | .error fault => ⟨[], [], .error (.lexical fault)⟩
  | .ok tokens =>
    let outcome := Derivation.parseStandard (cursorOfScan h)
    ⟨tokens, outcome.events, outcome.result.mapError .parse⟩

/-- What is reported about an input. -/
structure Analysis where
  tree : Option ParseTree := none
  tokens : List Token := []
  diagnostics : List Diagnostic := []

/-- There is a tree, and no diagnostic is an error. -/
def Analysis.ok (a : Analysis) : Bool :=
  a.tree.isSome && !a.diagnostics.any (·.severity == "error")

/-- The analysis of a text that has been read; a fault that is no refusal is passed on. -/
def Reading.analysis (file : Option String) (r : Reading) : Except ParseFault Analysis :=
  match r.result with
  | .ok t => .ok { tree := some t, tokens := r.tokens }
  | .error (.lexical fault) => .ok { diagnostics := [.ofLexical file fault.report] }
  | .error (.parse (.refused fault)) =>
    .ok { tokens := r.tokens, diagnostics := [.ofSyntax file fault.report] }
  | .error (.parse fault) => .error fault

end LispReader
