import LispReader.CommandLine.Answer
import LispReader.Proofs.Analyses
import LispReader.Proofs.Data
import LispReader.Proofs.Json.Plain

/-! The line of JSON that tells of a text.

The line is put together from members whose values are written in different layouts: the tree
without white space by the stack machine, everything else with spaces. Each part is printable ASCII
and is cut into the lexemes of its value, so the whole line is, whatever characters the text and
the name of its file have. Of a text with an analysis, the line is read back as the object of
exactly the code, the tree, the diagnostics and, if they are asked for, the tokens:
`payload_faithful`. -/
namespace LispReader.CommandLine
open List (Forall₂)
open Json (Lexes Cuts Delimits)
open Text (Only IsPlain only_append only_intercalate)

/-- A text of printable ASCII that is cut into the lexemes of a value. -/
structure Tells (text : String) (v : Json) : Prop where
  plain : Only IsPlain text
  lexes : Lexes text.toList v.lexemes

theorem tells_write {layout : Json.Layout} (hl : layout ≠ .indented) (v : Json) :
    Tells (v.write layout) v where
  plain := Json.plain_writeAt hl 0 v
  lexes := Json.lexes_writeAt layout 0 v

theorem tells_tree (t : ParseTree) : Tells (t.render .compact) t.json := by
  rw [Tree.render_eq_write]
  apply tells_write
  decide

/-! ### Members -/

/-- A text of printable ASCII that is cut into the lexemes of a member of an object. -/
structure TellsMember (text : String) (m : String × Json) : Prop where
  plain : Only IsPlain text
  lexes : Lexes text.toList (Json.pairLexemes m)

theorem tellsMember {text : String} {v : Json} (name : String) (h : Tells text v) :
    TellsMember (member name text) (name, v) := by
  have hm : member name text = Json.string name ++ ": " ++ text := rfl
  rw [hm]
  constructor
  · simp only [only_append]
    exact ⟨⟨Json.plain_string name, by decide⟩, h.plain⟩
  · have hn := (Json.cuts_string name).append (Json.cuts_colon .spaced)
    simp only [String.toList_append]
    exact hn.append_lexes h.lexes

theorem plain_of_forall₂ {texts : List String} {members : List (String × Json)}
    (h : Forall₂ TellsMember texts members) : ∀ text ∈ texts, Only IsPlain text := by
  induction h with
  | nil => exact nofun
  | cons hm _ ih => exact List.forall_mem_cons.2 ⟨hm.plain, ih⟩

theorem lexes_of_forall₂ {texts : List String} {members : List (String × Json)}
    (h : Forall₂ TellsMember texts members) :
    Forall₂ Lexes (texts.map String.toList) (Json.memberLexemes members) := by
  induction h with
  | nil => exact .nil
  | cons hm _ ih => exact .cons hm.lexes ih

/-- Members in braces, with commas between them, are the text of an object. -/
theorem tells_object {texts : List String} {members : List (String × Json)}
    (h : Forall₂ TellsMember texts members) (hn : texts ≠ []) :
    Tells ("\x7b" ++ ", ".intercalate texts ++ "\x7d") (.object members) := by
  have hf : Delimits ['\x7b'] [.objectOpen] := Json.delimits_mark rfl
  have hl : Delimits ['\x7d'] [.objectClose] := Json.delimits_mark rfl
  have hc := Json.cuts_enclose .spaced 0 "\x7b" "\x7d" hf.cuts hl (lexes_of_forall₂ h)
  have he : Json.Layout.spaced.enclose 0 "\x7b" "\x7d" texts =
      "\x7b" ++ ", ".intercalate texts ++ "\x7d" := by
    rw [Json.Layout.enclose]
    · show "\x7b" ++ "" ++ ", ".intercalate texts ++ "" ++ "\x7d" = _
      rw [String.append_empty, String.append_empty]
    · exact hn
  rw [← he]
  exact ⟨Json.plain_enclose (by decide) (by decide) (by decide) (plain_of_forall₂ h), hc.lexes⟩

/-! ### The line -/

/-- What the line tells of an analysis: the code, the tree, all that each diagnostic says and, if
they are asked for, the tokens with their places. What is not known is null. -/
def payloadJson (a : Analysis) (exit : Nat) (withTokens : Bool) : Json :=
  .object <|
    [("exit_code", .integer exit),
      ("tree", a.tree.elim .null Tree.json),
      ("diagnostics", .array (a.diagnostics.map fun d => .object
        [("phase", d.phase.elim .null .text),
          ("code", d.code.elim .null .text),
          ("message", .text d.message),
          ("severity", .text d.severity),
          ("file", d.span.file.elim .null .text),
          ("line", d.span.line.elim .null .integer),
          ("column", d.span.column.elim .null .integer),
          ("end_line", d.span.endLine.elim .null .integer),
          ("end_column", d.span.endColumn.elim .null .integer),
          ("notes", .array (d.notes.map .text))]))] ++
    if withTokens then
      [("tokens", .array (a.tokens.map fun t => .object
        [("kind", .text t.kind.name),
          ("lexeme", t.lexeme.elim .null .text),
          ("line", .integer t.position.line),
          ("column", .integer t.position.column)]))]
    else []

theorem ofText?_eq (s : Option String) : Json.ofText? s = s.elim .null .text := by
  cases s <;> rfl

theorem ofInteger?_eq (n : Option Int) : Json.ofInteger? n = n.elim .null .integer := by
  cases n <;> rfl

/-- The functions that write a diagnostic and a token tell what is to be told of them. -/
theorem payloadJson_eq (a : Analysis) (exit : Nat) (withTokens : Bool) :
    payloadJson a exit withTokens = .object
      ([("exit_code", .integer exit), ("tree", a.tree.elim .null Tree.json),
        ("diagnostics", .array (a.diagnostics.map Diagnostic.json))] ++
      if withTokens then [("tokens", .array (a.tokens.map tokenJson))] else []) := by
  simp only [payloadJson, ← ofText?_eq, ← ofInteger?_eq]
  rfl

theorem tells_treeMember (tree : Option ParseTree) :
    Tells (tree.elim "null" (Tree.render .compact)) (tree.elim .null Tree.json) := by
  cases tree with
  | none =>
    show Tells (Json.write .spaced .null) .null
    apply tells_write
    decide
  | some t => exact tells_tree t

theorem tells_payload (a : Analysis) (exit : Nat) (withTokens : Bool) :
    Tells (payload a exit withTokens) (payloadJson a exit withTokens) := by
  have hs : Json.Layout.spaced ≠ .indented := by decide
  have hcode := tellsMember "exit_code" (tells_write hs (.integer exit))
  have htree := tellsMember "tree" (tells_treeMember a.tree)
  have hdiagnostics := tellsMember "diagnostics"
    (tells_write hs (.array (a.diagnostics.map Diagnostic.json)))
  have htokens := tellsMember "tokens" (tells_write hs (.array (a.tokens.map tokenJson)))
  rw [payload, payloadJson_eq]
  cases withTokens with
  | false => exact tells_object (.cons hcode (.cons htree (.cons hdiagnostics .nil))) nofun
  | true =>
    exact tells_object (.cons hcode (.cons htree (.cons hdiagnostics (.cons htokens .nil)))) nofun

/-- Of a text with short runs of digits there is an analysis. Its line is printable ASCII, and what
is read from it is what the analysis has. -/
theorem payload_faithful {source : String} (h : ShortRuns source) (file : Option String)
    (exit : Nat) (withTokens : Bool) :
    ∃ a, (read source).analysis file = .ok a ∧ Only IsPlain (payload a exit withTokens) ∧
      Json.read? (payload a exit withTokens) = some (payloadJson a exit withTokens) := by
  obtain ⟨a, ha⟩ := h.exists_analysis file
  have ht := tells_payload a exit withTokens
  exact ⟨a, ha, ht.plain, Json.read?_of_lexes ht.lexes⟩

/-- A leader on its own, which no program begins with. -/
def lone : String := "≜"

theorem payload_faithful_lone : ShortRuns lone ∧
    ∃ a, (read lone).analysis (some "é\n") = .ok a ∧ Only IsPlain (payload a 1 true) ∧
      Json.read? (payload a 1 true) = some (payloadJson a 1 true) := by
  have h : ShortRuns lone := shortRuns_of_length (by decide)
  exact ⟨h, payload_faithful h (some "é\n") 1 true⟩

end LispReader.CommandLine
