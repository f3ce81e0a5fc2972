import LispReader.Analysis
import LispReader.CommandLine.Arguments
import LispReader.CommandLine.Usage
import LispReader.FileTree
import LispReader.Grammar.Listing
import LispReader.Text.Blank

/-! What the program answers.

An answer is what is written to the two output channels and how the program ends: with an exit
code, or cut short by a condition for which it has no report. One expression is reported as text
or as a line of JSON. An interactive session reports each line on its own, whatever came before
it. -/
namespace LispReader.CommandLine

/-- Text for the two output channels. -/
structure Output where
  out : String := ""
  err : String := ""
  deriving DecidableEq, Repr

namespace Output

instance : Append Output := ⟨fun a b => ⟨a.out ++ b.out, a.err ++ b.err⟩⟩

def toOut (s : String) : Output := { out := s }

def toErr (s : String) : Output := { err := s }

/-- Lines, each with its line feed. -/
def lines (ls : List String) : String := "".intercalate (ls.map (· ++ "\n"))

end Output

/-- A condition for which there is no report. -/
inductive Abort where
  /-- The input ends in a fault that is neither lexical nor a refusal. -/
  | fault (fault : ParseFault)
  /-- A path holds a null character. -/
  | nullInPath
  /-- The file option was given without a name. -/
  | nameless
  deriving DecidableEq

def Abort.message : Abort → String
  | fault f => f.message
  | nullInPath => "embedded null byte"
  | nameless => "'list' object has no attribute 'read_text'"

/-- Output, and the exit code unless the program was cut short. -/
structure Answer where
  output : Output
  exit : Except Abort Nat

/-- More output in front of an answer. -/
def Answer.after (a : Answer) (first : Output) : Answer := { a with output := first ++ a.output }

/-! ### One expression -/

def tokenJson (t : Token) : Json :=
  .object
    [("kind", .text t.kind.name), ("lexeme", .ofText? t.lexeme),
      ("line", .integer t.position.line), ("column", .integer t.position.column)]

/-- A member of an object whose value is already written. -/
def member (name value : String) : String := s!"{Json.string name}: {value}"

/-- The analysis as a line of JSON. The tree is written without white space. -/
def payload (a : Analysis) (exit : Nat) (withTokens : Bool) : String :=
  let members :=
    [member "exit_code" (Json.write .spaced (.integer exit)),
      member "tree" (a.tree.elim "null" (Tree.render .compact)),
      member "diagnostics" (Json.write .spaced (.array (a.diagnostics.map Diagnostic.json)))] ++
    if withTokens then
      [member "tokens" (Json.write .spaced (.array (a.tokens.map tokenJson)))]
    else []
  "\x7b" ++ ", ".intercalate members ++ "\x7d"

/-- The report on an analysis, with its exit code. -/
def report (o : Options) (a : Analysis) : Answer :=
  let exit := if a.ok then 0 else 1
  let output :=
    if o.json then .toOut (payload a exit o.tokens ++ "\n")
    else
      match a.tree with
      | some t =>
        if a.ok then
          let listing := if o.tokens then Output.lines (Token.listings a.tokens) ++ "\n" else ""
          .toOut (listing ++ t.render (if o.compact then .compact else .indented) ++ "\n")
        else .toErr (Output.lines (a.diagnostics.map Diagnostic.text))
      | none => .toErr (Output.lines (a.diagnostics.map Diagnostic.text))
  ⟨output, .ok exit⟩

/-- The lines of a trace. -/
def traceText (events : List Derivation.Event) : String :=
  Output.lines (events.map fun e => s!"trace: {e.text}")

/-- The answer to one text, known by a name. -/
def answerText (o : Options) (name source : String) : Answer :=
  let reading := read source
  let answer : Answer :=
    match reading.analysis (some name) with
    | .ok a => report o a
    | .error fault => ⟨{}, .error (.fault fault)⟩
  if o.trace then answer.after (.toErr (traceText reading.events)) else answer

/-! ### Interactive sessions -/

/-- What is done about a line. -/
inductive Response where
  | leave
  | proceed (output : Output)
  | abort (output : Output) (condition : Abort)

/-- The response to a line. White space around it does not count, nor does the case of a
command. -/
def respond (o : Options) (line : String) : Response :=
  let text := Text.trim line
  if text = "" then .proceed {}
  else if text.toLower = "exit" then .leave
  else if text.toLower = "help" then .proceed (.toOut (examples ++ "\n"))
  else
    match answerText o "<stdin>" text with
    | ⟨output, .ok _⟩ => .proceed output
    | ⟨output, .error condition⟩ => .abort output condition

/-- A stretch of a session between two prompts: what is written, and how the session ends if it
ends within. -/
structure Stretch where
  output : Output := {}
  ending : Option (Except Abort Nat) := none

/-- More output in front of a stretch. -/
def Stretch.after (s : Stretch) (first : Output) : Stretch := { s with output := first ++ s.output }

/-- The stretch from the prompt for the first line to the one behind the last, unless one of the
lines ends the session. -/
def respondAll (o : Options) : List String → Stretch
  | [] => {}
  | line :: rest =>
    match respond o line with
    | .leave => { ending := some (.ok 0) }
    | .proceed output => (respondAll o rest).after (output ++ .toOut prompt)
    | .abort output condition => { output, ending := some (.error condition) }

/-- A session ends where there is no more input. -/
def endOfSession : Answer := ⟨.toOut "\n", .ok 0⟩

/-- The answer that a stretch is with no more input behind it. -/
def Stretch.close (s : Stretch) : Answer :=
  match s.ending with
  | some exit => ⟨s.output, exit⟩
  | none => endOfSession.after s.output

/-- The answer to the lines of a session from some line on. -/
def answerLines (o : Options) (lines : List String) : Answer :=
  (respondAll o lines).close.after (.toOut prompt)

/-- The answer to a whole session. -/
def answerSession (o : Options) (lines : List String) : Answer :=
  (answerLines o lines).after (.toOut banner)

/-- The lines of an input text. -/
def inputLines (input : String) : List String :=
  (Text.Newline.lines (Text.Newline.unify input.toList)).map String.ofList

/-! ### Command lines -/

/-- The report on a file that cannot be read. -/
def answerUnreadable (o : Options) (path : Path) (fault : FileFault) : Answer :=
  report o
    { diagnostics :=
        [{ message := s!"cannot read {path.text}: {fault.message path}", phase := some "input"
           span := { file := some path.text } }] }

/-- The answer about a file, given the way to read files. -/
def answerFile (o : Options) (readFile : Path → Except FileFault (List UInt8)) (name : String) :
    Answer :=
  let path := Path.ofString name
  if name.toList.contains '\x00' then ⟨{}, .error .nullInPath⟩
  else
    match (readFile path).bind decodeFile with
    | .ok source => answerText o path.text source
    | .error fault => answerUnreadable o path fault

/-- What a command line comes down to. -/
inductive Task where
  | print (answer : Answer)
  | file (options : Options) (name : String)
  | text (options : Options) (source : String)
  | session (options : Options)

def misuse (message : String) : Answer := ⟨.toErr (misuseText message), .ok 2⟩

/-- The task of a command line. The grammar is printed whatever else is asked for. -/
def taskOf (arguments : List String) : Task :=
  match parse arguments with
  | .help => .print ⟨.toOut help, .ok 0⟩
  | .misuse message => .print (misuse message)
  | .run o =>
    if o.grammar then .print ⟨.toOut (Output.lines Grammar.standard.listing), .ok 0⟩
    else
      match o.expression, o.file with
      | some _, some _ => .print (misuse "give an expression or --file, not both")
      | some source, none => .text o source
      | none, some (.named name) => .file o name
      | none, some .dropped => .print ⟨{}, .error .nameless⟩
      | none, none => .session o

/-- The answer to a command line, given the files and the text of standard input. -/
def answer (files : FileTree) (input : String) (arguments : List String) : Answer :=
  match taskOf arguments with
  | .print answer => answer
  | .file o name => answerFile o files.read name
  | .text o source => answerText o "<expr>" source
  | .session o => answerSession o (inputLines input)

end LispReader.CommandLine
