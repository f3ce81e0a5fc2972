/-! The options of the command line. -/
namespace LispReader.CommandLine

/-- What an option asks for. -/
inductive Switch where
  | help
  | file
  | tokens
  | compact
  | json
  | trace
  | grammar
  deriving DecidableEq, Repr

namespace Switch

/-- The spellings of an option. -/
def names : Switch → List String
  | help => ["-h", "--help"]
  | file => ["-f", "--file"]
  | tokens => ["--tokens"]
  | compact => ["--compact"]
  | json => ["--json"]
  | trace => ["--trace"]
  | grammar => ["--grammar"]

def all : List Switch := [help, file, tokens, compact, json, trace, grammar]

/-- All spellings with what they mean, in the order in which messages list them. -/
def spellings : List (String × Switch) := all.flatMap fun s => s.names.map fun name => (name, s)

/-- The option with exactly this spelling. -/
def ofName? (name : String) : Option Switch := (spellings.find? (·.1 = name)).map (·.2)

/-- The option as messages name it. -/
def label (s : Switch) : String := "/".intercalate s.names

end Switch

/-- The value of the file option. -/
inductive FileName where
  | named (path : String)
  /-- The value was the mark that ends the options, and was dropped as such. -/
  | dropped
  deriving DecidableEq, Repr

/-- What a command line asks for. -/
structure Options where
  expression : Option String := none
  file : Option FileName := none
  tokens : Bool := false
  compact : Bool := false
  json : Bool := false
  trace : Bool := false
  grammar : Bool := false
  deriving DecidableEq, Repr

end LispReader.CommandLine
