/-! What the program says about itself. -/
namespace LispReader.CommandLine

/-- How the program is called. -/
def usage : String :=
  "usage: mlparse [-h] [-f FILE] [--tokens] [--compact] [--json] [--trace]\n" ++
  "               [--grammar]\n" ++
  "               [expr]\n"

/-- What its arguments mean. -/
def help : String :=
  usage ++
  "\n" ++
  "MiniLisp table-driven LL(1) parser\n" ++
  "\n" ++
  "positional arguments:\n" ++
  "  expr                  Expression text; omit (and omit --file) for\n" ++
  "                        interactive mode\n" ++
  "\n" ++
  "options:\n" ++
  "  -h, --help            show this help message and exit\n" ++
  "  -f FILE, --file FILE  Read the expression from a UTF-8 file\n" ++
  "  --tokens              Print the token stream before the tree\n" ++
  "  --compact             Print the tree as single-line JSON\n" ++
  "  --json                Emit one JSON object (exit_code/tree/diagnostics)\n" ++
  "                        instead of text\n" ++
  "  --trace               Print every parse-engine step to stderr\n" ++
  "  --grammar             Print the productions and parse table, then exit\n"

/-- A misuse with its message. -/
def misuseText (message : String) : String := usage ++ s!"mlparse: error: {message}\n"

/-- What is said when an interactive session begins. -/
def banner : String :=
  "MiniLisp LL(1) parser: one expression per line\n" ++
  "Commands: 'exit' to quit, 'help' for examples\n"

/-- What is said in front of each line of an interactive session. -/
def prompt : String := "> "

/-- Examples for users of an interactive session. -/
def examples : String :=
  "Basic expressions:\n" ++
  "  42                 number literal\n" ++
  "  x                  identifier\n" ++
  "  (+ 2 3)            addition\n" ++
  "  (× x 5)            multiplication\n" ++
  "\n" ++
  "Nested expressions:\n" ++
  "  (+ (× 2 3) 4)      nested arithmetic\n" ++
  "  (? (= x 0) 1 0)    conditional\n" ++
  "\n" ++
  "Functions:\n" ++
  "  (λ x x)            lambda (identity)\n" ++
  "  (≜ y 10 y)          let binding\n" ++
  "  ((λ x (+ x 1)) 5)  application\n" ++
  "\n" ++
  "Reserved glyphs:\n" ++
  "  × (U+00D7) multiply   − (U+2212) minus, not '-'\n" ++
  "  λ (U+03BB) lambda     ≜ (U+225C) let\n"

end LispReader.CommandLine
