import LispReader.CommandLine.Options
import LispReader.Text.Decimal
import LispReader.Text.Quoted

/-! Command lines.

Arguments are first told apart one by one: options, by their name or a unique beginning of a long
name, and values. A mark of two hyphens ends the options. Then they are taken in order: an option
that wants a value takes the one attached to it or else the next argument, and the first value
left is the expression. What is left over in the end is reported together. -/
namespace LispReader.CommandLine

/-- An argument on its own. -/
inductive Argument where
  | value (text : String)
  /-- An option, the value attached to it, and whether its name is a single letter. -/
  | option (switch : Switch) (attached : Option String) (short : Bool)
  | unknown (text : String)
  | endOfOptions
  deriving DecidableEq, Repr

/-- What a command line amounts to. -/
inductive Command where
  | run (options : Options)
  | help
  | misuse (message : String)
  deriving DecidableEq, Repr

/-! ### Single arguments -/

/-- Splits a text at the first equals sign, if there is one. -/
def splitValue (cs : List Char) : List Char × Option String :=
  match cs.dropWhile (· ≠ '=') with
  | [] => (cs, none)
  | _ :: value => (cs.takeWhile (· ≠ '='), some (String.ofList value))

/-- Negative numbers, with or without a fractional part, are values. A line feed may follow. -/
def isNegativeNumber (cs : List Char) : Bool :=
  match cs with
  | '-' :: body =>
    let body := if body.getLast? = some '\n' then body.dropLast else body
    let whole := body.takeWhile Text.Decimal.isDigit
    match body.drop whole.length with
    | [] => !whole.isEmpty
    | '.' :: fraction => !fraction.isEmpty && fraction.all Text.Decimal.isDigit
    | _ => false
  | _ => false

/-- An argument that begins with a hyphen, is longer than that and is no exact name. -/
def classifyHyphen (text : String) : Except String Argument :=
  let cs := text.toList
  let (name, attached) := splitValue cs
  let exact := attached.bind fun _ => Switch.ofName? (String.ofList name)
  match exact with
  | some s => .ok (.option s attached (name.length = 2))
  | none =>
    let candidates : List (String × Argument) :=
      match cs with
      | '-' :: '-' :: _ =>
        Switch.spellings.filterMap fun (spelling, s) =>
          if name.isPrefixOf spelling.toList then some (spelling, .option s attached false)
          else none
      | _ =>
        Switch.spellings.filterMap fun (spelling, s) =>
          if spelling.toList = cs.take 2 then
            some (spelling, .option s (some (String.ofList (cs.drop 2))) true)
          else none
    match candidates with
    | [(_, argument)] => .ok argument
    | [] =>
      if isNegativeNumber cs || cs.contains ' ' then .ok (.value text) else .ok (.unknown text)
    | _ =>
      let options := ", ".intercalate (candidates.map (·.1))
      .error s!"ambiguous option: {text} could match {options}"

/-- Tells what an argument is, apart from the mark that ends the options. -/
def classify (text : String) : Except String Argument :=
  match Switch.ofName? text with
  | some s => .ok (.option s none (text.length = 2))
  | none =>
    match text.toList with
    | '-' :: _ :: _ => classifyHyphen text
    | _ => .ok (.value text)

/-- Tells what the arguments are. Behind the end of the options all are values. -/
def classifyAll : List String → Except String (List Argument)
  | [] => .ok []
  | "--" :: rest => .ok (.endOfOptions :: rest.map .value)
  | text :: rest => do
    let argument ← classify text
    return argument :: (← classifyAll rest)

/-! ### Options and values in order -/

/-- The value of the file option; the mark that ends the options counts as no value. -/
def fileName (text : String) : FileName := if text = "--" then .dropped else .named text

/-- Sets an option that takes no value. -/
def Options.set (o : Options) : Switch → Options
  | .tokens => { o with tokens := true }
  | .compact => { o with compact := true }
  | .json => { o with json := true }
  | .trace => { o with trace := true }
  | .grammar => { o with grammar := true }
  | .help | .file => o

def missingValue (s : Switch) : Command := .misuse s!"argument {s.label}: expected one argument"

def surplusValue (s : Switch) (value : String) : Command :=
  .misuse s!"argument {s.label}: ignored explicit argument {Text.Quoted.quote value}"

/-- Letters attached to the help option are further options, the last of which may want a value,
attached to it or as the next argument. If all is well, help is given. -/
def helpWith (next : Option Argument) : List Char → Command
  | [] => .help
  | 'h' :: letters => helpWith next letters
  | ['f'] =>
    match next with
    | some (.value _) => .help
    | _ => missingValue .file
  | 'f' :: _ :: _ => .help
  | letters => surplusValue .help (String.ofList letters)

/-- What the arguments taken so far leave: the options, whether a value may still become the
expression, and the arguments left over. -/
structure Progress where
  options : Options := {}
  takesValue : Bool := true
  surplus : List String := []

/-- Takes the arguments in order. -/
def take (p : Progress) : List Argument → Command
  | [] =>
    if p.surplus.isEmpty then .run p.options
    else .misuse ("unrecognized arguments: " ++ " ".intercalate p.surplus)
  | .value text :: rest =>
    if p.takesValue then
      let p := { p with options.expression := some text, takesValue := false }
      match rest with
      | .endOfOptions :: rest => take p rest
      | rest => take p rest
    else take { p with surplus := p.surplus ++ [text] } rest
  | .endOfOptions :: rest =>
    if p.takesValue then
      match rest with
      | .value text :: rest =>
        take { p with options.expression := some text, takesValue := false } rest
      | rest => take { p with takesValue := false } rest
    else take { p with surplus := p.surplus ++ ["--"] } rest
  | .unknown text :: rest => take { p with surplus := p.surplus ++ [text] } rest
  | .option .file (some text) _ :: rest =>
    take { p with options.file := some (fileName text) } rest
  | .option .file none _ :: .value text :: rest =>
    take { p with options.file := some (fileName text) } rest
  | .option .file none _ :: _ => missingValue .file
  | .option .help none _ :: _ => .help
  | .option .help (some text) true :: rest =>
    if text = "" then surplusValue .help text else helpWith rest.head? text.toList
  | .option s (some text) _ :: _ => surplusValue s text
  | .option s none _ :: rest => take { p with options := p.options.set s } rest

/-- What a list of arguments amounts to. -/
def parse (arguments : List String) : Command :=
  match classifyAll arguments with
  | .ok arguments => take {} arguments
  | .error message => .misuse message

end LispReader.CommandLine
