import LispReader.Text.Decimal
import LispReader.Text.Blank
import LispReader.Text.Quoted

/-! Integers as decimal numerals.

A numeral is a run of decimal digits of any script, in which single underscores may stand
between digits, with one optional sign in front and white space around. At most `digitLimit`
digits are read. The written form of an integer is its plain numeral and has no limit. -/
namespace LispReader.Numeral

/-- The greatest number of digits that is read. -/
def digitLimit : Nat := 4300

inductive Fault where
  /-- The numeral has this many digits, more than `digitLimit`. -/
  | tooLong (digits : Nat)
  /-- The text is no numeral. -/
  | malformed (text : String)
  deriving DecidableEq, Repr

/-- The text of a malformed numeral is shown in quotes and cut after 200 characters. -/
def Fault.message : Fault → String
  | .tooLong digits =>
    s!"Exceeds the limit ({digitLimit} digits) for integer string conversion: value has " ++
      s!"{digits} digits; use sys.set_int_max_str_digits() to increase the limit"
  | .malformed text =>
    "invalid literal for int() with base 10: " ++
      String.ofList ((Text.Quoted.quote text).toList.take 200)

/-! ### Reading -/

/-- ASCII stands for itself, white space beyond ASCII for a space and a digit of another script
for the ASCII digit of its value. Nothing else occurs in a numeral. -/
def normalize (c : Char) : Char :=
  if c.toNat < 128 then c
  else if Text.isBlank c then ' '
  else match Text.Decimal.value? c with
    | some d => Char.ofNat (48 + d)
    | none => '?'

/-- White space of ASCII around a numeral. -/
def isSpace (c : Char) : Bool := c == ' ' || (9 ≤ c.toNat && c.toNat ≤ 13)

/-- Every underscore stands between two digits. -/
def separated : List Char → Bool
  | [] => true
  | '_' :: _ => false
  | [_] => true
  | _ :: '_' :: rest => !rest.isEmpty && separated rest
  | _ :: rest => separated rest

/-- The number denoted by ASCII digits, most significant first. -/
def value (digits : List Char) : Nat := digits.foldl (fun n c => 10 * n + (c.toNat - 48)) 0

/-- Splits off the sign. -/
def sign : List Char → Bool × List Char
  | '-' :: rest => (true, rest)
  | '+' :: rest => (false, rest)
  | cs => (false, cs)

/-- The integer that a numeral denotes. A misplaced underscore is found before the length is
checked, and the length before what follows the digits. -/
def read (text : String) : Except Fault Int :=
  let (negative, body) := sign ((text.toList.map normalize).dropWhile isSpace)
  let run := body.takeWhile fun c => c.isDigit || c == '_'
  let digits := run.filter Char.isDigit
  let rest := body.drop run.length
  if !separated run then .error (.malformed text)
  else if digitLimit < digits.length then .error (.tooLong digits.length)
  else if digits.isEmpty || !rest.all isSpace then .error (.malformed text)
  else .ok (if negative then -(value digits : Int) else value digits)

/-! ### Writing -/

/-- The decimal digits of a number. -/
def digits (n : Nat) : List Char := Nat.toDigits 10 n

/-- The plain numeral of an integer: no sign but a minus, no leading zeros. -/
def write (n : Int) : String :=
  String.ofList (if n < 0 then '-' :: digits n.natAbs else digits n.natAbs)

example : read " +00_12\t" = .ok 12 := by cbv
example : read "1__0" = .error (.malformed "1__0") := by cbv
example : write (-120) = "-120" := by decide +kernel

end LispReader.Numeral
