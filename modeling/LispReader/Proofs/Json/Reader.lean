import LispReader.Json.Value

/-! Reading JSON.

A text is cut into lexemes, with any white space between them, and a value is read from these. The
reader follows the standard for the values that `Json` has: a string may have any escape, of which
two in a row stand for the units of a surrogate pair, and an integer has no zeros in front. The
arrays and objects around the lexeme at hand are kept on a stack, so the reader goes through the
lexemes once. -/
namespace LispReader.Json

/-! ### Strings -/

/-- The units of sixteen bits of a character: one, or a surrogate pair. -/
def unitsOf (c : Char) : List Nat :=
  let n := c.toNat
  if n < 0x10000 then [n]
  else [0xD800 + (n - 0x10000) / 0x400, 0xDC00 + (n - 0x10000) % 0x400]

def isHigh (unit : Nat) : Bool := 0xD800 ≤ unit && unit < 0xDC00

def isLow (unit : Nat) : Bool := 0xDC00 ≤ unit && unit < 0xE000

/-- The characters of some units; a surrogate that is not in a pair stands for none. -/
def ofUnits? : List Nat → Option (List Char)
  | [] => some []
  | unit :: units =>
    if isLow unit then none
    else if isHigh unit then
      match units with
      | [] => none
      | low :: units =>
        if isLow low then
          (ofUnits? units).map
            (Char.ofNat (0x10000 + (unit - 0xD800) * 0x400 + (low - 0xDC00)) :: ·)
        else none
    else (ofUnits? units).map (Char.ofNat unit :: ·)

/-- The character for which a letter or mark behind a backslash stands. -/
def shortEscape? : Char → Option Char
  | '\x22' => some '\x22'
  | '\\' => some '\\'
  | '/' => some '/'
  | 'b' => some '\x08'
  | 'f' => some '\x0c'
  | 'n' => some '\n'
  | 'r' => some '\r'
  | 't' => some '\t'
  | _ => none

/-- Units in front of those that have been read. -/
def before (units : List Nat) (read : List Nat × List Char) : List Nat × List Char :=
  (units ++ read.1, read.2)

/-- The units up to the closing quotation mark, and the text behind it. -/
def readUnits : List Char → Option (List Nat × List Char)
  | [] => none
  | '\\' :: 'u' :: c₁ :: c₂ :: c₃ :: c₄ :: cs =>
    (Text.Hex.read 0 ([c₁, c₂, c₃, c₄].map Char.toLower)).bind fun unit =>
      (readUnits cs).map (before [unit])
  | '\\' :: c :: cs =>
    (shortEscape? c).bind fun escaped => (readUnits cs).map (before (unitsOf escaped))
  | c :: cs =>
    if c = '\x22' then some ([], cs)
    else if c = '\\' ∨ c.toNat < 0x20 then none
    else (readUnits cs).map (before (unitsOf c))

/-! ### Lexemes -/

inductive Lexeme where
  | arrayOpen
  | arrayClose
  | objectOpen
  | objectClose
  | comma
  | colon
  | null
  | integer (value : Int)
  | text (value : String)
  deriving DecidableEq

def mark? : Char → Option Lexeme
  | '[' => some .arrayOpen
  | ']' => some .arrayClose
  | '\x7b' => some .objectOpen
  | '\x7d' => some .objectClose
  | ',' => some .comma
  | ':' => some .colon
  | _ => none

def isSpace (c : Char) : Bool := c == ' ' || c == '\n' || c == '\r' || c == '\t'

/-- A plain numeral, and the text behind it. -/
def natural? (cs : List Char) : Option (Nat × List Char) :=
  let digits := cs.takeWhile Char.isDigit
  if Numeral.digits (Numeral.value digits) = digits then
    some (Numeral.value digits, cs.dropWhile Char.isDigit)
  else none

/-- The lexeme at the beginning of a text, and the text behind it. -/
def lexeme? : List Char → Option (Lexeme × List Char)
  | [] => none
  | '\x22' :: cs =>
    (readUnits cs).bind fun read =>
      (ofUnits? read.1).map fun s => (.text (String.ofList s), read.2)
  | 'n' :: 'u' :: 'l' :: 'l' :: cs => some (.null, cs)
  | '-' :: cs => (natural? cs).map fun read => (.integer (-read.1), read.2)
  | c :: cs =>
    match mark? c with
    | some lexeme => some (lexeme, cs)
    | none => (natural? (c :: cs)).map fun read => (.integer read.1, read.2)

theorem length_of_map_before {units : List Nat} {read? : Option (List Nat × List Char)}
    {read : List Nat × List Char} {n : Nat} (h : read?.map (before units) = some read)
    (hn : ∀ {read}, read? = some read → read.2.length < n) : read.2.length < n := by
  obtain ⟨read, hr, rfl⟩ := Option.map_eq_some_iff.1 h
  have hl := hn hr
  exact hl

theorem length_readUnits {cs : List Char} {read : List Nat × List Char}
    (h : readUnits cs = some read) : read.2.length < cs.length := by
  fun_induction readUnits cs generalizing read with
  | case1 => cases h
  | case2 _ _ _ _ cs ih =>
    obtain ⟨unit, -, h⟩ := Option.bind_eq_some_iff.1 h
    have := length_of_map_before h ih
    simp only [List.length_cons]
    omega
  | case3 _ cs _ ih =>
    obtain ⟨escaped, -, h⟩ := Option.bind_eq_some_iff.1 h
    exact Nat.lt_succ_of_lt (Nat.lt_succ_of_lt (length_of_map_before h ih))
  | case4 =>
    cases h
    exact Nat.lt_succ_self _
  | case5 => cases h
  | case6 _ _ _ _ _ _ ih => exact Nat.lt_succ_of_lt (length_of_map_before h ih)

theorem length_natural? {cs : List Char} {read : Nat × List Char} (h : natural? cs = some read) :
    read.2.length < cs.length := by
  rw [natural?] at h
  by_cases hd : Numeral.digits (Numeral.value (cs.takeWhile Char.isDigit)) =
      cs.takeWhile Char.isDigit
  · rw [if_pos hd] at h
    cases h
    have hn : cs.takeWhile Char.isDigit ≠ [] := hd ▸ Nat.toDigits_ne_nil
    have hl := congrArg List.length (cs.takeWhile_append_dropWhile (p := Char.isDigit))
    have := List.length_pos_iff.2 hn
    rw [List.length_append] at hl
    show (cs.dropWhile Char.isDigit).length < cs.length
    omega
  · rw [if_neg hd] at h
    cases h

theorem length_lexeme? {cs : List Char} {read : Lexeme × List Char}
    (h : lexeme? cs = some read) : read.2.length < cs.length := by
  unfold lexeme? at h
  split at h
  · cases h
  · obtain ⟨read, hr, h⟩ := Option.bind_eq_some_iff.1 h
    obtain ⟨s, -, rfl⟩ := Option.map_eq_some_iff.1 h
    exact Nat.lt_succ_of_lt (length_readUnits hr)
  · cases h
    simp only [List.length_cons]
    omega
  · obtain ⟨read, hr, rfl⟩ := Option.map_eq_some_iff.1 h
    exact Nat.lt_succ_of_lt (length_natural? hr)
  · split at h
    · cases h
      exact Nat.lt_succ_self _
    · obtain ⟨read, hr, rfl⟩ := Option.map_eq_some_iff.1 h
      exact length_natural? hr

/-- The lexemes of a text; none if a part of it is no lexeme. -/
def lex (cs : List Char) : Option (List Lexeme) :=
  match cs with
  | [] => some []
  | c :: cs =>
    if isSpace c then lex cs
    else
      match _h : lexeme? (c :: cs) with
      | none => none
      | some read => (lex read.2).map (read.1 :: ·)
termination_by cs.length
decreasing_by
  · exact Nat.lt_succ_self _
  · exact length_lexeme? _h

section

variable {c : Char} {cs rest : List Char} {lexeme : Lexeme}

theorem lex_of_isSpace (h : isSpace c = true) : lex (c :: cs) = lex cs := by
  rw [lex, if_pos h]

theorem lex_of_lexeme? (hs : isSpace c = false) (h : lexeme? (c :: cs) = some (lexeme, rest)) :
    lex (c :: cs) = (lex rest).map (lexeme :: ·) := by
  rw [lex, if_neg (by simp [hs])]
  split
  · next hn => cases hn.symm.trans h
  · next hr =>
    cases hr.symm.trans h
    rfl

end

/-! ### Values -/

/-- An array or object around a value, with what has been read of it, the last part first. -/
inductive Around where
  | array (items : List Json)
  | object (members : List (String × Json)) (name : String)

mutual

/-- Reads a value inside what is around it, and then what follows. -/
def readValue : List Around → List Lexeme → Option Json
  | around, .null :: ls => readBehind around .null ls
  | around, .integer n :: ls => readBehind around (.integer n) ls
  | around, .text s :: ls => readBehind around (.text s) ls
  | around, .arrayOpen :: ls => readValue (.array [] :: around) ls
  | .array [] :: around, .arrayClose :: ls => readBehind around (.array []) ls
  | around, .objectOpen :: .objectClose :: ls => readBehind around (.object []) ls
  | around, .objectOpen :: .text name :: .colon :: ls => readValue (.object [] name :: around) ls
  | _, _ => none

/-- Reads on behind a value. -/
def readBehind : List Around → Json → List Lexeme → Option Json
  | [], value, [] => some value
  | .array items :: around, value, .comma :: ls => readValue (.array (value :: items) :: around) ls
  | .array items :: around, value, .arrayClose :: ls =>
    readBehind around (.array (value :: items).reverse) ls
  | .object members name :: around, value, .comma :: .text next :: .colon :: ls =>
    readValue (.object ((name, value) :: members) next :: around) ls
  | .object members name :: around, value, .objectClose :: ls =>
    readBehind around (.object ((name, value) :: members).reverse) ls
  | _, _, _ => none

end

/-- The value of a text. -/
def read? (text : String) : Option Json := (lex text.toList).bind (readValue [])

end LispReader.Json
