/-! Hexadecimal numerals of fixed width.

The numeral of width `w` writes a number modulo `16 ^ w`, most significant digit first and
with leading zeros. Reading it back gives that remainder, see `read_fixed`. -/
namespace LispReader.Text.Hex

/-- The lower-case digit of a value below sixteen. -/
def digit (d : Nat) : Char := if d < 10 then Char.ofNat (48 + d) else Char.ofNat (87 + d)

/-- The last `width` hexadecimal digits of a number. -/
def fixed : Nat → Nat → List Char
  | 0, _ => []
  | width + 1, n => fixed width (n / 16) ++ [digit (n % 16)]

@[simp] theorem length_fixed (width n : Nat) : (fixed width n).length = width := by
  induction width generalizing n with
  | zero => rfl
  | succ width ih => simp [fixed, ih]

/-- The value of a lower-case digit. -/
def value? (c : Char) : Option Nat :=
  if '0' ≤ c ∧ c ≤ '9' then some (c.toNat - 48)
  else if 'a' ≤ c ∧ c ≤ 'f' then some (c.toNat - 87)
  else none

/-- The number that a run of lower-case digits denotes, continuing from `acc`. -/
def read (acc : Nat) : List Char → Option Nat
  | [] => some acc
  | c :: rest => (value? c).bind fun d => read (16 * acc + d) rest

theorem value?_digit : ∀ {d : Nat}, d < 16 → value? (digit d) = some d := by decide

theorem read_append (acc : Nat) (front back : List Char) :
    read acc (front ++ back) = (read acc front).bind (read · back) := by
  induction front generalizing acc with
  | nil => rfl
  | cons c rest ih =>
    simp only [List.cons_append, read, Option.bind_assoc]
    congr 1
    funext d
    exact ih _

theorem read_fixed (width acc n : Nat) :
    read acc (fixed width n) = some (acc * Nat.pow 16 width + n % Nat.pow 16 width) := by
  induction width generalizing n with
  | zero => simp [fixed, read, Nat.mod_one]
  | succ width ih =>
    have hd : n % 16 < 16 := Nat.mod_lt _ (by decide)
    simp only [fixed, read_append, ih, Option.bind_some, read, value?_digit hd]
    congr 1
    have hp : Nat.pow 16 (width + 1) = 16 * Nat.pow 16 width := Nat.mul_comm (Nat.pow 16 width) 16
    have hm : n % (16 * Nat.pow 16 width) = n % 16 + 16 * (n / 16 % Nat.pow 16 width) :=
      Nat.mod_mul
    rw [hp, hm, Nat.mul_add, Nat.mul_left_comm acc, Nat.add_comm (n % 16), Nat.add_assoc]

/-- The code point of a character as `U+` and at least four upper-case digits. -/
def codePoint (c : Char) : String :=
  let width := if c.toNat < 0x10000 then 4 else if c.toNat < 0x100000 then 5 else 6
  "U+" ++ String.ofList ((fixed width c.toNat).map Char.toUpper)

end LispReader.Text.Hex
