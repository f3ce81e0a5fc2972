import LispReader.Proofs.Lexis
import Mathlib.Algebra.Group.Nat.Defs

/-! Plain numerals.

Among the numerals those of a source text are the simplest: digits and nothing else. Such a numeral
denotes its value as long as it is not longer than the limit, and only its length can keep it from
being read: `read_digits`. Zeros in front do not change the value, so a number has a readable
numeral just if its shortest one is short enough. -/
namespace LispReader.Numeral

variable {c : Char} {ds : List Char}

/-! ### Reading digits -/

theorem toNat_of_isDigit (h : c.isDigit = true) : 48 ≤ c.toNat ∧ c.toNat ≤ 57 :=
  Char.isDigit_iff_toNat.1 h

theorem normalize_eq_self (h : c.isDigit = true) : normalize c = c := by
  have hc := toNat_of_isDigit h
  exact if_pos (by omega)

theorem isSpace_eq_false (h : c.isDigit = true) : isSpace c = false := by
  have hc := toNat_of_isDigit h
  have hs : c ≠ ' ' := by
    rintro rfl
    exact absurd h (by decide)
  simp only [isSpace, beq_false_of_ne hs, Bool.false_or, Bool.and_eq_false_imp,
    decide_eq_true_eq, decide_eq_false_iff_not]
  omega

theorem ne_underscore (h : c.isDigit = true) : c ≠ '_' := by
  rintro rfl
  exact absurd h (by decide)

theorem separated_of_isDigit (h : ∀ c ∈ ds, c.isDigit = true) : separated ds = true := by
  fun_induction separated ds with
  | case1 => rfl
  | case2 => exact absurd rfl (ne_underscore (h _ (by simp)))
  | case3 => rfl
  | case4 => exact absurd rfl (ne_underscore (h '_' (by simp)))
  | case5 _ _ _ _ _ ih => exact ih fun c hc => h c (List.mem_cons_of_mem _ hc)

theorem sign_of_isDigit (h : c.isDigit = true) : sign (c :: ds) = (false, c :: ds) := by
  unfold sign
  split
  · next he => cases he; exact absurd h (by decide)
  · next he => cases he; exact absurd h (by decide)
  · rfl

/-- Digits that are not too many are read, and too many are counted. -/
theorem read_digits (h : IsNumeral ds) :
    read (String.ofList ds) =
      if digitLimit < ds.length then .error (.tooLong ds.length) else .ok (value ds) := by
  obtain ⟨d, ds, rfl⟩ := List.exists_cons_of_ne_nil h.ne_nil
  have hd := h.isDigit d List.mem_cons_self
  have hn : (d :: ds).map normalize = d :: ds := by
    rw [List.map_congr_left fun c hc => normalize_eq_self (h.isDigit c hc), List.map_id']
  have hs : ((d :: ds).map normalize).dropWhile isSpace = d :: ds := by
    rw [hn, List.dropWhile_cons_of_neg (by simp [isSpace_eq_false hd])]
  have hr : (d :: ds ++ []).takeWhile (fun c => c.isDigit || c == '_') = d :: ds ++ [] :=
    List.takeWhile_append_of_pos fun c hc => by simp [h.isDigit c hc]
  rw [List.append_nil] at hr
  have hf : (d :: ds).filter Char.isDigit = d :: ds := List.filter_eq_self.2 h.isDigit
  simp only [read, String.toList_ofList, hs, sign_of_isDigit hd, hr, hf, List.drop_length]
  rw [separated_of_isDigit h.isDigit]
  simp

/-! ### Values -/

theorem value_eq_ofDigitChars (ds : List Char) : value ds = Nat.ofDigitChars 10 ds 0 := rfl

theorem value_cons (c : Char) (ds : List Char) :
    value (c :: ds) = 10 ^ ds.length * (c.toNat - 48) + value ds := by
  rw [value_eq_ofDigitChars, Nat.ofDigitChars_cons, Nat.ofDigitChars_eq_ofDigitChars_zero,
    Nat.mul_zero, Nat.zero_add]
  rfl

/-- So many digits make a number below that power of ten. -/
theorem value_lt (h : ∀ c ∈ ds, c.isDigit = true) : value ds < 10 ^ ds.length := by
  induction ds with
  | nil => decide
  | cons c ds ih =>
    obtain ⟨hc, hds⟩ := List.forall_mem_cons.1 h
    have hd := toNat_of_isDigit hc
    calc value (c :: ds) = 10 ^ ds.length * (c.toNat - 48) + value ds := value_cons c ds
      _ < 10 ^ ds.length * (c.toNat - 48) + 10 ^ ds.length := Nat.add_lt_add_left (ih hds) _
      _ = 10 ^ ds.length * (c.toNat - 48 + 1) := (Nat.mul_succ ..).symm
      _ ≤ 10 ^ ds.length * 10 := Nat.mul_le_mul_left _ (by omega)
      _ = 10 ^ (c :: ds).length := (Nat.pow_succ ..).symm

/-- A number with zeros in front of its digits. -/
def padded (zeros n : Nat) : List Char := List.replicate zeros '0' ++ digits n

theorem length_padded (zeros n : Nat) : (padded zeros n).length = zeros + (digits n).length := by
  simp [padded]

theorem value_padded (zeros n : Nat) : value (padded zeros n) = n := by
  rw [value_eq_ofDigitChars, padded, Nat.ofDigitChars_append, Nat.ofDigitChars_replicate_zero,
    Nat.mul_zero, digits, Nat.ofDigitChars_ten_toDigits]

theorem isNumeral_padded (zeros n : Nat) : IsNumeral (padded zeros n) where
  ne_nil h := Nat.toDigits_ne_nil (List.append_eq_nil_iff.1 h).2
  isDigit := List.forall_mem_append.2
    ⟨fun c hc => by rw [List.eq_of_mem_replicate hc]; rfl,
      fun c hc => Nat.isDigit_of_mem_toDigits (by decide) (by decide) hc⟩

/-- The numbers that the limit admits. -/
theorem length_digits_le_iff {n : Nat} : (digits n).length ≤ digitLimit ↔ n < 10 ^ digitLimit :=
  Nat.length_toDigits_le_iff (by decide) (by decide)

theorem read_padded {zeros n : Nat} (h : (padded zeros n).length ≤ digitLimit) :
    read (String.ofList (padded zeros n)) = .ok n := by
  rw [read_digits (isNumeral_padded zeros n), if_neg (Nat.not_lt.2 h), value_padded]

/-- What digits denote is below the limit's power of ten. -/
theorem exists_lt_of_read_digits (h : IsNumeral ds) {n : Int}
    (hr : read (String.ofList ds) = .ok n) : ∃ v : Nat, n = v ∧ v < 10 ^ digitLimit := by
  rw [read_digits h] at hr
  split at hr
  · cases hr
  · next hl =>
    cases hr
    exact ⟨value ds, rfl, Nat.lt_of_lt_of_le (value_lt h.isDigit)
      (Nat.pow_le_pow_right (by decide) (Nat.not_lt.1 hl))⟩

end LispReader.Numeral
