import LispReader.Proofs.Digits

/-! Texts made of characters of one class.

A class is closed under putting texts together, so what a composed text is made of is read off its
parts. Two classes matter: the characters that stay within a line, which are all but the line feed,
and printable ASCII, from the space to the tilde, which every channel passes on unchanged. -/
namespace LispReader.Text

/-- Every character of the text belongs to the class. -/
def Only (p : Char → Prop) (s : String) : Prop := ∀ c ∈ s.toList, p c

/-- The character does not end a line. -/
def IsInline (c : Char) : Prop := c ≠ '\n'

/-- The character is printable ASCII. -/
def IsPlain (c : Char) : Prop := 0x20 ≤ c.toNat ∧ c.toNat ≤ 0x7E

instance : DecidablePred IsInline := fun c => inferInstanceAs (Decidable (c ≠ '\n'))

instance : DecidablePred IsPlain := fun _ => inferInstanceAs (Decidable (_ ∧ _))

theorem IsPlain.isInline {c : Char} (h : IsPlain c) : IsInline c := by
  intro he
  subst he
  exact absurd h (by decide)

theorem isPlain_of_isDigit {c : Char} (h : c.isDigit = true) : IsPlain c := by
  have hc := Numeral.toNat_of_isDigit h
  constructor <;> omega

section

variable {p q : Char → Prop} {s t : String}

-- The characters of the text are tested, not all characters there are.
instance [DecidablePred p] : Decidable (Only p s) := List.decidableBAll p s.toList

theorem Only.mono (h : ∀ c, p c → q c) (hs : Only p s) : Only q s := fun c hc => h c (hs c hc)

@[simp] theorem only_empty : Only p "" := nofun

@[simp] theorem only_append : Only p (s ++ t) ↔ Only p s ∧ Only p t := by
  simp only [Only, String.toList_append, List.forall_mem_append]

theorem only_ofList {cs : List Char} : Only p (String.ofList cs) ↔ ∀ c ∈ cs, p c := by
  rw [Only, String.toList_ofList]

@[simp] theorem only_toString : Only p (toString s) ↔ Only p s := Iff.rfl

@[simp] theorem only_toString_char {c : Char} : Only p (toString c) ↔ p c := by
  have hc : toString c = String.ofList [c] := rfl
  rw [hc, only_ofList, List.forall_mem_singleton]

theorem only_intercalate {texts : List String} (hs : Only p s) (ht : ∀ t ∈ texts, Only p t) :
    Only p (s.intercalate texts) := by
  induction texts with
  | nil => exact nofun
  | cons text texts ih =>
    obtain ⟨h, htexts⟩ := List.forall_mem_cons.1 ht
    cases texts with
    | nil =>
      rw [String.intercalate_singleton]
      exact h
    | cons next texts =>
      rw [String.intercalate_cons_cons, only_append, only_append]
      exact ⟨⟨h, hs⟩, ih htexts⟩

end

/-! ### Numerals -/

theorem plain_digits (n : Nat) : ∀ c ∈ Numeral.digits n, IsPlain c := fun c hc =>
  isPlain_of_isDigit ((Numeral.isNumeral_padded 0 n).isDigit c hc)

theorem plain_repr (n : Nat) : Only IsPlain n.repr := only_ofList.2 (plain_digits n)

theorem plain_write (n : Int) : Only IsPlain (Numeral.write n) := by
  rw [Numeral.write, only_ofList]
  split
  · exact List.forall_mem_cons.2 ⟨by decide, plain_digits _⟩
  · exact plain_digits _

@[simp] theorem inline_repr (n : Nat) : Only IsInline n.repr :=
  (plain_repr n).mono fun _ => IsPlain.isInline

@[simp] theorem inline_toString_nat (n : Nat) : Only IsInline (toString n) := inline_repr n

@[simp] theorem inline_write (n : Int) : Only IsInline (Numeral.write n) :=
  (plain_write n).mono fun _ => IsPlain.isInline

theorem exists_digit_of_mem_fixed {width n : Nat} {c : Char} (h : c ∈ Hex.fixed width n) :
    ∃ d < 16, c = Hex.digit d := by
  induction width generalizing n with
  | zero => cases h
  | succ width ih =>
    rw [Hex.fixed] at h
    rcases List.mem_append.1 h with h | h
    · exact ih h
    · exact ⟨n % 16, Nat.mod_lt n (by decide), List.mem_singleton.1 h⟩

theorem plain_fixed (width n : Nat) : ∀ c ∈ Hex.fixed width n, IsPlain c := by
  have hd : ∀ d < 16, IsPlain (Hex.digit d) := by decide
  intro c hc
  obtain ⟨d, hlt, rfl⟩ := exists_digit_of_mem_fixed hc
  exact hd d hlt

@[simp] theorem inline_codePoint (c : Char) : Only IsInline (Hex.codePoint c) := by
  have hd : ∀ d < 16, IsInline (Hex.digit d).toUpper := by decide
  rw [Hex.codePoint, only_append]
  refine ⟨by decide, only_ofList.2 fun u hu => ?_⟩
  obtain ⟨e, he, rfl⟩ := List.mem_map.1 hu
  obtain ⟨d, hlt, rfl⟩ := exists_digit_of_mem_fixed he
  exact hd d hlt

end LispReader.Text
