import LispReader.Text.Hex

/-! Strict decoding of UTF-8.

A sequence is a lead byte and up to three continuation bytes. The lead byte fixes their number
and the interval of the first of them, which rules out overlong forms, surrogates and code
points above U+10FFFF. Decoding stops at the first byte that breaks a sequence; a fault covers
the well-formed start of that sequence, at least its lead byte. -/
namespace LispReader.Text.Utf8

/-- Why a sequence is not well formed. -/
inductive Reason where
  | startByte
  | continuationByte
  | endOfData
  deriving DecidableEq, Repr

/-- The sequence that could not be decoded: its offset, its lead byte and the number of bytes
that belong to it. -/
structure Fault where
  offset : Nat
  lead : UInt8
  length : Nat
  reason : Reason
  deriving DecidableEq, Repr

def Reason.text : Reason → String
  | .startByte => "invalid start byte"
  | .continuationByte => "invalid continuation byte"
  | .endOfData => "unexpected end of data"

def Fault.message (f : Fault) : String :=
  let place :=
    if f.length = 1 then
      s!"byte 0x{String.ofList (Hex.fixed 2 f.lead.toNat)} in position {f.offset}"
    else s!"bytes in position {f.offset}-{f.offset + f.length - 1}"
  s!"'utf-8' codec can't decode {place}: {f.reason.text}"

/-- What a lead byte announces: the bits it contributes, the interval of the byte behind it and
the number of continuation bytes. -/
structure Lead where
  bits : Nat
  low : Nat
  high : Nat
  count : Nat

def lead? (b : UInt8) : Option Lead :=
  let n := b.toNat
  if n < 0x80 then some ⟨n, 0x80, 0xBF, 0⟩
  else if n < 0xC2 then none
  else if n < 0xE0 then some ⟨n - 0xC0, 0x80, 0xBF, 1⟩
  else if n = 0xE0 then some ⟨0, 0xA0, 0xBF, 2⟩
  else if n = 0xED then some ⟨0xD, 0x80, 0x9F, 2⟩
  else if n < 0xF0 then some ⟨n - 0xE0, 0x80, 0xBF, 2⟩
  else if n = 0xF0 then some ⟨0, 0x90, 0xBF, 3⟩
  else if n < 0xF4 then some ⟨n - 0xF0, 0x80, 0xBF, 3⟩
  else if n = 0xF4 then some ⟨4, 0x80, 0x8F, 3⟩
  else none

/-- Reads `count` continuation bytes, the first of them between `low` and `high`. Gives the code
point and the bytes behind it, or the number of bytes read and the reason to stop. -/
def continuation (bits low high read : Nat) :
    Nat → List UInt8 → Except (Nat × Reason) (Nat × List UInt8)
  | 0, bytes => .ok (bits, bytes)
  | _ + 1, [] => .error (read, .endOfData)
  | count + 1, b :: bytes =>
    if low ≤ b.toNat ∧ b.toNat ≤ high then
      continuation (64 * bits + (b.toNat - 0x80)) 0x80 0xBF (read + 1) count bytes
    else .error (read, .continuationByte)

theorem length_of_continuation {bits low high read count n : Nat} {bytes rest : List UInt8}
    (h : continuation bits low high read count bytes = .ok (n, rest)) :
    rest.length ≤ bytes.length := by
  fun_induction continuation bits low high read count bytes with
  | case1 => cases h; exact Nat.le_refl _
  | case2 => cases h
  | case3 _ _ _ _ _ _ _ _ ih => exact Nat.le_succ_of_le (ih h)
  | case4 => cases h

/-- Decodes bytes that begin at the given offset; `done` holds the characters before them, the
last one first. -/
def decodeFrom (offset : Nat) (done : List Char) (bytes : List UInt8) :
    Except Fault (List Char) :=
  match bytes with
  | [] => .ok done.reverse
  | b :: bytes =>
    match lead? b with
    | none => .error ⟨offset, b, 1, .startByte⟩
    | some lead =>
      match h : continuation lead.bits lead.low lead.high 1 lead.count bytes with
      | .error (read, reason) => .error ⟨offset, b, read, reason⟩
      | .ok (n, rest) =>
        have : rest.length < (b :: bytes).length :=
          Nat.lt_succ_of_le (length_of_continuation h)
        decodeFrom (offset + 1 + lead.count) (Char.ofNat n :: done) rest
termination_by bytes.length
decreasing_by assumption

/-- The text that the bytes encode. -/
def decode (bytes : List UInt8) : Except Fault String :=
  (decodeFrom 0 [] bytes).map String.ofList

example : (decode [0x41, 0xCE, 0xBB]).toOption = some "Aλ" := by decide +kernel
example : (decode [0x41, 0xE2, 0x82]) = .error ⟨1, 0xE2, 2, .endOfData⟩ := by cbv

end LispReader.Text.Utf8
