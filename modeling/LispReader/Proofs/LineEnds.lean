import LispReader.Proofs.Displacement
import LispReader.Proofs.Spans

/-! Line ends.

White space in front of a line feed belongs to a gap, and the line feed sets the column back to one
whatever was in front of it. So white space at the ends of lines moves nothing. In particular a text
whose lines end in a carriage return and a line feed is scanned like the one whose lines end in the
line feed alone: `scan_withReturns`. -/
namespace LispReader

/-- The text with further characters in front of each of its line feeds. -/
def padLines (padding cs : List Char) : List Char :=
  cs.flatMap fun c => if c = '\n' then padding ++ ['\n'] else [c]

/-- The text with a carriage return in front of each of its line feeds. -/
def withReturns (source : String) : String := String.ofList (padLines ['\r'] source.toList)

example : withReturns "a\n\r\nb" = "a\r\n\r\r\nb" := by decide

variable {padding : List Char}

theorem padLines_newline (cs : List Char) :
    padLines padding ('\n' :: cs) = (padding ++ ['\n']) ++ padLines padding cs := rfl

theorem padLines_cons {c : Char} (h : c ≠ '\n') (cs : List Char) :
    padLines padding (c :: cs) = c :: padLines padding cs := by
  rw [padLines, List.flatMap_cons, if_neg h]
  rfl

theorem padLines_append {front : List Char} (h : '\n' ∉ front) (back : List Char) :
    padLines padding (front ++ back) = front ++ padLines padding back := by
  induction front with
  | nil => rfl
  | cons c front ih =>
    obtain ⟨hc, hf⟩ := List.ne_and_not_mem_of_not_mem_cons h
    rw [List.cons_append, padLines_cons hc.symm, ih hf, List.cons_append]

/-- Padding is not seen behind the line feed. -/
theorem Position.along_padding (h : '\n' ∉ padding) (p : Position) :
    p.along (padding ++ ['\n']) = p.after '\n' := by
  rw [along_append, along_eq_right h]
  rfl

namespace Scan

/-- Padding of white space within the line, which belongs to gaps and ends no line. -/
structure IsPadding (padding : List Char) : Prop where
  isGap : ∀ c ∈ padding, isGap c = true
  not_mem : '\n' ∉ padding

theorem IsPadding.detached (h : IsPadding padding) {cs : List Char} (hcs : Detached cs) :
    Detached (padLines padding cs) := by
  cases cs with
  | nil => exact detached_nil
  | cons c cs =>
    by_cases hn : c = '\n'
    · rw [hn, padLines_newline, List.append_assoc]
      exact (detached_of_gaps h.isGap).append (detached_cons rfl _)
    · rw [padLines_cons hn]
      exact hcs

/-- With padded lines, a text is read with the same result. -/
theorem Reads.padLines (h : IsPadding padding) {p : Position} {cs : List Char}
    {r : Except LexicalFault (List Token)} (hr : Reads p cs r) :
    Reads p (padLines padding cs) r := by
  induction hr with
  | nil p => exact .nil p
  | @gap p c cs r hg _ ih =>
    by_cases hn : c = '\n'
    · subst hn
      rw [padLines_newline]
      apply Reads.gaps
      · exact List.forall_mem_append.2 ⟨h.isGap, List.forall_mem_singleton.2 hg⟩
      · rw [Position.along_padding h.not_mem]
        exact ih
    · rw [padLines_cons hn]
      exact .gap hg ih
  | token t hs he _ ih =>
    rw [padLines_append hs.not_mem_text]
    exact .token t hs (fun hl => h.detached (he hl)) ih
  | @letter p digits c cs hd hc =>
    have hn : '\n' ∉ digits := fun hm => absurd (hd.isDigit _ hm) (by decide)
    have hcn : c ≠ '\n' := by
      intro he
      subst he
      exact absurd hc (by decide)
    rw [padLines_append hn, padLines_cons hcn]
    exact .letter p _ hd hc
  | @stray p c cs hc =>
    have hn : c ≠ '\n' := by
      intro he
      subst he
      exact absurd hc.gap (by decide)
    rw [padLines_cons hn]
    exact .stray p _ hc

theorem isPadding_return : IsPadding ['\r'] where
  isGap := List.forall_mem_singleton.2 rfl
  not_mem := by decide

end Scan

/-- With a carriage return in front of each line feed, a text has the same tokens at the same lines
and columns, its end of input included, or it has the same fault at the same place. -/
theorem scan_withReturns (source : String) : scan (withReturns source) = scan source := by
  have hr := (Scan.scan_eq_iff.1 (rfl : scan source = scan source)).padLines Scan.isPadding_return
  apply Scan.scan_eq_iff.2
  rw [withReturns, String.toList_ofList]
  exact hr

end LispReader
