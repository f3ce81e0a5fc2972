import LispReader.Proofs.Lexis
import LispReader.Proofs.Lines
import LispReader.Report

/-! Where texts cannot be read.

Which characters cannot be read is said here without regard to how a text is cut into tokens: a
character that belongs neither to a gap nor to a token, and the first letter of a run of letters
and digits that begins with a digit. Scanning succeeds just if there is no such offset, and
otherwise reports the first one: `scan_refuses_exactly`. The proof cuts a text where scanning does.
As no run goes across such a place, what is bad in a text is bad in one of its parts:
`bad_append_iff`. -/
namespace LispReader
open Scan

/-! ### Bad offsets -/

/-- The text does not end in a letter or a digit. -/
def Closed (cs : List Char) : Prop := ∀ c ∈ cs.getLast?, c.isAlphanum = false

/-- A run of letters and digits that is continued neither in front nor behind. -/
structure MaximalRun (front run back : List Char) : Prop where
  isAlphanum : ∀ c ∈ run, c.isAlphanum = true
  front : Closed front
  back : Detached back

/-- The character between the two texts is the first letter of a maximal run that begins with a
digit. -/
inductive IsLateLetter : List Char → Char → List Char → Prop
  | mk {front digits rest back : List Char} {c : Char} (numeral : IsNumeral digits)
      (isAlpha : c.isAlpha = true) (run : MaximalRun front (digits ++ c :: rest) back) :
      IsLateLetter (front ++ digits) c (rest ++ back)

/-- The character at the offset cannot be read. -/
def Bad (cs : List Char) (p : Nat) : Prop :=
  ∃ front c back, cs = front ++ c :: back ∧ p = front.length ∧
    (IsStray c ∨ IsLateLetter front c back)

/-- No earlier offset is bad. -/
structure FirstBad (cs : List Char) (p : Nat) : Prop where
  bad : Bad cs p
  le : ∀ q, Bad cs q → p ≤ q

/-! ### Badness is seen from the left -/

/-- Digits, behind which a letter would be a late one. -/
def EndsInNumeral (front : List Char) : Prop :=
  ∃ earlier digits, front = earlier ++ digits ∧ IsNumeral digits ∧ Closed earlier

/-- Whether a character can be read depends on the text in front of it only. -/
def BadBehind (front : List Char) (c : Char) : Prop :=
  IsStray c ∨ c.isAlpha = true ∧ EndsInNumeral front

theorem isLateLetter_iff {front back : List Char} {c : Char} :
    IsLateLetter front c back ↔ c.isAlpha = true ∧ EndsInNumeral front := by
  constructor
  · rintro ⟨numeral, isAlpha, run⟩
    exact ⟨isAlpha, _, _, rfl, numeral, run.front⟩
  · rintro ⟨isAlpha, earlier, digits, rfl, numeral, he⟩
    have hr : ∀ a ∈ back.takeWhile Char.isAlphanum, a.isAlphanum = true := fun a ha =>
      List.all_eq_true.1 List.all_takeWhile a ha
    have hw : ∀ a ∈ digits ++ c :: back.takeWhile Char.isAlphanum, a.isAlphanum = true :=
      List.forall_mem_append.2 ⟨numeral.isAlphanum,
        List.forall_mem_cons.2 ⟨isAlphanum_of_isAlpha isAlpha, hr⟩⟩
    have hb : Detached (back.dropWhile Char.isAlphanum) := head?_dropWhile_eq_false back
    rw [← List.takeWhile_append_dropWhile (p := Char.isAlphanum) (l := back)]
    exact .mk numeral isAlpha ⟨hw, he, hb⟩

theorem bad_iff {cs : List Char} {p : Nat} :
    Bad cs p ↔ ∃ front c back, cs = front ++ c :: back ∧ p = front.length ∧ BadBehind front c := by
  simp only [Bad, BadBehind, isLateLetter_iff]

/-- Only a letter behind digits is bad among letters and digits. -/
theorem BadBehind.isAlpha {front : List Char} {c : Char} (h : BadBehind front c)
    (hc : c.isAlphanum = true) : c.isAlpha = true ∧ EndsInNumeral front := by
  rcases h with h | h
  · exact absurd h.word (by simp [hc])
  · exact h

/-! ### Boundaries -/

/-- No run of letters and digits goes across the place between the two texts. -/
def Boundary (front back : List Char) : Prop := Closed front ∨ Detached back

theorem Closed.of_append {front back : List Char} (h : Closed (front ++ back)) : Closed back :=
  fun c hc => h c (by rw [List.getLast?_append, hc]; rfl)

theorem Closed.append {front back : List Char} (h : Closed back) (hf : back = [] → Closed front) :
    Closed (front ++ back) := by
  cases hb : back.getLast? with
  | none =>
    have hn := List.getLast?_eq_none_iff.1 hb
    rw [hn, List.append_nil]
    exact hf hn
  | some a =>
    intro c hc
    rw [List.getLast?_append, hb] at hc
    exact h c (hb.trans hc)

theorem not_closed_append {front back : List Char} (hn : back ≠ [])
    (h : ∀ c ∈ back, c.isAlphanum = true) : ¬ Closed (front ++ back) := by
  intro hc
  have hl := List.getLast?_eq_some_getLast hn
  have := hc.of_append _ hl
  simp [h _ (List.getLast_mem hn)] at this

theorem not_detached {front back : List Char} {c : Char} (h : ∀ a ∈ front, a.isAlphanum = true)
    (hc : c.isAlphanum = true) : ¬ Detached (front ++ c :: back) := by
  intro hd
  cases front with
  | nil => simp [Detached, hc] at hd
  | cons a front => simp [Detached, h a] at hd

/-- What is in front of a boundary does not matter behind it. -/
theorem endsInNumeral_append_iff {front f b : List Char} {c : Char}
    (h : Boundary front (f ++ c :: b)) (hc : c.isAlpha = true) :
    EndsInNumeral (front ++ f) ↔ EndsInNumeral f := by
  have hc := isAlphanum_of_isAlpha hc
  constructor
  · rintro ⟨earlier, digits, hs, hd, he⟩
    rcases List.append_eq_append_iff.1 hs with ⟨e, rfl, rfl⟩ | ⟨e, rfl, rfl⟩
    · exact ⟨e, digits, rfl, hd, he.of_append⟩
    · obtain ⟨hw, hf⟩ := List.forall_mem_append.1 hd.isAlphanum
      -- The digits would go across the boundary, unless all of them are behind it.
      by_cases hn : e = []
      · subst hn
        exact ⟨[], f, rfl, hd, nofun⟩
      · rcases h with h | h
        · exact absurd h (not_closed_append hn hw)
        · exact absurd h (not_detached hf hc)
  · rintro ⟨earlier, digits, rfl, hd, he⟩
    refine ⟨front ++ earlier, digits, (List.append_assoc ..).symm, hd, he.append ?_⟩
    rintro rfl
    rcases h with h | h
    · exact h
    · exact absurd h (not_detached hd.isAlphanum hc)

theorem badBehind_append_iff {front f b : List Char} {c : Char}
    (h : Boundary front (f ++ c :: b)) : BadBehind (front ++ f) c ↔ BadBehind f c :=
  or_congr_right (and_congr_right (endsInNumeral_append_iff h))

/-- Behind a text without bad offsets, a bad character belongs to the rest. -/
theorem Bad.exists_behind {front back : List Char} {p : Nat} (h : Bad (front ++ back) p)
    (hf : ∀ q, ¬ Bad front q) :
    ∃ f c b, back = f ++ c :: b ∧ p = front.length + f.length ∧ BadBehind (front ++ f) c := by
  obtain ⟨f, c, b, hs, rfl, hb⟩ := bad_iff.1 h
  rcases List.append_eq_append_iff.1 hs with ⟨e, rfl, rfl⟩ | ⟨e, rfl, he⟩
  · exact ⟨e, c, b, rfl, List.length_append, hb⟩
  · cases e with
    | nil => exact ⟨[], c, b, he.symm, by simp, by simpa using hb⟩
    | cons a e =>
      cases he
      exact absurd (bad_iff.2 ⟨f, c, e, rfl, rfl, hb⟩) (hf f.length)

/-- Behind a boundary and a text without bad offsets, the bad offsets are those of the rest. -/
theorem bad_append_iff {front back : List Char} (h : Boundary front back)
    (hf : ∀ q, ¬ Bad front q) {p : Nat} :
    Bad (front ++ back) p ↔ ∃ q, p = front.length + q ∧ Bad back q := by
  constructor
  · intro hp
    obtain ⟨f, c, b, rfl, rfl, hb⟩ := hp.exists_behind hf
    exact ⟨f.length, rfl, bad_iff.2 ⟨f, c, b, rfl, rfl, (badBehind_append_iff h).1 hb⟩⟩
  · rintro ⟨q, rfl, hq⟩
    obtain ⟨f, c, b, rfl, rfl, hb⟩ := bad_iff.1 hq
    exact bad_iff.2 ⟨front ++ f, c, b, (List.append_assoc ..).symm, List.length_append.symm,
      (badBehind_append_iff h).2 hb⟩

theorem firstBad_append {front back : List Char} (h : Boundary front back)
    (hf : ∀ q, ¬ Bad front q) {q : Nat} (hq : FirstBad back q) :
    FirstBad (front ++ back) (front.length + q) where
  bad := (bad_append_iff h hf).2 ⟨q, rfl, hq.bad⟩
  le p hp := by
    obtain ⟨q', rfl, hq'⟩ := (bad_append_iff h hf).1 hp
    exact Nat.add_le_add_left (hq.le q' hq') _

/-! ### Gaps and tokens -/

theorem not_bad_singleton {c : Char} (h : ¬ IsStray c) (q : Nat) : ¬ Bad [c] q := by
  rw [bad_iff]
  rintro ⟨front, c', back, hs, -, hb⟩
  obtain ⟨rfl, hs⟩ | ⟨a, rfl, hs⟩ := List.cons_eq_append_iff.1 hs
  · cases hs
    rcases hb with hb | ⟨-, earlier, digits, he, hd, -⟩
    · exact h hb
    · exact hd.ne_nil (List.append_eq_nil_iff.1 he.symm).2
  · simp at hs

theorem not_bad_gap {c : Char} (h : isGap c = true) (q : Nat) : ¬ Bad [c] q :=
  not_bad_singleton (fun hs => by simp [hs.gap] at h) q

theorem not_bad_glyph {kind : Kind} {c : Char} (h : kind.glyph = some c) (q : Nat) :
    ¬ Bad [c] q := by
  refine not_bad_singleton (fun hs => ?_) q
  have hk := Kind.ofGlyph?_eq_some_iff.2 h
  simp [hs.glyph] at hk

theorem not_bad_numeral {digits : List Char} (h : IsNumeral digits) (q : Nat) :
    ¬ Bad digits q := by
  rw [bad_iff]
  rintro ⟨front, c, back, rfl, -, hb⟩
  have hc : c ∈ front ++ c :: back := by simp
  have ha := (hb.isAlpha (h.isAlphanum c hc)).1
  exact absurd (h.isDigit c hc) (by simp [isDigit_eq_false_of_isAlpha ha])

theorem not_bad_name {name : List Char} (h : IsName name) (q : Nat) : ¬ Bad name q := by
  rw [bad_iff]
  rintro ⟨front, c, back, rfl, -, hb⟩
  obtain ⟨-, earlier, digits, rfl, hd, he⟩ := hb.isAlpha (h.isAlphanum c (by simp))
  -- In front of the digits there is nothing, but a name begins with a letter.
  have hn : earlier = [] := by
    have hw : ∀ a ∈ earlier, a.isAlphanum = true := fun a ha => h.isAlphanum a (by simp [ha])
    exact Classical.byContradiction fun hn => @not_closed_append [] earlier hn hw he
  obtain ⟨d, ds, rfl⟩ := List.exists_cons_of_ne_nil hd.ne_nil
  subst hn
  cases h with
  | mk hc => exact absurd (hd.isDigit d (by simp)) (by simp [isDigit_eq_false_of_isAlpha hc])

theorem not_bad_text {t : Token} (h : t.WellSpelled) (q : Nat) : ¬ Bad t.text.toList q := by
  cases h with
  | glyph hg =>
    rw [Token.toList_text_of_glyph hg]
    exact not_bad_glyph hg q
  | number _ hl hd =>
    rw [Token.toList_text_of_lexeme hl]
    exact not_bad_numeral hd q
  | identifier _ hl hn =>
    rw [Token.toList_text_of_lexeme hl]
    exact not_bad_name hn q

/-- A token ends at a boundary. -/
theorem boundary_text {t : Token} {cs : List Char} (h : t.WellSpelled) (he : t.EndsBefore cs) :
    Boundary t.text.toList cs := by
  cases h with
  | @glyph c hg =>
    refine .inl ?_
    rw [Token.toList_text_of_glyph hg]
    simpa [Closed] using Kind.isAlphanum_glyph hg
  | number hk => exact .inr (he (by rw [hk]; rfl))
  | identifier hk => exact .inr (he (by rw [hk]; rfl))

/-! ### Scanning -/

/-- The fault of a character that cannot be read. -/
def faultOf (c : Char) (position : Position) : LexicalFault :=
  if c.isAlpha then ⟨.letterInNumber, c, position⟩ else faultAt c position

/-- A list of tokens comes from a text without bad offsets, and a fault from the first one. -/
def Accounts (p : Position) (cs : List Char) : Except LexicalFault (List Token) → Prop
  | .ok _ => ∀ q, ¬ Bad cs q
  | .error fault => ∃ front c back, cs = front ++ c :: back ∧ FirstBad cs front.length ∧
      fault = faultOf c (p.along front)

theorem Accounts.append {p : Position} {front back : List Char}
    {r : Except LexicalFault (List Token)} (hb : Boundary front back) (hf : ∀ q, ¬ Bad front q)
    (h : Accounts (p.along front) back r) : Accounts p (front ++ back) r := by
  cases r with
  | ok tokens =>
    intro q hq
    obtain ⟨q', -, hq'⟩ := (bad_append_iff hb hf).1 hq
    exact h q' hq'
  | error fault =>
    obtain ⟨f, c, b, rfl, hfirst, hfault⟩ := h
    refine ⟨front ++ f, c, b, (List.append_assoc ..).symm, ?_, ?_⟩
    · rw [List.length_append]
      exact firstBad_append hb hf hfirst
    · rw [hfault, Position.along_append]

theorem accounts_prepend {p : Position} {cs : List Char} {front : List Token}
    {r : Except LexicalFault (List Token)} :
    Accounts p cs (prepend front r) ↔ Accounts p cs r := by
  cases r <;> rfl

theorem Scan.Reads.accounts {p : Position} {cs : List Char}
    {r : Except LexicalFault (List Token)} (h : Reads p cs r) : Accounts p cs r := by
  induction h with
  | nil p =>
    rintro q ⟨front, c, back, hs, -⟩
    simp at hs
  | @gap p c cs r hg _ ih =>
    have hb : Boundary [c] cs := .inl (by simpa [Closed] using isAlphanum_eq_false_of_isGap hg)
    exact @Accounts.append p [c] cs r hb (not_bad_gap hg) ih
  | token t hs he _ ih =>
    exact accounts_prepend.2 (Accounts.append (boundary_text hs he) (not_bad_text hs) ih)
  | @letter p digits c cs hd hc =>
    refine ⟨digits, c, cs, rfl, ⟨?_, fun q hq => ?_⟩, (if_pos hc).symm⟩
    · exact bad_iff.2 ⟨digits, c, cs, rfl, rfl, .inr ⟨hc, [], digits, rfl, hd, nofun⟩⟩
    · obtain ⟨f, _, _, -, rfl, -⟩ := hq.exists_behind (not_bad_numeral hd)
      exact Nat.le_add_right _ _
  | @stray p c cs hc =>
    have ha : ¬ c.isAlpha = true := fun ha =>
      absurd hc.word (by simp [isAlphanum_of_isAlpha ha])
    refine ⟨[], c, cs, rfl, ⟨⟨[], c, cs, rfl, rfl, .inl hc⟩, fun q _ => Nat.zero_le q⟩, ?_⟩
    exact (if_neg ha).symm

/-! ### Reports -/

/-- The report tells of a character behind a text: which one it is, in which line and column it
stands, and, by a code and a hint that the character decides, why it cannot be read. -/
structure LexicalReport.TellsOf (report : LexicalReport) (front : List Char) (c : Char) :
    Prop where
  char : report.char = c.toString
  line : report.line = (1 + front.count '\n' : Nat)
  column : report.column = (front.length - lineStart front + 1 : Nat)
  code : report.code =
    if c.isAlpha then "malformed-number" else
      if c = '-' then "hyphen-minus" else "unexpected-character"
  hint : report.hint = if c = '-' then some "use '−' (U+2212) for subtraction" else none

theorem tellsOf_faultOf (c : Char) {p : Position} {front : List Char} (h : p.IsBehind front) :
    (faultOf c p).report.TellsOf front c := by
  by_cases ha : c.isAlpha = true
  · have hc : c ≠ '-' := by
      rintro rfl
      exact absurd ha (by decide)
    rw [faultOf, if_pos ha]
    exact ⟨rfl, congrArg Nat.cast h.line, congrArg Nat.cast h.column, (if_pos ha).symm,
      (if_neg hc).symm⟩
  · rw [faultOf, if_neg ha, faultAt]
    by_cases hc : c = '-'
    · rw [if_pos hc]
      exact ⟨rfl, congrArg Nat.cast h.line, congrArg Nat.cast h.column,
        by rw [if_neg ha, if_pos hc]; rfl, (if_pos hc).symm⟩
    · rw [if_neg hc]
      exact ⟨rfl, congrArg Nat.cast h.line, congrArg Nat.cast h.column,
        by rw [if_neg ha, if_neg hc]; rfl, (if_neg hc).symm⟩

/-- A text is scanned just if no offset in it is bad; otherwise the first bad offset is reported,
with its character, its line and column, and the reason. -/
theorem scan_refuses_exactly (source : String) :
    ((∃ tokens, scan source = .ok tokens) ↔ ∀ p, ¬ Bad source.toList p) ∧
      ((∃ p, Bad source.toList p) → ∃ p c fault, FirstBad source.toList p ∧
        source.toList[p]? = some c ∧ scan source = .error fault ∧
        fault.report.TellsOf (source.toList.take p) c) := by
  have h := (scan_eq_iff.1 (rfl : scan source = scan source)).accounts
  cases hs : scan source with
  | ok tokens =>
    rw [hs] at h
    exact ⟨⟨fun _ => h, fun _ => ⟨tokens, rfl⟩⟩, fun ⟨p, hp⟩ => absurd hp (h p)⟩
  | error fault =>
    rw [hs] at h
    obtain ⟨front, c, back, hsplit, hfirst, rfl⟩ := h
    refine ⟨⟨nofun, fun hn => absurd hfirst.bad (hn _)⟩, fun _ =>
      ⟨front.length, c, _, hfirst, ?_, rfl, ?_⟩⟩
    · simp [hsplit]
    · rw [hsplit, List.take_left]
      exact tellsOf_faultOf c (Position.isBehind_along front)

/-- A letter behind digits, in the second line. -/
def lateLetter : String := "(+ 1\n 2b)"

theorem scan_refuses_lateLetter :
    Bad lateLetter.toList 7 ∧ ∃ p c fault, FirstBad lateLetter.toList p ∧
      lateLetter.toList[p]? = some c ∧ scan lateLetter = .error fault ∧
      fault.report.TellsOf (lateLetter.toList.take p) c := by
  have hn : EndsInNumeral ['(', '+', ' ', '1', '\n', ' ', '2'] :=
    ⟨['(', '+', ' ', '1', '\n', ' '], ['2'], rfl, ⟨nofun, List.forall_mem_singleton.2 rfl⟩,
      by simp [Closed]⟩
  have hb : Bad lateLetter.toList 7 := bad_iff.2 ⟨_, 'b', [')'], rfl, rfl, .inr ⟨rfl, hn⟩⟩
  exact ⟨hb, (scan_refuses_exactly lateLetter).2 ⟨7, hb⟩⟩

end LispReader
