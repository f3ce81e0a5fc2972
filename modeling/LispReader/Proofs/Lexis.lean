import LispReader.Token.Scan

/-! The lexical structure of texts.

What scanning does at a place of a text is described by one relation, `Scan.Reads`, with a
constructor for each thing that can stand there: a character of a gap, a token, a letter behind
digits, or a character that belongs to nothing. Scanning has just the results that this relation
gives: `scan_eq_iff`. What holds of all texts is proved by induction on the relation, and what a
given text is read as by applying its constructors. -/
namespace LispReader

/-! ### Words -/

/-- One digit or more. -/
structure IsNumeral (cs : List Char) : Prop where
  ne_nil : cs ≠ []
  isDigit : ∀ c ∈ cs, c.isDigit = true

/-- A letter, and any number of letters and digits behind it. -/
inductive IsName : List Char → Prop
  | mk {c : Char} {cs : List Char} (isAlpha : c.isAlpha = true)
      (isAlphanum : ∀ d ∈ cs, d.isAlphanum = true) : IsName (c :: cs)

instance : DecidablePred IsName
  | [] => .isFalse nofun
  | c :: cs =>
    decidable_of_iff (c.isAlpha = true ∧ cs.all Char.isAlphanum = true)
      ⟨fun h => .mk h.1 (List.all_eq_true.1 h.2), fun | .mk hc hcs => ⟨hc, List.all_eq_true.2 hcs⟩⟩

theorem isAlphanum_of_isDigit {c : Char} (h : c.isDigit = true) : c.isAlphanum = true := by
  simp [Char.isAlphanum, h]

theorem isAlphanum_of_isAlpha {c : Char} (h : c.isAlpha = true) : c.isAlphanum = true := by
  simp [Char.isAlphanum, h]

theorem isAlpha_eq_false_of_isDigit {c : Char} (h : c.isDigit = true) : c.isAlpha = false := by
  have hd : c.val ≤ 57 := by
    have := (Char.isDigit_iff_toNat.1 h).2
    exact UInt32.le_iff_toNat_le.2 this
  show (decide (c.val ≥ 65 ∧ c.val ≤ 90) || (c.val ≥ 97 && c.val ≤ 122)) = false
  grind

theorem isDigit_eq_false_of_isAlpha {c : Char} (h : c.isAlpha = true) : c.isDigit = false := by
  cases hd : c.isDigit with
  | false => rfl
  | true => simp [isAlpha_eq_false_of_isDigit hd] at h

theorem IsNumeral.isAlphanum {cs : List Char} (h : IsNumeral cs) :
    ∀ c ∈ cs, c.isAlphanum = true :=
  fun c hc => isAlphanum_of_isDigit (h.isDigit c hc)

theorem IsName.isAlphanum {cs : List Char} (h : IsName cs) : ∀ c ∈ cs, c.isAlphanum = true := by
  cases h with
  | mk hc hcs => exact List.forall_mem_cons.2 ⟨isAlphanum_of_isAlpha hc, hcs⟩

/-- No glyph belongs to a word. -/
theorem Kind.isAlphanum_glyph {kind : Kind} {c : Char} (h : kind.glyph = some c) :
    c.isAlphanum = false := by
  revert h
  cases kind <;> simp only [glyph, Option.some.injEq, reduceCtorEq, false_implies] <;>
    rintro rfl <;> decide

theorem Kind.ofGlyph?_eq_none {c : Char} (h : c.isAlphanum = true) : ofGlyph? c = none := by
  refine Option.eq_none_iff_forall_ne_some.2 fun kind hk => ?_
  simp [isAlphanum_glyph (ofGlyph?_eq_some_iff.1 hk)] at h

theorem Kind.isGap_glyph {kind : Kind} {c : Char} (h : kind.glyph = some c) :
    Scan.isGap c = false := by
  revert h
  cases kind <;> simp only [glyph, Option.some.injEq, reduceCtorEq, false_implies] <;>
    rintro rfl <;> decide

theorem Scan.isAlphanum_eq_false_of_isGap {c : Char} (h : isGap c = true) :
    c.isAlphanum = false := by
  simp only [isGap, Bool.or_eq_true, beq_iff_eq] at h
  rcases h with ((rfl | rfl) | rfl) | rfl <;> decide

theorem Scan.isGap_eq_false {c : Char} (h : c.isAlphanum = true) : isGap c = false := by
  cases hg : isGap c with
  | false => rfl
  | true => simp [isAlphanum_eq_false_of_isGap hg] at h

/-- The text does not begin with a letter or a digit. -/
def Detached (cs : List Char) : Prop := ∀ c ∈ cs.head?, c.isAlphanum = false

theorem detached_nil : Detached [] := by simp [Detached]

theorem detached_cons {c : Char} (h : c.isAlphanum = false) (cs : List Char) :
    Detached (c :: cs) := by
  simpa [Detached] using h

theorem Detached.append {cs cs' : List Char} (h : Detached cs) (h' : Detached cs') :
    Detached (cs ++ cs') := by
  cases cs with
  | nil => exact h'
  | cons c cs => exact h

/-! ### Tokens as they are written -/

namespace Token

/-- A token that a text can contain: a glyph, or a number or an identifier with a fitting
lexeme. -/
inductive WellSpelled (t : Token) : Prop
  | glyph {c : Char} (glyph : t.kind.glyph = some c)
  | number {digits : List Char} (kind : t.kind = .number)
      (lexeme : t.lexeme = some (String.ofList digits)) (numeral : IsNumeral digits)
  | identifier {name : List Char} (kind : t.kind = .identifier)
      (lexeme : t.lexeme = some (String.ofList name)) (isName : IsName name)

/-- Nothing in the text behind a number or an identifier continues it. -/
def EndsBefore (t : Token) (cs : List Char) : Prop := t.kind.carriesLexeme = true → Detached cs

variable {t : Token}

theorem toList_text_of_glyph {c : Char} (h : t.kind.glyph = some c) : t.text.toList = [c] := by
  have hl : t.lexeme = none := by
    rw [← Option.isNone_iff_eq_none, ← Option.not_isSome, t.isSome_lexeme,
      Kind.carriesLexeme_of_glyph h]
    rfl
  simp [text, hl, h]

theorem toList_text_of_lexeme {cs : List Char} (h : t.lexeme = some (String.ofList cs)) :
    t.text.toList = cs := by
  simp [text, h]

/-- The end of input is not written. -/
theorem WellSpelled.kind_ne (h : t.WellSpelled) : t.kind ≠ .endOfInput := by
  intro he
  cases h with
  | glyph hg => simp [he, Kind.glyph] at hg
  | number hk => simp [he] at hk
  | identifier hk => simp [he] at hk

theorem WellSpelled.isNumeral {lexeme : String} (h : t.WellSpelled)
    (hk : t.kind = .number) (hl : t.lexeme = some lexeme) : IsNumeral lexeme.toList := by
  cases h with
  | glyph hg => simp [hk, Kind.glyph] at hg
  | number _ hx hd =>
    cases hl.symm.trans hx
    rwa [String.toList_ofList]
  | identifier hk' => cases hk.symm.trans hk'

theorem WellSpelled.isName {lexeme : String} (h : t.WellSpelled)
    (hk : t.kind = .identifier) (hl : t.lexeme = some lexeme) : IsName lexeme.toList := by
  cases h with
  | glyph hg => simp [hk, Kind.glyph] at hg
  | number hk' => cases hk.symm.trans hk'
  | identifier _ hx hn =>
    cases hl.symm.trans hx
    rwa [String.toList_ofList]

end Token

namespace Scan

/-- The character belongs neither to a gap nor to a token. -/
structure IsStray (c : Char) : Prop where
  gap : isGap c = false
  glyph : Kind.ofGlyph? c = none
  word : c.isAlphanum = false

/-- A result with further tokens in front. -/
def prepend (front : List Token) (r : Except LexicalFault (List Token)) :
    Except LexicalFault (List Token) := r.map (front ++ ·)

@[simp] theorem prepend_ok (front tokens : List Token) :
    prepend front (.ok tokens) = .ok (front ++ tokens) := rfl

@[simp] theorem prepend_error (front : List Token) (fault : LexicalFault) :
    prepend front (.error fault) = .error fault := rfl

@[simp] theorem prepend_nil (r : Except LexicalFault (List Token)) : prepend [] r = r := by
  cases r <;> rfl

@[simp] theorem prepend_prepend (front middle : List Token)
    (r : Except LexicalFault (List Token)) :
    prepend front (prepend middle r) = prepend (front ++ middle) r := by
  cases r <;> simp

/-- From a position on, the text is read with a result. -/
inductive Reads : Position → List Char → Except LexicalFault (List Token) → Prop
  | nil (p : Position) : Reads p [] (.ok [Token.endOfInput p])
  | gap {p : Position} {c : Char} {cs : List Char} {r : Except LexicalFault (List Token)}
      (isGap : isGap c = true) (rest : Reads (p.after c) cs r) : Reads p (c :: cs) r
  | token (t : Token) {cs : List Char} {r : Except LexicalFault (List Token)}
      (spelled : t.WellSpelled) (ends : t.EndsBefore cs)
      (rest : Reads (t.position.along t.text.toList) cs r) :
      Reads t.position (t.text.toList ++ cs) (prepend [t] r)
  | letter (p : Position) {digits : List Char} {c : Char} (cs : List Char)
      (numeral : IsNumeral digits) (isAlpha : c.isAlpha = true) :
      Reads p (digits ++ c :: cs) (.error ⟨.letterInNumber, c, p.along digits⟩)
  | stray (p : Position) {c : Char} (cs : List Char) (isStray : IsStray c) :
      Reads p (c :: cs) (.error (faultAt c p))

/-! ### Steps of scanning -/

/-- A run that stops in front of a text is taken and dropped as a whole. -/
theorem span_append {α : Type} {q : α → Bool} {front back : List α}
    (hf : ∀ a ∈ front, q a = true) (hb : ∀ a ∈ back.head?, q a = false) :
    (front ++ back).takeWhile q = front ∧ (front ++ back).dropWhile q = back := by
  rw [List.takeWhile_append_of_pos hf, List.dropWhile_append_of_pos hf]
  cases back with
  | nil => simp
  | cons a back => simp [hb a rfl]

section

variable {p : Position} {done : List Token} {c : Char} {cs : List Char}

theorem scanFrom_gap (h : isGap c = true) :
    scanFrom p done (c :: cs) = scanFrom (p.after c) done cs := by
  rw [scanFrom, if_pos h]

theorem scanFrom_stray (h : IsStray c) :
    scanFrom p done (c :: cs) = .error (faultAt c p) := by
  have hw : c.isAlpha = false ∧ c.isDigit = false := by simpa [Char.isAlphanum] using h.word
  rw [scanFrom, if_neg (by simp [h.gap])]
  split
  · next kind hk => simp [h.glyph] at hk
  · rw [if_neg (by simp [hw.2]), if_neg (by simp [hw.1])]

theorem scanFrom_glyph {kind : Kind} (h : kind.glyph = some c) :
    scanFrom p done (c :: cs) =
      scanFrom (p.after c) (Token.bare kind p (Kind.carriesLexeme_of_glyph h) :: done) cs := by
  have hk := Kind.ofGlyph?_eq_some_iff.2 h
  rw [scanFrom, if_neg (by simp [Kind.isGap_glyph h])]
  split
  · next kind' hk' =>
    cases hk.symm.trans hk'
    rfl
  · next hn => simp [hk] at hn

/-- A word is neither a gap nor a glyph. -/
theorem scanFrom_word (h : c.isAlphanum = true) :
    scanFrom p done (c :: cs) =
      if c.isDigit then
        match (cs.dropWhile Char.isDigit).head?.filter Char.isAlpha with
        | some letter =>
          .error ⟨.letterInNumber, letter, p.along (c :: cs.takeWhile Char.isDigit)⟩
        | none =>
          scanFrom (p.along (c :: cs.takeWhile Char.isDigit))
            (Token.number (String.ofList (c :: cs.takeWhile Char.isDigit)) p :: done)
            (cs.dropWhile Char.isDigit)
      else
        scanFrom (p.along (c :: cs.takeWhile Char.isAlphanum))
          (Token.identifier (String.ofList (c :: cs.takeWhile Char.isAlphanum)) p :: done)
          (cs.dropWhile Char.isAlphanum) := by
  rw [scanFrom, if_neg (by simp [isGap_eq_false h])]
  split
  · next kind hk => simp [Kind.ofGlyph?_eq_none h] at hk
  · by_cases hd : c.isDigit
    · rw [if_pos hd]
      exact (if_pos hd).symm
    · have ha : c.isAlpha = true := by simpa [Char.isAlphanum, hd] using h
      rw [if_neg hd, if_neg hd, if_pos ha]

theorem scanFrom_number {digits : List Char} (h : IsNumeral digits) (hcs : Detached cs) :
    scanFrom p done (digits ++ cs) =
      scanFrom (p.along digits) (Token.number (String.ofList digits) p :: done) cs := by
  obtain ⟨d, ds, rfl⟩ := List.exists_cons_of_ne_nil h.ne_nil
  obtain ⟨hd, hds⟩ := List.forall_mem_cons.1 h.isDigit
  have hw : ∀ c ∈ cs.head?, c.isAlpha = false ∧ c.isDigit = false := fun c hc => by
    simpa [Char.isAlphanum] using hcs c hc
  obtain ⟨ht, hr⟩ := span_append hds fun c hc => (hw c hc).2
  have hn : cs.head?.filter Char.isAlpha = none :=
    Option.filter_eq_none_iff.2 fun c hc => by simp [(hw c hc).1]
  rw [List.cons_append, scanFrom_word (isAlphanum_of_isDigit hd), if_pos hd, ht, hr, hn]

theorem scanFrom_letter {digits : List Char} (h : IsNumeral digits) (hc : c.isAlpha = true) :
    scanFrom p done (digits ++ c :: cs) = .error ⟨.letterInNumber, c, p.along digits⟩ := by
  obtain ⟨d, ds, rfl⟩ := List.exists_cons_of_ne_nil h.ne_nil
  obtain ⟨hd, hds⟩ := List.forall_mem_cons.1 h.isDigit
  have hh : ∀ a ∈ (c :: cs).head?, a.isDigit = false := by
    simpa using isDigit_eq_false_of_isAlpha hc
  obtain ⟨ht, hr⟩ := span_append hds hh
  have hs : (c :: cs).head?.filter Char.isAlpha = some c := by simp [hc]
  rw [List.cons_append, scanFrom_word (isAlphanum_of_isDigit hd), if_pos hd, ht, hr, hs]

theorem scanFrom_identifier {name : List Char} (h : IsName name) (hcs : Detached cs) :
    scanFrom p done (name ++ cs) =
      scanFrom (p.along name) (Token.identifier (String.ofList name) p :: done) cs := by
  cases h with
  | @mk c rest hc hrest =>
    obtain ⟨ht, hr⟩ := span_append hrest hcs
    have hd : ¬ c.isDigit = true := by simp [isDigit_eq_false_of_isAlpha hc]
    rw [List.cons_append, scanFrom_word (isAlphanum_of_isAlpha hc), if_neg hd, ht, hr]

end

/-- A token that nothing continues is read from its text. -/
theorem scanFrom_token {t : Token} {done : List Token} {cs : List Char} (h : t.WellSpelled)
    (hcs : t.EndsBefore cs) :
    scanFrom t.position done (t.text.toList ++ cs) =
      scanFrom (t.position.along t.text.toList) (t :: done) cs := by
  obtain ⟨kind, lexeme, position, hl⟩ := t
  cases h with
  | glyph hg =>
    have hn : lexeme = none := by
      rw [Kind.carriesLexeme_of_glyph hg] at hl
      simpa using hl
    subst hn
    rw [Token.toList_text_of_glyph hg]
    exact scanFrom_glyph hg
  | number hk hx hd =>
    cases hk
    cases hx
    rw [Token.toList_text_of_lexeme rfl]
    exact scanFrom_number hd (hcs rfl)
  | identifier hk hx hn =>
    cases hk
    cases hx
    rw [Token.toList_text_of_lexeme rfl]
    exact scanFrom_identifier hn (hcs rfl)

/-! ### Scanning and the relation -/

theorem Reads.scanFrom_eq {p : Position} {cs : List Char}
    {r : Except LexicalFault (List Token)} (h : Reads p cs r) (done : List Token) :
    scanFrom p done cs = prepend done.reverse r := by
  induction h generalizing done with
  | nil p => simp [scanFrom]
  | gap hc _ ih => rw [scanFrom_gap hc, ih]
  | token t hs he _ ih => rw [scanFrom_token hs he, ih]; simp
  | letter p cs hd hc => rw [scanFrom_letter hd hc, prepend_error]
  | stray p cs hc => rw [scanFrom_stray hc, prepend_error]

section

variable {p : Position} {c : Char} {cs : List Char} {r : Except LexicalFault (List Token)}

theorem Reads.of_text (t : Token) {text : List Char} (ht : t.text.toList = text)
    (hs : t.WellSpelled) (he : t.EndsBefore cs) (rest : Reads (t.position.along text) cs r) :
    Reads t.position (text ++ cs) (prepend [t] r) := by
  subst ht
  exact .token t hs he rest

theorem Reads.glyph {kind : Kind} (h : kind.glyph = some c) (rest : Reads (p.after c) cs r) :
    Reads p (c :: cs) (prepend [Token.bare kind p (Kind.carriesLexeme_of_glyph h)] r) := by
  have he : (Token.bare kind p (Kind.carriesLexeme_of_glyph h)).EndsBefore cs := fun hl => by
    simp [Token.bare, Kind.carriesLexeme_of_glyph h] at hl
  exact .of_text _ (Token.toList_text_of_glyph h) (.glyph h) he rest

theorem Reads.number {digits : List Char} (h : IsNumeral digits) (hcs : Detached cs)
    (rest : Reads (p.along digits) cs r) :
    Reads p (digits ++ cs) (prepend [Token.number (String.ofList digits) p] r) :=
  .of_text (Token.number _ p) (Token.toList_text_of_lexeme rfl) (.number rfl rfl h) (fun _ => hcs)
    rest

theorem Reads.identifier {name : List Char} (h : IsName name) (hcs : Detached cs)
    (rest : Reads (p.along name) cs r) :
    Reads p (name ++ cs) (prepend [Token.identifier (String.ofList name) p] r) :=
  .of_text (Token.identifier _ p) (Token.toList_text_of_lexeme rfl) (.identifier rfl rfl h)
    (fun _ => hcs) rest

end

/-- Where a run stops there is no character of its class. -/
theorem head?_dropWhile_eq_false {α : Type} {q : α → Bool} (l : List α) :
    ∀ a ∈ (l.dropWhile q).head?, q a = false := by
  intro a ha
  have h := List.head?_dropWhile_not q l
  rw [ha] at h
  exact h

theorem isNumeral_span {c : Char} (h : c.isDigit = true) (cs : List Char) :
    IsNumeral (c :: cs.takeWhile Char.isDigit) where
  ne_nil := nofun
  isDigit := List.forall_mem_cons.2 ⟨h, fun d hd => List.all_eq_true.1 List.all_takeWhile d hd⟩

theorem isName_span {c : Char} (h : c.isAlpha = true) (cs : List Char) :
    IsName (c :: cs.takeWhile Char.isAlphanum) :=
  .mk h fun d hd => List.all_eq_true.1 List.all_takeWhile d hd

/-- Every text is read; the splits are those that scanning makes. -/
theorem exists_reads (p : Position) (cs : List Char) : ∃ r, Reads p cs r := by
  suffices h : ∀ done : List Token, ∃ r, Reads p cs r from h []
  intro done
  fun_induction scanFrom p done cs with
  | case1 p => exact ⟨_, .nil p⟩
  | case2 p _ c cs hg ih =>
    obtain ⟨r, hr⟩ := ih
    exact ⟨r, .gap hg hr⟩
  | case3 p _ c cs _ kind hk _ ih =>
    obtain ⟨r, hr⟩ := ih
    exact ⟨_, .glyph (Kind.ofGlyph?_eq_some_iff.1 hk) hr⟩
  | case4 p _ c cs _ _ hd _ rest letter hl =>
    obtain ⟨hr, ha⟩ := Option.filter_eq_some_iff.1 hl
    obtain ⟨cs', hcs⟩ := List.head?_eq_some_iff.1 hr
    have hs : c :: cs = (c :: cs.takeWhile Char.isDigit) ++ letter :: cs' := by
      rw [← hcs, List.cons_append, List.takeWhile_append_dropWhile]
    rw [hs]
    exact ⟨_, .letter p cs' (isNumeral_span hd cs) ha⟩
  | case5 p _ c cs _ _ hd digits rest _ hl ih =>
    obtain ⟨r, hr⟩ := ih
    have hs : c :: cs = digits ++ rest := by
      rw [List.cons_append, List.takeWhile_append_dropWhile]
    have hrest : Detached rest := fun a ha => by
      have hn := Option.filter_eq_none_iff.1 hl a ha
      simpa [Char.isAlphanum, head?_dropWhile_eq_false cs a ha] using hn
    rw [hs]
    exact ⟨_, .number (isNumeral_span hd cs) hrest hr⟩
  | case6 p _ c cs _ _ _ ha letters rest _ ih =>
    obtain ⟨r, hr⟩ := ih
    have hs : c :: cs = letters ++ rest := by
      rw [List.cons_append, List.takeWhile_append_dropWhile]
    rw [hs]
    exact ⟨_, .identifier (isName_span ha cs) (head?_dropWhile_eq_false cs) hr⟩
  | case7 p _ c cs hg hk hd ha =>
    exact ⟨_, .stray p cs ⟨by simpa using hg, hk, by simp [Char.isAlphanum, hd, ha]⟩⟩

/-- The results of scanning are those that the relation gives. -/
theorem scan_eq_iff {source : String} {r : Except LexicalFault (List Token)} :
    scan source = r ↔ Reads .start source.toList r := by
  constructor
  · rintro rfl
    obtain ⟨r, hr⟩ := exists_reads .start source.toList
    have hs : scan source = r := by simpa [scan] using hr.scanFrom_eq []
    rw [hs]
    exact hr
  · intro h
    simpa [scan] using h.scanFrom_eq []

end Scan

end LispReader
