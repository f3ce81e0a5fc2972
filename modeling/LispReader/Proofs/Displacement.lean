import LispReader.Proofs.Characters
import LispReader.Proofs.LexicalFaults
import LispReader.Proofs.Layout

/-! Texts inside of longer texts.

What is read of a text does not depend on what stands in front of it, as long as no word goes across
the place where it begins: with the position of its first character all positions move along, and
nothing else changes (`Scan.Reads.move`). Behind the text, reading goes on where it ended, unless it
found a fault (`Scan.Reads.append`). So a text with gaps around it is read as it is without them,
but further to the right: `Surrounded.indented`. -/
namespace LispReader
open List (Forall₂)

/-! ### Moved positions -/

namespace Position

/-- Along this text positions keep their distance. -/
def Carries (σ : Position → Position) (cs : List Char) : Prop :=
  ∀ c ∈ cs, ∀ p, (σ p).after c = σ (p.after c)

variable {σ : Position → Position} {cs : List Char}

theorem Carries.along (h : Carries σ cs) (p : Position) : (σ p).along cs = σ (p.along cs) := by
  induction cs generalizing p with
  | nil => rfl
  | cons c cs ih =>
    obtain ⟨hc, hcs⟩ := List.forall_mem_cons.1 h
    rw [along_cons, along_cons, hc p]
    exact ih hcs _

theorem carries_append {front back : List Char} :
    Carries σ (front ++ back) ↔ Carries σ front ∧ Carries σ back := List.forall_mem_append

/-- The position so many columns to the right. -/
def right (n : Nat) (p : Position) : Position :=
  { p with column := p.column + n, one_le_column := Nat.le_add_right_of_le p.one_le_column }

theorem right_right (m n : Nat) (p : Position) : (p.right m).right n = p.right (m + n) := by
  simp [right, Nat.add_assoc]

theorem carries_right (n : Nat) (h : '\n' ∉ cs) : Carries (right n) cs := by
  intro c hc p
  have hn : c ≠ '\n' := ne_of_mem_of_not_mem hc h
  simp [right, after, hn, Nat.add_right_comm]

/-- Along a line, positions move to the right. -/
theorem along_eq_right (h : '\n' ∉ cs) (p : Position) : p.along cs = p.right cs.length := by
  induction cs generalizing p with
  | nil => rfl
  | cons c cs ih =>
    obtain ⟨hc, hcs⟩ := List.ne_and_not_mem_of_not_mem_cons h
    have ha : p.after c = p.right 1 := by rw [after, if_neg hc.symm]; rfl
    rw [along_cons, ih hcs, ha, right_right, List.length_cons, Nat.add_comm]

end Position

open Position (Carries)

variable {σ : Position → Position}

/-- The token at the position that its own one moves to. -/
def Token.move (σ : Position → Position) (t : Token) : Token := t.moveTo (σ t.position)

def LexicalFault.move (σ : Position → Position) (f : LexicalFault) : LexicalFault :=
  { f with position := σ f.position }

theorem Token.WellSpelled.move {t : Token} (h : t.WellSpelled) : (t.move σ).WellSpelled := by
  cases h with
  | glyph hg => exact .glyph hg
  | number hk hl hn => exact .number hk hl hn
  | identifier hk hl hn => exact .identifier hk hl hn

namespace Scan

variable {p : Position} {cs front back : List Char} {r r' : Except LexicalFault (List Token)}

/-- A result at the positions that its own ones move to. -/
def move (σ : Position → Position) (r : Except LexicalFault (List Token)) :
    Except LexicalFault (List Token) :=
  (r.map (List.map (Token.move σ))).mapError (LexicalFault.move σ)

theorem move_prepend (t : Token) (r : Except LexicalFault (List Token)) :
    move σ (prepend [t] r) = prepend [t.move σ] (move σ r) := by
  cases r <;> rfl

/-- From another position on, a text is read as the same but for the positions. -/
theorem Reads.move (h : Reads p cs r) (hσ : Carries σ cs) : Reads (σ p) cs (move σ r) := by
  induction h with
  | nil p => exact .nil (σ p)
  | @gap p c cs r hg _ ih =>
    obtain ⟨hc, hcs⟩ := List.forall_mem_cons.1 hσ
    apply Reads.gap hg
    rw [hc p]
    exact ih hcs
  | @token t cs r hs he _ ih =>
    obtain ⟨ht, hcs⟩ := Position.carries_append.1 hσ
    rw [move_prepend]
    apply Reads.token (t.move σ) hs.move he
    have ha : (t.move σ).position.along t.text.toList = σ (t.position.along t.text.toList) :=
      ht.along t.position
    exact ha ▸ ih hcs
  | @letter p digits c cs hn hc =>
    have hd := (Position.carries_append.1 hσ).1
    have hr := Reads.letter (σ p) cs hn hc
    rw [hd.along] at hr
    exact hr
  | stray p cs hc => exact .stray (σ p) cs hc

/-! ### Texts one behind the other -/

/-- A result, and unless it is a fault, another one from its end of input on. -/
def followed : Except LexicalFault (List Token) → Except LexicalFault (List Token) →
    Except LexicalFault (List Token)
  | .ok tokens, r => prepend (word tokens) r
  | .error fault, _ => .error fault

theorem followed_prepend {t : Token} (h : t.kind ≠ .endOfInput)
    (r r' : Except LexicalFault (List Token)) :
    followed (prepend [t] r) r' = prepend [t] (followed r r') := by
  cases r with
  | error fault => rfl
  | ok tokens =>
    have hw : word (t :: tokens) = t :: word tokens := List.takeWhile_cons_of_pos (by simpa using h)
    show prepend (word (t :: tokens)) r' = prepend [t] (prepend (word tokens) r')
    rw [hw, prepend_prepend]
    rfl

/-- A number or an identifier ends in a letter or a digit. -/
theorem not_closed_text {t : Token} (h : t.WellSpelled) (hl : t.kind.carriesLexeme = true) :
    ¬ Closed t.text.toList := by
  cases h with
  | glyph hg => exact absurd hl (by simp [Kind.carriesLexeme_of_glyph hg])
  | number _ hx hd =>
    rw [Token.toList_text_of_lexeme hx]
    exact @not_closed_append [] _ hd.ne_nil hd.isAlphanum
  | identifier _ hx hn =>
    rw [Token.toList_text_of_lexeme hx]
    have hw := hn.isAlphanum
    cases hn with
    | mk hc hcs => exact @not_closed_append [] _ (List.cons_ne_nil _ _) hw

/-- What ends in front of a text still ends there if the text goes on beyond a boundary. -/
theorem endsBefore_append {t : Token} (hs : t.WellSpelled) (he : t.EndsBefore cs)
    (h : Boundary (t.text.toList ++ cs) back) : t.EndsBefore (cs ++ back) := by
  intro hl
  cases cs with
  | nil =>
    rw [List.append_nil] at h
    exact h.resolve_left (not_closed_text hs hl)
  | cons c cs => exact he hl

theorem boundary_of_append (h : Boundary (front ++ cs) back) : Boundary cs back :=
  h.imp_left Closed.of_append

/-- Texts one behind the other are read one after the other. -/
theorem Reads.append (h : Reads p front r) (hb : Boundary front back)
    (h' : Reads (p.along front) back r') : Reads p (front ++ back) (followed r r') := by
  induction h with
  | nil p =>
    have hf : followed (.ok [Token.endOfInput p]) r' = r' := prepend_nil r'
    rw [hf]
    exact h'
  | @gap p c cs r hg _ ih => exact .gap hg (ih (@boundary_of_append cs [c] back hb) h')
  | @token t cs r hs he _ ih =>
    rw [followed_prepend hs.kind_ne, List.append_assoc]
    rw [Position.along_append] at h'
    exact .token t hs (endsBefore_append hs he hb) (ih (boundary_of_append hb) h')
  | @letter p digits c cs hn hc =>
    rw [List.append_assoc]
    exact .letter p (cs ++ back) hn hc
  | stray p cs hc => exact .stray p (cs ++ back) hc

/-- Gaps in front of a text only move it. -/
theorem Reads.gaps (h : ∀ c ∈ front, isGap c = true) (rest : Reads (p.along front) cs r) :
    Reads p (front ++ cs) r := by
  induction front generalizing p with
  | nil => exact rest
  | cons c front ih =>
    obtain ⟨hc, hf⟩ := List.forall_mem_cons.1 h
    exact .gap hc (ih hf rest)

theorem detached_of_gaps (h : ∀ c ∈ back, isGap c = true) : Detached back := fun c hc =>
  isAlphanum_eq_false_of_isGap (h c (List.mem_of_mem_head? hc))

end Scan

variable {source source' : String} {tokens : List Token}

/-- The end of input is the last token, and it lies behind the text. -/
theorem eq_word_of_scan (h : scan source = .ok tokens) :
    tokens = word tokens ++ [Token.endOfInput (Position.start.along source.toList)] := by
  -- Nothing at all, read behind the text, does not change the result.
  have hr := (Scan.scan_eq_iff.1 h).append (.inr detached_nil) (.nil _)
  rw [List.append_nil] at hr
  have hs := h.symm.trans (Scan.scan_eq_iff.2 hr)
  exact Except.ok.inj hs

/-! ### Texts between gaps -/

/-- The second text is the first one with gaps in front of it and behind it, and has a single
line. -/
structure Surrounded (front back : List Char) (source source' : String) : Prop where
  toList_eq : source'.toList = front ++ (source.toList ++ back)
  front : ∀ c ∈ front, Scan.isGap c = true
  back : ∀ c ∈ back, Scan.isGap c = true
  inline : Text.Only Text.IsInline source'

/-- The token further to the right; the end of input lies behind both gaps. -/
def Token.indent (before behind : Nat) (t : Token) : Token :=
  t.move (Position.right (if t.kind = .endOfInput then before + behind else before))

theorem Token.alike_indent (before behind : Nat) (t : Token) : t.Alike (t.indent before behind) :=
  ⟨rfl, rfl⟩

theorem word_map_move (tokens : List Token) :
    word (tokens.map (Token.move σ)) = (word tokens).map (Token.move σ) := List.takeWhile_map

namespace Surrounded

variable {front back : List Char}

theorem not_mem (h : Surrounded front back source source') :
    '\n' ∉ front ++ (source.toList ++ back) := fun hm =>
  h.inline '\n' (h.toList_eq ▸ hm) rfl

theorem not_mem_front (h : Surrounded front back source source') : '\n' ∉ front := fun hm =>
  h.not_mem (List.mem_append_left _ hm)

theorem not_mem_source (h : Surrounded front back source source') : '\n' ∉ source.toList :=
  fun hm => h.not_mem (List.mem_append_right _ (List.mem_append_left _ hm))

/-- The gap in front is passed, the text is read from behind it on, and then the gap behind is
passed up to the end of input. -/
theorem scan_eq (h : Surrounded front back source source')
    {r : Except LexicalFault (List Token)} (hr : scan source = r) :
    scan source' = Scan.followed (Scan.move (Position.right front.length) r)
      (.ok [Token.endOfInput (Position.start.along source'.toList)]) := by
  have hm := (Scan.scan_eq_iff.1 hr).move (Position.carries_right front.length h.not_mem_source)
  rw [← Position.along_eq_right h.not_mem_front] at hm
  have hb := Scan.Reads.gaps h.back
    (.nil (((Position.start.along front).along source.toList).along back))
  rw [List.append_nil] at hb
  have ha := hm.append (.inr (Scan.detached_of_gaps h.back)) hb
  apply Scan.scan_eq_iff.2
  rw [h.toList_eq, Position.along_append, Position.along_append]
  exact .gaps h.front ha

theorem scan_of_error (h : Surrounded front back source source') {fault : LexicalFault}
    (hs : scan source = .error fault) :
    scan source' = .error (fault.move (Position.right front.length)) := h.scan_eq hs

theorem along_eq_right (h : Surrounded front back source source') :
    Position.start.along source'.toList =
      (Position.start.along source.toList).right (front.length + back.length) := by
  rw [h.toList_eq, Position.along_eq_right h.not_mem, Position.along_eq_right h.not_mem_source,
    Position.right_right, List.length_append, List.length_append, Nat.add_left_comm]

theorem scan_of_ok (h : Surrounded front back source source') (hs : scan source = .ok tokens) :
    scan source' = .ok (tokens.map (Token.indent front.length back.length)) := by
  obtain ⟨-, -, hw⟩ := exists_word_of_scan hs
  have hi : (word tokens).map (Token.move (Position.right front.length)) =
      (word tokens).map (Token.indent front.length back.length) :=
    List.map_congr_left fun t ht => by rw [Token.indent, if_neg (hw t ht).kind_ne]
  calc scan source'
      = .ok (word (tokens.map (Token.move (Position.right front.length))) ++
          [Token.endOfInput (Position.start.along source'.toList)]) := h.scan_eq hs
    _ = .ok ((word tokens).map (Token.indent front.length back.length) ++
          [(Token.endOfInput (Position.start.along source.toList)).indent front.length
            back.length]) := by
        rw [word_map_move, hi, h.along_eq_right]
        rfl
    _ = .ok (tokens.map (Token.indent front.length back.length)) := by
        rw [← List.map_singleton, ← List.map_append, ← eq_word_of_scan hs]

end Surrounded

/-! ### Readings -/

def SyntaxFault.indent (before behind : Nat) (f : SyntaxFault) : SyntaxFault :=
  f.moveTo (f.token.indent before behind).position

def Failure.indent (before behind : Nat) : Failure → Failure
  | lexical fault => lexical (fault.move (Position.right before))
  | parse (.refused fault) => parse (.refused (fault.indent before behind))
  | parse fault => parse fault

/-- The second reading is the first one further to the right. -/
structure Reading.Indented (before behind : Nat) (r r' : Reading) : Prop where
  tokens : r'.tokens = r.tokens.map (Token.indent before behind)
  trace : r'.events.map Derivation.Event.text = r.events.map Derivation.Event.text
  result : r'.result = r.result.mapError (Failure.indent before behind)

/-- What two runs that stop together end in, if all tokens of the second one are further to the
right. -/
theorem Derivation.SameResult.indent {before behind index : Nat}
    {x x' : Except ParseFault ParseTree}
    (h : SameResult tokens (tokens.map (Token.indent before behind)) index x x') :
    x'.mapError Failure.parse =
      (x.mapError Failure.parse).mapError (Failure.indent before behind) := by
  cases h with
  | ok t => rfl
  | @refused f f' ht ht' hm =>
    rw [List.getElem?_map, ht] at ht'
    have he : f' = f.indent before behind := by
      rw [hm.eq_moveTo, ← Option.some.inj ht']
      rfl
    rw [he]
    rfl
  | numeral fault => rfl
  | state fault => rfl

/-- With gaps around it, a text is read as without them, but further to the right. -/
theorem Surrounded.indented {front back : List Char} (h : Surrounded front back source source') :
    (read source).Indented front.length back.length (read source') := by
  cases hs : scan source with
  | error fault =>
    rw [read_of_scan_error hs, read_of_scan_error (h.scan_of_error hs)]
    exact ⟨rfl, rfl, rfl⟩
  | ok tokens =>
    have hs' := h.scan_of_ok hs
    have ha : Forall₂ Token.Alike tokens (tokens.map (Token.indent front.length back.length)) :=
      List.forall₂_map_right_iff.2 (List.forall₂_same.2 fun t _ => t.alike_indent _ _)
    obtain ⟨c, hc, -, hr⟩ := read_of_scan_ok hs
    obtain ⟨c', hc', -, hr'⟩ := read_of_scan_ok hs'
    obtain ⟨d, d', hd, hd', hu⟩ := exists_cursors_of_alike (terminated_of_scan hs) ha
    cases hc.symm.trans hd
    cases hc'.symm.trans hd'
    have hp := Derivation.parseStandard_alike hc hc' hu
    rw [hr, hr']
    exact ⟨rfl, hp.texts, hp.result.indent⟩

end LispReader
