import LispReader.Proofs.Digits
import LispReader.Proofs.Readings

/-! Trees and the texts that write them.

A tree is canonical if its numbers are natural numbers that the limit on digits admits and its
symbols are names. Only canonical trees are read, since the labels of forms are names as well. A
canonical tree is written by plain texts, with parentheses around the items of a sequence, one space
between them and any number of zeros in front of a number, and whatever writes a tree is read as
that tree: `reads_canonical`. A text that writes a form in this way is read as an application, and
yet gives the same tree.

The texts are put together from parts, and so is what is read from them. `ReadsTo` says what a part
is read as wherever it stands, as long as what comes behind does not continue it. -/
namespace LispReader
open Scan Phrase

/-! ### Canonical trees -/

/-- What can be read: no other numbers and symbols occur. A sequence always has a head. -/
inductive Canonical : ParseTree → Prop
  | number {n : Nat} (lt : n < 10 ^ Numeral.digitLimit) : Canonical (.number n)
  | symbol {name : String} (isName : IsName name.toList) : Canonical (.symbol name)
  | sequence {head : ParseTree} {tail : List ParseTree}
      (items : ∀ t ∈ head :: tail, Canonical t) : Canonical (.sequence head tail)

theorem Form.isName_label {f : Form} (h : f ∈ all) : IsName f.label.toList := by
  revert f
  decide

/-! ### Trees of texts are canonical -/

theorem canonical_number {token : Token} {lexeme : String} {n : Int} (h : token.WellSpelled)
    (hk : token.kind = .number) (hl : token.lexeme = some lexeme)
    (hr : Numeral.read lexeme = .ok n) : Canonical (.number n) := by
  rw [← @String.ofList_toList lexeme] at hr
  obtain ⟨v, rfl, hv⟩ := Numeral.exists_lt_of_read_digits (h.isNumeral hk hl) hr
  exact .number hv

mutual

theorem Phrase.Expression.canonical : {w : List Token} → {t : ParseTree} → Expression w t →
    (∀ token ∈ w, token.WellSpelled) → Canonical t
  | _, _, .number token kind spelled denotes, h =>
    canonical_number (h token List.mem_cons_self) kind spelled denotes
  | _, _, .identifier token kind spelled, h =>
    .symbol ((h token List.mem_cons_self).isName kind spelled)
  | _, _, .parenthesized _ _ _ body _, h =>
    body.canonical fun token ht => h token (by simp [ht])

theorem Phrase.Body.canonical : {w : List Token} → {t : ParseTree} → Body w t →
    (∀ token ∈ w, token.WellSpelled) → Canonical t
  | _, _, .form _ _ known _ operands, h =>
    .sequence (List.forall_mem_cons.2 ⟨.symbol (Form.isName_label known),
      operands.canonical fun token ht => h token (by simp [ht])⟩)
  | _, _, .application items, h => .sequence (items.canonical h)

theorem Phrase.Operands.canonical : {ops : List Operand} → {w : List Token} →
    {ts : List ParseTree} → Operands ops w ts → (∀ token ∈ w, token.WellSpelled) →
    ∀ t ∈ ts, Canonical t
  | _, _, _, .nil, _ => nofun
  | _, _, _, .expression first rest, h =>
    List.forall_mem_cons.2 ⟨first.canonical fun token ht => h token (by simp [ht]),
      rest.canonical fun token ht => h token (by simp [ht])⟩
  | _, _, _, .identifier token kind spelled rest, h =>
    List.forall_mem_cons.2 ⟨.symbol ((h token List.mem_cons_self).isName kind spelled),
      rest.canonical fun token ht => h token (by simp [ht])⟩

theorem Phrase.Items.canonical : {w : List Token} → {ts : List ParseTree} → Items w ts →
    (∀ token ∈ w, token.WellSpelled) → ∀ t ∈ ts, Canonical t
  | _, _, .nil, _ => nofun
  | _, _, .cons first rest, h =>
    List.forall_mem_cons.2 ⟨first.canonical fun token ht => h token (by simp [ht]),
      rest.canonical fun token ht => h token (by simp [ht])⟩

end

theorem canonical_of_read {source : String} {t : ParseTree} (h : (read source).result = .ok t) :
    Canonical t := by
  obtain ⟨tokens, hs, ⟨d⟩⟩ := read_ok_iff.1 h
  obtain ⟨p, -, hw⟩ := exists_word_of_scan hs
  exact d.canonical hw

/-! ### Texts that write a tree -/

mutual

/-- The text writes the tree. -/
inductive Writes : List Char → ParseTree → Prop
  | number {zeros n : Nat} (length_le : (Numeral.padded zeros n).length ≤ Numeral.digitLimit) :
      Writes (Numeral.padded zeros n) (.number n)
  | symbol (name : String) : Writes name.toList (.symbol name)
  | sequence {cs cs' : List Char} {head : ParseTree} {tail : List ParseTree}
      (first : Writes cs head) (rest : WritesBehind cs' tail) :
      Writes ('(' :: (cs ++ (cs' ++ [')']))) (.sequence head tail)

/-- The text writes the items behind a first one, with a space in front of each. -/
inductive WritesBehind : List Char → List ParseTree → Prop
  | nil : WritesBehind [] []
  | cons {cs cs' : List Char} {t : ParseTree} {ts : List ParseTree} (first : Writes cs t)
      (rest : WritesBehind cs' ts) : WritesBehind (' ' :: (cs ++ cs')) (t :: ts)

end

theorem WritesBehind.exists_of_forall {ts : List ParseTree} (h : ∀ t ∈ ts, ∃ cs, Writes cs t) :
    ∃ cs, WritesBehind cs ts := by
  induction ts with
  | nil => exact ⟨[], .nil⟩
  | cons t ts ih =>
    obtain ⟨⟨cs, ht⟩, hts⟩ := List.forall_mem_cons.1 h
    obtain ⟨cs', hts⟩ := ih hts
    exact ⟨_, .cons ht hts⟩

/-- A canonical tree can be written. -/
theorem Canonical.exists_writes {t : ParseTree} (h : Canonical t) : ∃ cs, Writes cs t := by
  induction h with
  | @number n hn =>
    refine ⟨Numeral.padded 0 n, .number ?_⟩
    rw [Numeral.length_padded, Nat.zero_add]
    exact Numeral.length_digits_le_iff.2 hn
  | @symbol name _ => exact ⟨_, .symbol name⟩
  | sequence _ ih =>
    obtain ⟨⟨cs, hh⟩, ht⟩ := List.forall_mem_cons.1 ih
    obtain ⟨cs', ht⟩ := WritesBehind.exists_of_forall ht
    exact ⟨_, .sequence hh ht⟩

/-! ### Parts of texts -/

/-- Wherever the text stands, it is read as one of the words, if what comes behind does not
continue it. -/
def ReadsTo (cs : List Char) (words : List Token → Prop) : Prop :=
  ∀ p, ∃ w, words w ∧ ∀ {rest r}, Detached rest → Reads (p.along cs) rest r →
    Reads p (cs ++ rest) (prepend w r)

namespace ReadsTo

variable {cs cs' : List Char} {P Q : List Token → Prop}

theorem nil : ReadsTo [] (· = []) :=
  fun _ => ⟨[], rfl, fun {_ r} _ h => by rwa [prepend_nil]⟩

theorem gap {c : Char} (hc : isGap c = true) (h : ReadsTo cs P) : ReadsTo (c :: cs) P := by
  intro p
  obtain ⟨w, hw, hr⟩ := h (p.after c)
  exact ⟨w, hw, fun hd h => .gap hc (hr hd h)⟩

theorem glyph {c : Char} {kind : Kind} (hc : kind.glyph = some c) (h : ReadsTo cs P) :
    ReadsTo (c :: cs) fun w => ∃ t v, t.kind = kind ∧ P v ∧ w = t :: v := by
  intro p
  obtain ⟨w, hw, hr⟩ := h (p.after c)
  refine ⟨_, ⟨Token.bare kind p (Kind.carriesLexeme_of_glyph hc), w, rfl, hw, rfl⟩, fun hd h => ?_⟩
  have := Reads.glyph hc (hr hd h)
  rwa [prepend_prepend] at this

theorem append (h : ReadsTo cs P) (h' : ReadsTo cs' Q) (hd : Detached cs') :
    ReadsTo (cs ++ cs') fun w => ∃ u v, P u ∧ Q v ∧ w = u ++ v := by
  intro p
  obtain ⟨u, hu, hr⟩ := h p
  obtain ⟨v, hv, hr'⟩ := h' (p.along cs)
  refine ⟨u ++ v, ⟨u, v, hu, hv, rfl⟩, fun hrest h => ?_⟩
  rw [Position.along_append] at h
  have := hr (hd.append hrest) (hr' hrest h)
  rwa [prepend_prepend, ← List.append_assoc] at this

theorem number (h : IsNumeral cs) :
    ReadsTo cs fun w => ∃ p, w = [Token.number (String.ofList cs) p] :=
  fun p => ⟨_, ⟨p, rfl⟩, fun hd hr => .number h hd hr⟩

theorem identifier (h : IsName cs) :
    ReadsTo cs fun w => ∃ p, w = [Token.identifier (String.ofList cs) p] :=
  fun p => ⟨_, ⟨p, rfl⟩, fun hd hr => .identifier h hd hr⟩

theorem imp (h : ReadsTo cs P) (hi : ∀ w, P w → Q w) : ReadsTo cs Q := by
  intro p
  obtain ⟨w, hw, hr⟩ := h p
  exact ⟨w, hi w hw, hr⟩

end ReadsTo

/-! ### What writes a tree is read as the tree -/

theorem WritesBehind.detached {cs : List Char} {ts : List ParseTree} (h : WritesBehind cs ts) :
    Detached cs := by
  cases h with
  | nil => exact detached_nil
  | cons => exact detached_cons rfl _

theorem readsTo_behind {ts : List ParseTree}
    (h : ∀ t ∈ ts, ∀ {cs}, Writes cs t → ReadsTo cs (Derives · t)) {cs : List Char}
    (hw : WritesBehind cs ts) : ReadsTo cs fun w => Nonempty (Items w ts) := by
  induction ts generalizing cs with
  | nil =>
    cases hw
    exact ReadsTo.nil.imp fun w hw => hw ▸ ⟨.nil⟩
  | cons t ts ih =>
    obtain ⟨ht, hts⟩ := List.forall_mem_cons.1 h
    cases hw with
    | cons first rest =>
      refine ReadsTo.gap rfl (((ht first).append (ih hts rest) rest.detached).imp ?_)
      rintro w ⟨u, v, ⟨d⟩, ⟨d'⟩, rfl⟩
      exact ⟨.cons d d'⟩

/-- Items in parentheses are read as an application, whatever the first of them is. -/
theorem readsTo_sequence {cs cs' : List Char} {head : ParseTree} {tail : List ParseTree}
    (hh : ReadsTo cs (Derives · head)) (ht : ReadsTo cs' fun w => Nonempty (Items w tail))
    (hd : Detached cs') :
    ReadsTo ('(' :: (cs ++ (cs' ++ [')']))) (Derives · (.sequence head tail)) := by
  have hl : Kind.leftParen.glyph = some '(' := rfl
  have hr : Kind.rightParen.glyph = some ')' := rfl
  have hc : Detached [')'] := detached_cons rfl []
  have hb := hh.append (ht.append (.glyph hr .nil) hc) (hd.append hc)
  refine (ReadsTo.glyph hl hb).imp ?_
  rintro w ⟨opening, _, opens, ⟨u, _, ⟨d⟩, ⟨v, _, ⟨d'⟩, hv, rfl⟩, rfl⟩, rfl⟩
  obtain ⟨closing, _, closes, rfl, rfl⟩ := hv
  rw [← List.append_assoc]
  exact ⟨.parenthesized opening closing opens (.application (.cons d d')) closes⟩

theorem readsTo_of_writes {t : ParseTree} (h : Canonical t) {cs : List Char} (hw : Writes cs t) :
    ReadsTo cs (Derives · t) := by
  induction h generalizing cs with
  | number =>
    -- The tree holds an integer, which is no constructor applied to the natural number.
    generalize ht : Tree.number _ = t at hw
    cases hw with
    | number hl =>
      cases ht
      refine (ReadsTo.number (Numeral.isNumeral_padded ..)).imp ?_
      rintro w ⟨p, rfl⟩
      exact ⟨.number _ rfl rfl (Numeral.read_padded hl)⟩
    | _ => cases ht
  | symbol hn =>
    cases hw
    refine (ReadsTo.identifier hn).imp ?_
    rintro w ⟨p, rfl⟩
    rw [String.ofList_toList]
    exact ⟨.identifier _ rfl rfl⟩
  | sequence _ ih =>
    obtain ⟨hh, ht⟩ := List.forall_mem_cons.1 ih
    cases hw with
    | sequence first rest =>
      exact readsTo_sequence (hh first) (readsTo_behind ht rest) rest.detached

theorem read_of_readsTo {cs : List Char} {t : ParseTree} (h : ReadsTo cs (Derives · t)) :
    (read (String.ofList cs)).result = .ok t := by
  obtain ⟨w, hd, hr⟩ := h .start
  have hr := hr detached_nil (.nil _)
  rw [List.append_nil, ← @String.toList_ofList cs, prepend_ok] at hr
  have hs := scan_eq_iff.2 hr
  obtain ⟨p, hw, -⟩ := exists_word_of_scan hs
  refine read_ok_iff.2 ⟨_, hs, ?_⟩
  rwa [← (List.append_inj' hw rfl).1]

/-- What is read is a canonical tree, and a canonical tree is what is read from any text that
writes it, of which there is one. -/
theorem reads_canonical :
    (∀ {source t}, (read source).result = .ok t → Canonical t) ∧
      ∀ {t}, Canonical t → (∃ cs, Writes cs t) ∧
        ∀ {cs}, Writes cs t → (read (String.ofList cs)).result = .ok t := by
  refine ⟨canonical_of_read, fun h => ⟨h.exists_writes, fun hw => ?_⟩⟩
  exact read_of_readsTo (readsTo_of_writes h hw)

/-- A form that is written by its label. -/
def labelledForm : ParseTree := .sequence (.symbol "PLUS") [.number 7, .symbol "x"]

theorem reads_canonical_labelledForm :
    Canonical labelledForm ∧ Writes "(PLUS 007 x)".toList labelledForm ∧
      (read (String.ofList "(PLUS 007 x)".toList)).result = .ok labelledForm := by
  have hn : 7 < 10 ^ Numeral.digitLimit := Numeral.length_digits_le_iff.1 (by decide)
  have hc : Canonical labelledForm := .sequence <|
    List.forall_mem_cons.2 ⟨.symbol (by decide),
      List.forall_mem_cons.2 ⟨@Canonical.number 7 hn,
        List.forall_mem_cons.2 ⟨.symbol (by decide), nofun⟩⟩⟩
  have hw : Writes "(PLUS 007 x)".toList labelledForm :=
    .sequence (.symbol "PLUS") (.cons (@Writes.number 2 7 (by decide)) (.cons (.symbol "x") .nil))
  exact ⟨hc, hw, (reads_canonical.2 hc).2 hw⟩

end LispReader
