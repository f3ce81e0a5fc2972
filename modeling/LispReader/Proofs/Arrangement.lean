import Mathlib.Data.List.Chain
import LispReader.Proofs.Displacement

/-! Tokens written one behind the other.

Tokens can be written with gaps around them. Between two words, which are numbers or identifiers,
the gap must not be empty, as they would be read as one word or not at all. Everywhere else it may
be, since a glyph neither continues a word nor is continued. However tokens are arranged, what is
scanned are tokens of the same kinds with the same lexemes, and an end of input behind them:
`Arrangement.scan_text`. -/
namespace LispReader
open List (Forall₂)
open Scan

/-- A token and the gap behind it. -/
structure Part where
  token : Token
  gap : List Char

namespace Part

def text (part : Part) : List Char := part.token.text.toList ++ part.gap

/-- If both tokens are words, there is a gap between them. -/
def Apart (part next : Part) : Prop :=
  part.token.kind.carriesLexeme = true → next.token.kind.carriesLexeme = true → part.gap ≠ []

instance (part next : Part) : Decidable (part.Apart next) :=
  inferInstanceAs (Decidable (_ → _ → _))

/-- The token can be written, and nothing but a gap is behind it. -/
structure WellFormed (part : Part) : Prop where
  spelled : part.token.WellSpelled
  isGap : ∀ c ∈ part.gap, isGap c = true

end Part

/-- Tokens with gaps around them, of which the first one is in front of all tokens. -/
structure Arrangement where
  lead : List Char
  parts : List Part
  isGap_lead : ∀ c ∈ lead, isGap c = true
  wellFormed : ∀ part ∈ parts, part.WellFormed
  apart : parts.IsChain Part.Apart

namespace Arrangement

def text (a : Arrangement) : String := String.ofList (a.lead ++ a.parts.flatMap Part.text)

def tokens (a : Arrangement) : List Token := a.parts.map Part.token

end Arrangement

/-! ### Where words end -/

/-- A token that is no word begins with no letter and no digit. -/
theorem Token.WellSpelled.detached {t : Token} (h : t.WellSpelled)
    (hk : t.kind.carriesLexeme = false) (cs : List Char) : Detached (t.text.toList ++ cs) := by
  cases h with
  | glyph hg =>
    rw [Token.toList_text_of_glyph hg]
    exact detached_cons (Kind.isAlphanum_glyph hg) cs
  | number hn => exact absurd hk (by simp [hn, Kind.carriesLexeme])
  | identifier hn => exact absurd hk (by simp [hn, Kind.carriesLexeme])

/-- A word ends in front of what is behind it: a gap, a glyph or nothing. -/
theorem Part.endsBefore {part : Part} {parts : List Part} (h : part.WellFormed)
    (hparts : ∀ next ∈ parts, next.WellFormed) (ha : (part :: parts).IsChain Apart) :
    part.token.EndsBefore (part.gap ++ parts.flatMap text) := by
  intro hw
  cases hg : part.gap with
  | cons c gap =>
    have hc : isGap c = true := h.isGap c (hg ▸ List.mem_cons_self)
    exact detached_cons (isAlphanum_eq_false_of_isGap hc) _
  | nil =>
    cases parts with
    | nil => exact detached_nil
    | cons next parts =>
      obtain ⟨hnext, -⟩ := List.isChain_cons_cons.1 ha
      have hk : next.token.kind.carriesLexeme = false :=
        Bool.eq_false_iff.2 fun hk => hnext hw hk hg
      rw [List.nil_append, List.flatMap_cons, text, List.append_assoc]
      exact (hparts next List.mem_cons_self).spelled.detached hk _

/-! ### Scanning -/

/-- Wherever they stand, parts are read as their tokens. -/
theorem reads_parts {parts : List Part} (h : ∀ part ∈ parts, part.WellFormed)
    (ha : parts.IsChain Part.Apart) (p : Position) :
    ∃ tokens q, Forall₂ Token.Alike (parts.map Part.token) tokens ∧
      Reads p (parts.flatMap Part.text) (.ok (tokens ++ [Token.endOfInput q])) := by
  induction parts generalizing p with
  | nil => exact ⟨[], p, .nil, .nil p⟩
  | cons part parts ih =>
    obtain ⟨hpart, hparts⟩ := List.forall_mem_cons.1 h
    obtain ⟨tokens, q, hl, hr⟩ := ih hparts ha.tail (p.along part.text)
    refine ⟨part.token.moveTo p :: tokens, q, .cons ⟨rfl, rfl⟩ hl, ?_⟩
    have he := Part.endsBefore hpart hparts ha
    have hs : (part.token.moveTo p).WellSpelled := hpart.spelled.move (σ := fun _ => p)
    rw [Part.text, Position.along_append] at hr
    rw [List.flatMap_cons, Part.text, List.append_assoc]
    exact .token (part.token.moveTo p) hs he (.gaps hpart.isGap hr)

/-- The text of an arrangement is scanned, and what is found are tokens of the same kinds and with
the same lexemes as those arranged, and one end of input behind them. -/
theorem Arrangement.scan_text (a : Arrangement) :
    ∃ tokens p, scan a.text = .ok (tokens ++ [Token.endOfInput p]) ∧
      Forall₂ Token.Alike a.tokens tokens := by
  obtain ⟨tokens, p, ht, hr⟩ := reads_parts a.wellFormed a.apart (Position.start.along a.lead)
  refine ⟨tokens, p, scan_eq_iff.2 ?_, ht⟩
  rw [text, String.toList_ofList]
  exact .gaps a.isGap_lead hr

/-- Words next to glyphs without a gap, and two numbers with one between them. -/
def Arrangement.dense : Arrangement where
  lead := ['\t']
  parts :=
    [⟨.sample .lambda, []⟩, ⟨.sample .identifier, []⟩, ⟨.sample .leftParen, ['\r', '\n']⟩,
      ⟨.sample .number, [' ']⟩, ⟨.sample .number, []⟩, ⟨.sample .rightParen, []⟩]
  isGap_lead := List.forall_mem_singleton.2 rfl
  wellFormed := by
    have hn : (Token.sample .number).WellSpelled :=
      @Token.WellSpelled.number _ ['0'] rfl rfl
        ⟨List.cons_ne_nil '0' [], List.forall_mem_singleton.2 rfl⟩
    have hi : (Token.sample .identifier).WellSpelled :=
      @Token.WellSpelled.identifier _ ['x'] rfl rfl (.mk rfl (List.forall_mem_nil _))
    have he : ∀ c ∈ [], isGap c = true := List.forall_mem_nil _
    have hl : ∀ c ∈ ['\r', '\n'], isGap c = true :=
      List.forall_mem_cons.2 ⟨rfl, List.forall_mem_singleton.2 rfl⟩
    have hs : ∀ c ∈ [' '], isGap c = true := List.forall_mem_singleton.2 rfl
    simp only [List.forall_mem_cons]
    exact ⟨⟨.glyph rfl, he⟩, ⟨hi, he⟩, ⟨.glyph rfl, hl⟩, ⟨hn, hs⟩, ⟨hn, he⟩, ⟨.glyph rfl, he⟩,
      List.forall_mem_nil _⟩
  apart := by decide

theorem Arrangement.scan_text_dense :
    ∃ tokens p, scan "\tλx(\r\n0 0)" = .ok (tokens ++ [Token.endOfInput p]) ∧
      Forall₂ Token.Alike dense.tokens tokens := dense.scan_text

end LispReader
