import Mathlib.Data.List.Forall2
import LispReader.Proofs.Characters
import LispReader.Proofs.DataText
import LispReader.Proofs.Json.Plain
import LispReader.Proofs.Lines

/-! Indentation.

The indented text of a tree differs from the compact one by its line breaks and indentation alone.
Strings are written without line feeds and begin with a quotation mark, so nothing of their content
begins a line. Hence the lines of the indented text, without the spaces in front, make the compact
text when they are put together: `Tree.unindent_render`. -/
namespace LispReader
open List (Forall₂)

/-! ### Lines put together -/

/-- The lines of a text one behind the other, without the spaces they begin with. -/
def unindented (cs : List Char) : List Char := (linesOf cs).flatMap (·.dropWhile (· = ' '))

/-- The lines of a text one behind the other, the first one with its spaces and the others without
the spaces they begin with. -/
def continued (cs : List Char) : List Char :=
  (linesOf cs).head?.getD [] ++ (linesOf cs).tail.flatMap (·.dropWhile (· = ' '))

def unindent (s : String) : String := String.ofList (unindented s.toList)

example : unindent "[\n  \" x\",\n  1\n]" = "[\" x\",1]" := by decide

variable {c : Char}

theorem continued_newline (cs : List Char) : continued ('\n' :: cs) = unindented cs := by
  rw [continued, linesOf_newline]
  rfl

theorem continued_cons (h : c ≠ '\n') (cs : List Char) :
    continued (c :: cs) = c :: continued cs := by
  obtain ⟨line, lines, hl, hc⟩ := linesOf_cons h cs
  rw [continued, continued, hl, hc]
  rfl

theorem unindented_space (cs : List Char) : unindented (' ' :: cs) = unindented cs := by
  obtain ⟨line, lines, hl, hc⟩ := linesOf_cons (c := ' ') (by decide) cs
  rw [unindented, unindented, hl, hc, List.flatMap_cons, List.flatMap_cons,
    List.dropWhile_cons_of_pos (by decide)]

theorem unindented_cons (h : c ≠ '\n') (hs : c ≠ ' ') (cs : List Char) :
    unindented (c :: cs) = c :: continued cs := by
  obtain ⟨line, lines, hl, hc⟩ := linesOf_cons h cs
  have hd : (c :: line).dropWhile (· = ' ') = c :: line :=
    List.dropWhile_cons_of_neg (by simpa using hs)
  rw [unindented, continued, hl, hc, List.flatMap_cons, hd]
  rfl

/-! ### What texts come to -/

/-- In the middle of a line the text comes to the flat one, and what follows goes on in its line. -/
def FlattensInLine (text flat : List Char) : Prop :=
  ∀ rest, continued (text ++ rest) = flat ++ continued rest

/-- The text comes to the flat one, both where a line begins and in the middle of it. -/
structure Flattens (text flat : List Char) : Prop where
  atStart : ∀ rest, unindented (text ++ rest) = flat ++ continued rest
  inLine : FlattensInLine text flat

variable {text flat text' flat' : List Char}

theorem FlattensInLine.append (h : FlattensInLine text flat) (h' : FlattensInLine text' flat') :
    FlattensInLine (text ++ text') (flat ++ flat') := by
  intro rest
  rw [List.append_assoc, List.append_assoc, h, h']

theorem Flattens.append (h : Flattens text flat) (h' : FlattensInLine text' flat') :
    Flattens (text ++ text') (flat ++ flat') where
  atStart rest := by rw [List.append_assoc, List.append_assoc, h.atStart, h']
  inLine := h.inLine.append h'

theorem flattensInLine_of_not_mem (h : '\n' ∉ text) : FlattensInLine text text := by
  intro rest
  induction text with
  | nil => rfl
  | cons c text ih =>
    obtain ⟨hc, ht⟩ := List.ne_and_not_mem_of_not_mem_cons h
    rw [List.cons_append, continued_cons hc.symm, ih ht, List.cons_append]

/-- A text that neither begins with a space nor has a line feed comes to itself. -/
theorem flattens_of_not_mem (h : '\n' ∉ c :: text) (hs : c ≠ ' ') :
    Flattens (c :: text) (c :: text) where
  atStart rest := by
    obtain ⟨hc, ht⟩ := List.ne_and_not_mem_of_not_mem_cons h
    rw [List.cons_append, unindented_cons hc.symm hs, flattensInLine_of_not_mem ht,
      List.cons_append]
  inLine := flattensInLine_of_not_mem h

theorem unindented_spaces (n : Nat) (rest : List Char) :
    unindented (List.replicate n ' ' ++ rest) = unindented rest := by
  induction n with
  | zero => rfl
  | succ n ih => rw [List.replicate_succ, List.cons_append, unindented_space, ih]

/-- A line break and its indentation come to nothing. -/
theorem Flattens.behind_newLine (h : Flattens text flat) (depth : Nat) :
    FlattensInLine ((Datum.newLine depth).toList ++ text) flat := by
  intro rest
  rw [Datum.newLine, Datum.join_replicate, String.toList_append,
    @String.toList_ofList (List.replicate _ _)]
  show continued ('\n' :: (List.replicate (2 * depth) ' ' ++ text ++ rest)) = _
  rw [continued_newline, List.append_assoc, unindented_spaces, h.atStart]

theorem flattensInLine_intercalate {sep : List Char} {texts flats : List (List Char)}
    (hs : FlattensInLine sep sep) (h : Forall₂ FlattensInLine texts flats) :
    FlattensInLine (sep.intercalate texts) (sep.intercalate flats) := by
  induction h with
  | nil => exact fun rest => rfl
  | cons ht hr ih =>
    cases hr with
    | nil =>
      rw [List.intercalate_singleton, List.intercalate_singleton]
      exact ht
    | cons =>
      rw [List.intercalate_cons_cons, List.intercalate_cons_cons]
      exact (ht.append hs).append ih

/-! ### Data -/

namespace Datum

theorem flattens_write (n : Int) : Flattens (Numeral.write n).toList (Numeral.write n).toList := by
  have hi : '\n' ∉ (Numeral.write n).toList := fun hm => Text.inline_write n '\n' hm rfl
  rw [Numeral.write, String.toList_ofList] at hi ⊢
  by_cases hn : n < 0
  · rw [if_pos hn] at hi ⊢
    exact flattens_of_not_mem hi (by decide)
  · rw [if_neg hn] at hi ⊢
    have hnum := Numeral.isNumeral_padded 0 n.natAbs
    obtain ⟨d, ds, hds⟩ := List.exists_cons_of_ne_nil hnum.ne_nil
    have hdigits : Numeral.digits n.natAbs = d :: ds := hds
    have hd : d.isDigit = true := hnum.isDigit d (hds ▸ List.mem_cons_self)
    rw [hdigits] at hi ⊢
    refine flattens_of_not_mem hi fun he => ?_
    subst he
    exact absurd hd (by decide)

theorem flattens_string (s : String) : Flattens (Json.string s).toList (Json.string s).toList := by
  have hi : '\n' ∉ (Json.string s).toList := fun hm =>
    (Json.plain_string s '\n' hm).isInline rfl
  rw [Json.string, String.toList_ofList] at hi ⊢
  exact flattens_of_not_mem hi (by decide)

/-- Of brackets with lines between them, all but the line breaks is left. -/
theorem flattens_enclose (depth : Nat) {lines texts : List String}
    (h : Forall₂ FlattensInLine (lines.map String.toList) (texts.map String.toList)) :
    Flattens (enclose depth lines).toList ("[" ++ ",".intercalate texts ++ "]").toList := by
  have hopen : Flattens ['['] ['['] := flattens_of_not_mem (by decide) (by decide)
  have hclose : Flattens [']'] [']'] := flattens_of_not_mem (by decide) (by decide)
  cases lines with
  | nil =>
    rw [List.map_nil, List.forall₂_nil_left_iff, List.map_eq_nil_iff] at h
    have he : enclose depth [] = "[" ++ "]" := rfl
    rw [h, String.intercalate_nil, String.append_empty, he, String.toList_append]
    exact hopen.append hclose.inLine
  | cons line lines =>
    have hcomma : FlattensInLine [','] [','] := flattensInLine_of_not_mem (by decide)
    rw [enclose]
    · simp only [String.toList_append, String.toList_intercalate, List.append_assoc]
      have hitems := flattensInLine_intercalate hcomma h
      exact hopen.append (hitems.append (hclose.behind_newLine depth))
    · exact List.cons_ne_nil _ _

mutual

theorem flattens_indented (depth : Nat) : (d : Datum Empty) →
    Flattens (d.indented depth).toList d.compact.toList
  | .integer n => flattens_write n
  | .text s => flattens_string s
  | .list items | .tuple items =>
    flattens_enclose depth (flattensInLine_indentedAll (depth + 1) items)

theorem flattensInLine_indentedAll (depth : Nat) : (ds : List (Datum Empty)) →
    Forall₂ FlattensInLine ((indentedAll depth ds).map String.toList)
      ((compactAll ds).map String.toList)
  | [] => .nil
  | d :: ds => by
    have hd := (flattens_indented depth d).behind_newLine depth
    rw [← String.toList_append] at hd
    exact .cons hd (flattensInLine_indentedAll depth ds)

end

end Datum

/-- The indented text of a tree, split at line feeds and without the spaces in front of its lines,
is the compact text. -/
theorem Tree.unindent_render (t : ParseTree) :
    unindent (t.render .indented) = t.render .compact := by
  obtain ⟨d, hd⟩ := t.exists_toDatum
  have h := (Datum.flattens_indented 0 d).atStart []
  have hn : continued [] = [] := rfl
  rw [List.append_nil, hn, List.append_nil] at h
  rw [render_indented hd, render_compact hd, unindent, h, String.ofList_toList]

end LispReader
