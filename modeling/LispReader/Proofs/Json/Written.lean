import Mathlib.Data.List.Forall2
import LispReader.Proofs.Digits
import LispReader.Proofs.Json.Reader

/-! Written JSON is read back.

The text of a value is cut into lexemes, which are the same in every layout. Each part of it is cut
wherever it stands, but for the digits of an integer, which have to be delimited: `lexes_writeAt`.
From its lexemes a value is read inside whatever is around it: `readValue_lexemes`. So a written
value is read back, and no two values have the same text: `read?_write`. -/
namespace LispReader.Json
open List (Forall₂)

/-! ### Strings -/

/-- The units of a character are joined again, whatever follows them. -/
theorem ofUnits?_append (c : Char) (units : List Nat) :
    ofUnits? (unitsOf c ++ units) = (ofUnits? units).map (c :: ·) := by
  have hv : c.toNat < 0xD800 ∨ 0xDFFF < c.toNat ∧ c.toNat < 0x110000 := c.valid
  by_cases h : c.toNat < 0x10000
  · have hl : isLow c.toNat = false := by
      simp only [isLow, Bool.and_eq_false_iff, decide_eq_false_iff_not]
      omega
    have hh : isHigh c.toNat = false := by
      simp only [isHigh, Bool.and_eq_false_iff, decide_eq_false_iff_not]
      omega
    have hu : unitsOf c = [c.toNat] := if_pos h
    rw [hu, List.singleton_append, ofUnits?.eq_def]
    simp only [hl, hh, Bool.false_eq_true, if_false, Char.ofNat_toNat]
  · let n := c.toNat - 0x10000
    have hn : n / 0x400 < 0x400 := by omega
    have hm : n % 0x400 < 0x400 := Nat.mod_lt n (by decide)
    have hl : isLow (0xD800 + n / 0x400) = false := by
      simp only [isLow, Bool.and_eq_false_iff, decide_eq_false_iff_not]
      omega
    have hh : isHigh (0xD800 + n / 0x400) = true := by
      simp only [isHigh, Bool.and_eq_true, decide_eq_true_eq]
      omega
    have hl' : isLow (0xDC00 + n % 0x400) = true := by
      simp only [isLow, Bool.and_eq_true, decide_eq_true_eq]
      omega
    have hu : unitsOf c = [0xD800 + n / 0x400, 0xDC00 + n % 0x400] := if_neg h
    have hc : 0x10000 + (0xD800 + n / 0x400 - 0xD800) * 0x400 + (0xDC00 + n % 0x400 - 0xDC00) =
        c.toNat := by omega
    rw [hu, List.cons_append, List.singleton_append, ofUnits?.eq_def]
    simp only [hl, hh, hl', hc, Bool.false_eq_true, if_false, if_true, Char.ofNat_toNat]

theorem ofUnits?_flatMap (cs : List Char) : ofUnits? (cs.flatMap unitsOf) = some cs := by
  induction cs with
  | nil => rfl
  | cons c cs ih => rw [List.flatMap_cons, ofUnits?_append, ih]; rfl

theorem readUnits_unit {n : Nat} (h : n < 0x10000) (rest : List Char) :
    readUnits (unit n ++ rest) = (readUnits rest).map (before [n]) := by
  have hd : ∀ d, d < 16 → (Text.Hex.digit d).toLower = Text.Hex.digit d := by decide
  have hl : (Text.Hex.fixed 4 n).map Char.toLower = Text.Hex.fixed 4 n := by
    simp only [Text.Hex.fixed, List.map_append, List.map_cons, List.map_nil,
      hd _ (Nat.mod_lt _ (by decide))]
  have hr : Text.Hex.read 0 ((Text.Hex.fixed 4 n).map Char.toLower) = some n := by
    rw [hl, Text.Hex.read_fixed, Nat.zero_mul, Nat.zero_add]
    exact congrArg some (Nat.mod_eq_of_lt h)
  show (Text.Hex.read 0 ((Text.Hex.fixed 4 n).map Char.toLower)).bind _ = _
  rw [hr]
  rfl

/-- A character that needs no escape stands for itself. -/
theorem readUnits_plain {c : Char} (hq : c ≠ '\x22') (hb : c ≠ '\\') (hn : 0x20 ≤ c.toNat)
    (rest : List Char) : readUnits (c :: rest) = (readUnits rest).map (before (unitsOf c)) := by
  have hs : ¬ (c = '\\' ∨ c.toNat < 0x20) := not_or.2 ⟨hb, Nat.not_lt.2 hn⟩
  rw [readUnits, if_neg hq, if_neg hs]
  · exact fun _ _ _ _ _ h _ => hb h
  · exact fun _ _ h _ => hb h

/-- A character is read back from its escape, whatever follows it. -/
theorem readUnits_escape (c : Char) (rest : List Char) :
    readUnits (escape c ++ rest) = (readUnits rest).map (before (unitsOf c)) := by
  by_cases h : c ∈ ['\x22', '\\', '\n', '\r', '\t', '\x08', '\x0c']
  · simp only [List.mem_cons, List.not_mem_nil, or_false] at h
    rcases h with rfl | rfl | rfl | rfl | rfl | rfl | rfl <;> rfl
  simp only [List.mem_cons, List.not_mem_nil, or_false, not_or] at h
  obtain ⟨hq, hb, hn, hr, ht, hbs, hff⟩ := h
  simp only [escape, hq, hb, hn, hr, ht, hbs, hff, or_self, if_false]
  have hv : c.toNat < 0xD800 ∨ 0xDFFF < c.toNat ∧ c.toNat < 0x110000 := c.valid
  split
  · next hp => exact readUnits_plain hq hb hp.1 rest
  split
  · next hn =>
    rw [readUnits_unit hn, unitsOf]
    simp only [if_pos hn]
  · next hn =>
    have hhigh : 0xD800 + (c.toNat - 0x10000) / 0x400 < 0x10000 := by omega
    have hlow : 0xDC00 + (c.toNat - 0x10000) % 0x400 < 0x10000 := by omega
    rw [List.append_assoc, readUnits_unit hhigh, readUnits_unit hlow, Option.map_map, unitsOf]
    simp only [if_neg hn]
    rfl

theorem readUnits_flatMap (cs rest : List Char) :
    readUnits (cs.flatMap escape ++ '\x22' :: rest) = some (cs.flatMap unitsOf, rest) := by
  induction cs with
  | nil => rfl
  | cons c cs ih =>
    rw [List.flatMap_cons, List.append_assoc, readUnits_escape, ih]
    rfl

/-! ### Lexemes of a text -/

/-- No digit stands at the beginning. -/
def NoDigit (cs : List Char) : Prop := ∀ c ∈ cs.head?, c.isDigit = false

/-- The text is cut into these lexemes, whatever follows it. -/
def Cuts (text : List Char) (ls : List Lexeme) : Prop :=
  ∀ rest, lex (text ++ rest) = (lex rest).map (ls ++ ·)

/-- The text is cut into these lexemes, unless a digit follows it. -/
def Lexes (text : List Char) (ls : List Lexeme) : Prop :=
  ∀ rest, NoDigit rest → lex (text ++ rest) = (lex rest).map (ls ++ ·)

/-- The text ends a numeral in front of it, and is cut into these lexemes. -/
structure Delimits (text : List Char) (ls : List Lexeme) : Prop where
  cuts : Cuts text ls
  exists_head : ∃ c rest, text = c :: rest ∧ c.isDigit = false

section

variable {text text' : List Char} {ls ls' : List Lexeme} {c : Char} {lexeme : Lexeme}

theorem lex_append (h : lex text' = (lex text).map (ls' ++ ·)) :
    (lex text').map (ls ++ ·) = (lex text).map (ls ++ ls' ++ ·) := by
  rw [h, Option.map_map]
  congr 1
  funext l
  exact (List.append_assoc ls ls' l).symm

theorem Cuts.nil : Cuts [] [] := fun rest => by
  show lex rest = (lex rest).map fun l => l
  rw [Option.map_id']

theorem Cuts.append (h : Cuts text ls) (h' : Cuts text' ls') : Cuts (text ++ text') (ls ++ ls') := by
  intro rest
  rw [List.append_assoc, h, lex_append (h' rest)]

theorem Cuts.lexes (h : Cuts text ls) : Lexes text ls := fun rest _ => h rest

theorem Cuts.append_lexes (h : Cuts text ls) (h' : Lexes text' ls') :
    Lexes (text ++ text') (ls ++ ls') := by
  intro rest hr
  rw [List.append_assoc, h, lex_append (h' rest hr)]

theorem Lexes.append (h : Lexes text ls) (h' : Delimits text' ls') :
    Cuts (text ++ text') (ls ++ ls') := by
  intro rest
  obtain ⟨c, cs, rfl, hc⟩ := h'.exists_head
  have hn : NoDigit (c :: cs ++ rest) := by
    intro d hd
    cases hd
    exact hc
  rw [List.append_assoc, h _ hn, lex_append (h'.cuts rest)]

theorem Delimits.append (h : Delimits text ls) (h' : Cuts text' ls') :
    Delimits (text ++ text') (ls ++ ls') := by
  obtain ⟨c, cs, rfl, hc⟩ := h.exists_head
  exact ⟨h.cuts.append h', c, cs ++ text', rfl, hc⟩

/-- A lexeme that ends in front of anything. -/
theorem cuts_of_lexeme? (hs : isSpace c = false)
    (h : ∀ rest, lexeme? (c :: text ++ rest) = some (lexeme, rest)) :
    Cuts (c :: text) [lexeme] := fun rest => lex_of_lexeme? hs (h rest)

theorem delimits_mark (h : mark? c = some lexeme) : Delimits [c] [lexeme] := by
  unfold mark? at h
  split at h <;> cases h <;> exact ⟨cuts_of_lexeme? rfl fun _ => rfl, _, [], rfl, by decide⟩

theorem delimits_space (h : isSpace c = true) (hd : c.isDigit = false) : Delimits [c] [] := by
  refine ⟨fun rest => ?_, c, [], rfl, hd⟩
  rw [List.singleton_append, lex_of_isSpace h]
  exact Cuts.nil rest

theorem cuts_string (s : String) : Cuts (string s).toList [.text s] := by
  have hl : (string s).toList = '\x22' :: (s.toList.flatMap escape ++ ['\x22']) :=
    String.toList_ofList
  rw [hl]
  refine cuts_of_lexeme? rfl fun rest => ?_
  rw [List.cons_append, List.append_assoc, List.singleton_append]
  simp only [lexeme?, readUnits_flatMap, Option.bind_some, ofUnits?_flatMap, Option.map_some,
    String.ofList_toList]

/-! ### Integers -/

theorem natural?_digits (n : Nat) {rest : List Char} (h : NoDigit rest) :
    natural? (Numeral.digits n ++ rest) = some (n, rest) := by
  have hd : ∀ c ∈ Numeral.digits n, c.isDigit = true := (Numeral.isNumeral_padded 0 n).isDigit
  have hv : Numeral.value (Numeral.digits n) = n := Numeral.value_padded 0 n
  obtain ⟨ht, hr⟩ := Scan.span_append hd h
  rw [natural?, ht, hr, hv]
  exact if_pos rfl

theorem lexeme?_of_isDigit (h : c.isDigit = true) :
    lexeme? (c :: text) = (natural? (c :: text)).map fun read => (.integer read.1, read.2) := by
  have hm : mark? c = none := by
    unfold mark?
    split
    all_goals first | rfl | exact absurd h (by decide)
  rw [lexeme?, hm]
  all_goals
    intros
    subst_vars
    exact absurd h (by decide)

theorem isSpace_eq_false (h : c.isDigit = true) : isSpace c = false := by
  simp only [isSpace, Bool.or_eq_false_iff, beq_eq_false_iff_ne]
  refine ⟨⟨⟨?_, ?_⟩, ?_⟩, ?_⟩ <;>
    (intro he
     subst he
     exact absurd h (by decide))

theorem lexes_write (n : Int) : Lexes (Numeral.write n).toList [.integer n] := by
  intro rest hr
  rw [Numeral.write, String.toList_ofList]
  by_cases hn : n < 0
  · rw [if_pos hn]
    have hl : lexeme? ('-' :: (Numeral.digits n.natAbs ++ rest)) = some (.integer n, rest) := by
      rw [lexeme?, natural?_digits _ hr]
      show some (Lexeme.integer (-n.natAbs), rest) = _
      rw [Int.ofNat_natAbs_of_nonpos (Int.le_of_lt hn), Int.neg_neg]
    exact lex_of_lexeme? rfl hl
  · rw [if_neg hn]
    have hnum := Numeral.isNumeral_padded 0 n.natAbs
    obtain ⟨d, ds, hds⟩ := List.exists_cons_of_ne_nil hnum.ne_nil
    have hdig : Numeral.digits n.natAbs = d :: ds := hds
    have hd : d.isDigit = true := hnum.isDigit d (by rw [hds]; exact List.mem_cons_self)
    have hl : lexeme? (d :: (ds ++ rest)) = some (.integer n, rest) := by
      rw [lexeme?_of_isDigit hd, ← List.cons_append, ← hdig, natural?_digits _ hr]
      show some (Lexeme.integer n.natAbs, rest) = _
      rw [Int.natAbs_of_nonneg (Int.not_lt.1 hn)]
    rw [hdig]
    exact lex_of_lexeme? (isSpace_eq_false hd) hl

end

/-! ### Layout -/

section

variable (layout : Layout) (level : Nat) {sep close : List Char} {texts : List (List Char)}
  {ls : List Lexeme} {lss : List (List Lexeme)}

theorem delimits_lineBreak : Delimits (lineBreak level).toList [] := by
  have hs : ∀ n, Cuts (List.replicate n ' ') [] := by
    intro n
    induction n with
    | zero => exact .nil
    | succ n ih => exact (delimits_space rfl rfl).cuts.append ih
  rw [lineBreak, String.toList_append, @String.toList_ofList (List.replicate _ _)]
  have hn : Delimits ['\n'] [] := delimits_space rfl rfl
  exact hn.append (hs _)

theorem cuts_opening : Cuts (layout.opening level).toList [] := by
  cases layout with
  | compact | spaced => exact .nil
  | indented => exact (delimits_lineBreak _).cuts

theorem delimits_closing (h : Delimits close ls) :
    Delimits ((layout.closing level).toList ++ close) ls := by
  cases layout with
  | compact | spaced => exact h
  | indented => exact (delimits_lineBreak level).append h.cuts

theorem delimits_separator : Delimits (layout.separator level).toList [.comma] := by
  have hc : Delimits [','] [.comma] := delimits_mark rfl
  have hs : Delimits [' '] [] := delimits_space rfl rfl
  cases layout with
  | compact =>
    show Delimits ",".toList _
    exact hc
  | spaced =>
    show Delimits ", ".toList _
    exact hc.append hs.cuts
  | indented =>
    show Delimits ("," ++ lineBreak (level + 1)).toList _
    rw [String.toList_append]
    exact hc.append (delimits_lineBreak _).cuts

theorem cuts_colon : Cuts layout.colon.toList [.colon] := by
  have hc : Delimits [':'] [.colon] := delimits_mark rfl
  have hs : Delimits [' '] [] := delimits_space rfl rfl
  cases layout with
  | compact =>
    show Cuts ":".toList _
    exact hc.cuts
  | spaced | indented =>
    show Cuts ": ".toList _
    exact hc.cuts.append hs.cuts

/-- Each item is followed by a delimiter. -/
theorem cuts_intercalate (hs : Delimits sep [.comma]) (hc : Delimits close ls)
    (h : Forall₂ Lexes texts lss) (hn : texts ≠ []) :
    Cuts (sep.intercalate texts ++ close) ([Lexeme.comma].intercalate lss ++ ls) := by
  induction h with
  | nil => exact absurd rfl hn
  | cons ht hr ih =>
    cases hr with
    | nil =>
      rw [List.intercalate_singleton, List.intercalate_singleton]
      exact ht.append hc
    | cons =>
      rw [List.intercalate_cons_cons, List.intercalate_cons_cons]
      have hi := ih (List.cons_ne_nil _ _)
      have hb := (ht.append hs).append hi
      simp only [List.append_assoc] at hb ⊢
      exact hb

/-- Brackets around items, or without an item between them. -/
theorem cuts_enclose (first last : String) {opening closing : Lexeme} {items : List String}
    (hf : Cuts first.toList [opening]) (hl : Delimits last.toList [closing])
    (h : Forall₂ Lexes (items.map String.toList) lss) :
    Cuts (layout.enclose level first last items).toList
      (opening :: ([Lexeme.comma].intercalate lss ++ [closing])) := by
  cases items with
  | nil =>
    cases h
    rw [Layout.enclose, String.toList_append]
    exact hf.append hl.cuts
  | cons item items =>
    have hi := cuts_intercalate (delimits_separator layout level) (delimits_closing layout level hl)
      h (List.cons_ne_nil _ _)
    have hb := hf.append ((cuts_opening layout level).append hi)
    rw [Layout.enclose]
    · simp only [String.toList_append, String.toList_intercalate, List.append_assoc]
      exact hb
    · exact List.cons_ne_nil item items

end

/-! ### Values -/

mutual

/-- The lexemes of a value. -/
def lexemes : Json → List Lexeme
  | null => [.null]
  | integer n => [.integer n]
  | text s => [.text s]
  | array items => .arrayOpen :: ([.comma].intercalate (itemLexemes items) ++ [.arrayClose])
  | object members =>
    .objectOpen :: ([.comma].intercalate (memberLexemes members) ++ [.objectClose])

def itemLexemes : List Json → List (List Lexeme)
  | [] => []
  | item :: items => item.lexemes :: itemLexemes items

def memberLexemes : List (String × Json) → List (List Lexeme)
  | [] => []
  | member :: members => pairLexemes member :: memberLexemes members

def pairLexemes : String × Json → List Lexeme
  | (name, value) => .text name :: .colon :: value.lexemes

end

mutual

/-- A written value is cut into its lexemes. -/
theorem lexes_writeAt (layout : Layout) (level : Nat) : (v : Json) →
    Lexes (v.writeAt layout level).toList v.lexemes
  | null => by
    have hn : Cuts ['n', 'u', 'l', 'l'] [.null] := cuts_of_lexeme? rfl fun _ => rfl
    show Lexes "null".toList _
    exact hn.lexes
  | integer n => lexes_write n
  | text s => (cuts_string s).lexes
  | array items => by
    have hf : Delimits ['['] [.arrayOpen] := delimits_mark rfl
    have hl : Delimits [']'] [.arrayClose] := delimits_mark rfl
    have hi := lexes_writeItems layout (level + 1) items
    exact (cuts_enclose layout level "[" "]" hf.cuts hl hi).lexes
  | object members => by
    have hf : Delimits ['\x7b'] [.objectOpen] := delimits_mark rfl
    have hl : Delimits ['\x7d'] [.objectClose] := delimits_mark rfl
    have hm := lexes_writeMembers layout (level + 1) members
    exact (cuts_enclose layout level "\x7b" "\x7d" hf.cuts hl hm).lexes

theorem lexes_writeItems (layout : Layout) (level : Nat) : (items : List Json) →
    Forall₂ Lexes ((writeItems layout level items).map String.toList) (itemLexemes items)
  | [] => .nil
  | item :: items => .cons (lexes_writeAt layout level item) (lexes_writeItems layout level items)

theorem lexes_writeMembers (layout : Layout) (level : Nat) : (members : List (String × Json)) →
    Forall₂ Lexes ((writeMembers layout level members).map String.toList) (memberLexemes members)
  | [] => .nil
  | member :: members =>
    .cons (lexes_writeMember layout level member) (lexes_writeMembers layout level members)

theorem lexes_writeMember (layout : Layout) (level : Nat) : (member : String × Json) →
    Lexes (writeMember layout level member).toList (pairLexemes member)
  | (name, value) => by
    rw [writeMember, String.toList_append, String.toList_append]
    exact ((cuts_string name).append (cuts_colon layout)).append_lexes
      (lexes_writeAt layout level value)

end

/-- Behind the first item, each one has a comma in front of it. -/
theorem intercalate_commas (ls : List Lexeme) (lss : List (List Lexeme)) :
    [Lexeme.comma].intercalate (ls :: lss) = ls ++ lss.flatMap (.comma :: ·) := by
  induction lss generalizing ls with
  | nil => rw [List.intercalate_singleton, List.flatMap_nil, List.append_nil]
  | cons ls' lss ih =>
    rw [List.intercalate_cons_cons, ih, List.flatMap_cons, List.append_assoc]
    rfl

mutual

/-- A value is read from its lexemes, whatever is around it. -/
theorem readValue_lexemes (around : List Around) (ls : List Lexeme) : (v : Json) →
    readValue around (v.lexemes ++ ls) = readBehind around v ls
  | null | integer _ | text _ | array [] | object [] => rfl
  | array (item :: items) => by
    have hb := readBehind_items around ls [] item items
    rw [lexemes, itemLexemes, intercalate_commas]
    simp only [List.cons_append, List.append_assoc]
    rw [readValue, readValue_lexemes]
    exact hb
  | object ((name, value) :: members) => by
    have hb := readBehind_members around ls [] name value members
    rw [lexemes, memberLexemes, pairLexemes, intercalate_commas]
    simp only [List.cons_append, List.append_assoc]
    rw [readValue, readValue_lexemes]
    exact hb

/-- The items behind one are read, and then the end of their array. -/
theorem readBehind_items (around : List Around) (ls : List Lexeme) (done : List Json)
    (item : Json) : (items : List Json) →
    readBehind (.array done :: around) item
      ((itemLexemes items).flatMap (.comma :: ·) ++ .arrayClose :: ls) =
      readBehind around (.array (done.reverse ++ item :: items)) ls
  | [] => by
    rw [itemLexemes, List.flatMap_nil, List.nil_append, readBehind, List.reverse_cons]
  | next :: items => by
    have hb := readBehind_items around ls (item :: done) next items
    rw [List.reverse_cons, List.append_assoc] at hb
    rw [itemLexemes, List.flatMap_cons]
    simp only [List.cons_append, List.append_assoc]
    rw [readBehind, readValue_lexemes]
    exact hb

theorem readBehind_members (around : List Around) (ls : List Lexeme)
    (done : List (String × Json)) (name : String) (value : Json) :
    (members : List (String × Json)) →
    readBehind (.object done name :: around) value
      ((memberLexemes members).flatMap (.comma :: ·) ++ .objectClose :: ls) =
      readBehind around (.object (done.reverse ++ (name, value) :: members)) ls
  | [] => by
    rw [memberLexemes, List.flatMap_nil, List.nil_append, readBehind, List.reverse_cons]
  | (next, nextValue) :: members => by
    have hb := readBehind_members around ls ((name, value) :: done) next nextValue members
    rw [List.reverse_cons, List.append_assoc] at hb
    rw [memberLexemes, pairLexemes, List.flatMap_cons]
    simp only [List.cons_append, List.append_assoc]
    rw [readBehind, readValue_lexemes]
    exact hb

end

/-- A value is read from any text that is cut into its lexemes. -/
theorem read?_of_lexes {text : String} {v : Json} (h : Lexes text.toList v.lexemes) :
    read? text = some v := by
  have hl := h [] (fun _ hc => by cases hc)
  have hv := readValue_lexemes [] [] v
  rw [List.append_nil] at hl hv
  rw [read?, hl, lex, Option.map_some, Option.bind_some, List.append_nil, hv]
  rfl

/-- In every layout, a written value is read back. -/
theorem read?_write (layout : Layout) (v : Json) : read? (v.write layout) = some v :=
  read?_of_lexes (lexes_writeAt layout 0 v)

example : (read? "[ -0, \"\\uD83D\\uDE00\"]").map (write .compact) =
    some "[0,\"\\ud83d\\ude00\"]" := by cbv
example : read? "[01]" = none := by cbv

end LispReader.Json
