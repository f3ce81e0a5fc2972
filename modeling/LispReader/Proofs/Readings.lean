import LispReader.Analysis
import LispReader.Proofs.Programs
import LispReader.Proofs.Tiling

/-! Reading from the text to the tree.

A text is read in two parts: its tokens are found, and then they are parsed. What is known of the
parts is put together here. A text is read as a tree just if its tokens in front of the end of
input derive the tree: `read_ok_iff`. -/
namespace LispReader

variable {source : String} {tokens : List Token}

/-- The tokens of a text are a word and the end of input. -/
theorem exists_word_of_scan (h : scan source = .ok tokens) :
    ∃ p, tokens = word tokens ++ [Token.endOfInput p] ∧ ∀ t ∈ word tokens, t.WellSpelled := by
  obtain ⟨body, p, rfl, hs⟩ := (Scan.scan_eq_iff.1 h).exists_body rfl
  have hw : word (body ++ [Token.endOfInput p]) = body :=
    word_append (fun t ht => (hs t ht).kind_ne) rfl
  rw [hw]
  exact ⟨p, rfl, hs⟩

theorem terminated_of_scan (h : scan source = .ok tokens) : Terminated tokens := by
  obtain ⟨p, hp⟩ := getLast?_scan h
  exact ⟨_, hp, rfl⟩

theorem read_of_scan_error {fault : LexicalFault} (h : scan source = .error fault) :
    read source = ⟨[], [], .error (.lexical fault)⟩ := by
  unfold read
  split
  · next he => cases h.symm.trans he; rfl
  · next ho => cases h.symm.trans ho

/-- The tokens of a text are parsed from the first one on. -/
theorem read_of_scan_ok (h : scan source = .ok tokens) :
    ∃ c, Cursor.ofTokens? tokens = some c ∧ c.ahead = word tokens ∧
      read source = ⟨tokens, (Derivation.parseStandard c).events,
        (Derivation.parseStandard c).result.mapError .parse⟩ := by
  obtain ⟨c, hc, -, ha, -⟩ := (terminated_of_scan h).exists_cursor
  refine ⟨c, hc, ha, ?_⟩
  unfold read
  split
  · next he => cases h.symm.trans he
  · next tokens' ho =>
    cases h.symm.trans ho
    have hcursor : cursorOfScan h = c := Option.get_of_eq_some _ hc
    rw [hcursor]

/-- Another name for faults does not make a value. -/
theorem mapError_eq_ok_iff {ε ε' α : Type} {x : Except ε α} {f : ε → ε'} {a : α} :
    x.mapError f = .ok a ↔ x = .ok a := by
  cases x with
  | ok b => exact ⟨fun h => by cases h; rfl, fun h => by cases h; rfl⟩
  | error e => exact ⟨nofun, nofun⟩

/-- A text is read as a tree just if it has tokens and their word derives the tree. -/
theorem read_ok_iff {t : ParseTree} :
    (read source).result = .ok t ↔
      ∃ tokens, scan source = .ok tokens ∧ Derives (word tokens) t := by
  cases hs : scan source with
  | error fault => simp [read_of_scan_error hs]
  | ok tokens =>
    obtain ⟨c, -, ha, hr⟩ := read_of_scan_ok hs
    rw [hr, mapError_eq_ok_iff, Derivation.parseStandard_ok_iff, ha]
    simp

end LispReader
