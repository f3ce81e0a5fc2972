import LispReader.Proofs.Conflicts
import LispReader.Proofs.Extension
import LispReader.Proofs.Leftmost

/-! Parsing by a part of the grammar.

Some of the productions of the grammar make a table as well: a part of a list without conflicts has
none. Where the smaller table covers a cell, a run does what it does by the larger one, so runs by
the two tables agree up to the first cell that the smaller one misses. Hence the smaller table
returns a tree just if the full one does and chooses none of the productions that are left out. But
an application is read in the place of its production, and inside no table is asked. So what a
restricted table excludes is excluded outside of applications only: `restricted_parse_iff`. -/
namespace LispReader

/-! ### Tables of some productions -/

namespace Table

/-- Each production of the larger table whose number is one of the smaller table is in it. -/
def NumbersDecide (large small : Table) : Prop :=
  ∀ p ∈ large.rules, (∃ q ∈ small.rules, q.id = p.id) → p ∈ small.rules

theorem extends_of_subset {large small : Table} (h : small.rules ⊆ large.rules) :
    large.Extends small := by
  intro nt kind p hp
  obtain ⟨hm, hc⟩ := lookup_eq_some_iff.1 hp
  exact lookup_eq_some_iff.2 ⟨h hm, hc⟩

/-- The productions of the grammar are known by their numbers. -/
theorem numbersDecide_standard {table : Table} (h : table.rules.Sublist Grammar.productions) :
    Grammar.standard.NumbersDecide table := by
  rintro p hp ⟨q, hq, hn⟩
  have hinj : ∀ p ∈ Grammar.productions, ∀ q ∈ Grammar.productions, q.id = p.id → q = p := by decide
  exact hinj p hp q (h.subset hq) hn ▸ hq

end Table

namespace Derivation
open Phrase

/-! ### Chosen productions -/

section

variable {table : Table} {s s' : State} {o : Outcome}

/-- The number of the production that a step chooses, if there is a nonterminal on top. -/
def State.chosen (s : State) (table : Table) : List Int :=
  match s.control.items with
  | .nonterminal nt :: _ => ((table.lookup nt s.cursor.current.kind).map (·.id)).toList
  | _ => []

/-- A step adds these productions to the trace, or it stops. -/
def Adds (s : State) (numbers : List Int) : State ⊕ Outcome → Prop
  | .inl s' => chosenIn s'.trace = chosenIn s.trace ++ numbers
  | .inr o => o.trace = s.trace

theorem adds_step (table : Table) (s : State) : Adds s (s.chosen table) (s.step table) := by
  have h := stepped table s
  unfold State.chosen
  generalize s.step table = r at h
  cases h with
  | closed | valueless | unclosed | unreadable | mismatched | failed | missed | unapplied | stray =>
    rfl
  | bare top | leaf top | applied top =>
    rw [top]
    exact chosenIn_cons ..
  | expanded top cell | delegated top cell =>
    rw [top]
    simp only [cell]
    exact chosenIn_cons ..

theorem mem_chosen {n : Int} (h : n ∈ s.chosen table) : ∃ p ∈ table.rules, p.id = n := by
  unfold State.chosen at h
  split at h
  · rw [Option.mem_toList] at h
    obtain ⟨p, hp, rfl⟩ := Option.map_eq_some_iff.1 h
    exact ⟨p, (Table.lookup_eq_some_iff.1 hp).1, rfl⟩
  · cases h

/-- A run chooses no production but those of its table. -/
theorem chosen_of_run {limit : Nat} (h : run table limit s = some o) :
    ∃ numbers, o.chosen = chosenIn s.trace ++ numbers ∧
      ∀ n ∈ numbers, ∃ p ∈ table.rules, p.id = n := by
  induction limit generalizing s with
  | zero => cases h
  | succ limit ih =>
    have ha := adds_step table s
    rw [run] at h
    cases hs : s.step table with
    | inl s' =>
      rw [hs] at h ha
      obtain ⟨numbers, ho, hn⟩ := ih h
      refine ⟨s.chosen table ++ numbers, ?_, ?_⟩
      · rw [ho, ha, List.append_assoc]
      · exact List.forall_mem_append.2 ⟨fun n => mem_chosen, hn⟩
    | inr o' =>
      rw [hs] at h ha
      cases h
      have hc : o.chosen = chosenIn s.trace := congrArg chosenIn ha
      exact ⟨[], by rw [hc, List.append_nil], List.forall_mem_nil _⟩

end

/-! ### Runs by a smaller table -/

section

variable {large small : Table} {s s' : State} {o : Outcome}

/-- A nonterminal on top does not end a run well. -/
theorem exists_fault_of_nonterminal {table : Table} {nt : Nonterminal} {control : List Symbol}
    (hc : s.control.items = .nonterminal nt :: control) (hs : s.step table = .inr o) :
    ∃ fault, o.result = .error fault := by
  have h := stepped table s
  rw [hs] at h
  cases h with
  | closed empty => cases hc.symm.trans empty
  | _ => exact ⟨_, rfl⟩

/-- A step that goes on by the larger table is the same by the smaller one, if that has the chosen
production. -/
theorem step_eq_of_chosen (hd : large.NumbersDecide small) (hs : s.step large = .inl s')
    (hn : ∀ n ∈ s.chosen large, ∃ q ∈ small.rules, q.id = n) : s.step small = .inl s' := by
  refine (step_eq_of_cell fun nt control hc => ?_).trans hs
  cases hl : large.lookup nt s.cursor.current.kind with
  | none => cases (step_missed hc hl).symm.trans hs
  | some p =>
    obtain ⟨hp, hcovers⟩ := Table.lookup_eq_some_iff.1 hl
    have hmem : p.id ∈ s.chosen large := by
      simp only [State.chosen, hc, hl]
      exact List.mem_singleton_self _
    exact ⟨p, Table.lookup_eq_some_iff.2 ⟨hd p hp (hn _ hmem), hcovers⟩, rfl⟩

/-- A run by the larger table that gives a tree is a run by the smaller one, if that has the chosen
productions. -/
theorem run_of_chosen (hd : large.NumbersDecide small) {limit : Nat} {t : ParseTree}
    (hr : run large limit s = some o) (ho : o.result = .ok t)
    (hn : ∀ n ∈ o.chosen, ∃ q ∈ small.rules, q.id = n) : run small limit s = some o := by
  induction limit generalizing s with
  | zero => cases hr
  | succ limit ih =>
    rw [run] at hr ⊢
    cases hs : s.step large with
    | inl s' =>
      rw [hs] at hr
      have ha := adds_step large s
      rw [hs] at ha
      obtain ⟨numbers, hc, -⟩ := chosen_of_run hr
      rw [ha] at hc
      rw [step_eq_of_chosen hd hs fun n hm => hn n (by simp [hc, hm])]
      exact ih hr
    | inr o' =>
      rw [hs] at hr
      cases hr
      have he : s.step small = s.step large := step_eq_of_cell fun nt control hc => by
        obtain ⟨fault, hf⟩ := exists_fault_of_nonterminal hc hs
        cases hf.symm.trans ho
      rw [he, hs]

end

/-- The table returns this tree for what is ahead, in some number of steps. -/
def Returns (table : Table) (c : Cursor) (t : ParseTree) : Prop :=
  ∃ limit o, run table limit (start c) = some o ∧ o.result = .ok t

theorem returns_iff {table : Table} (h : table.rules.Sublist Grammar.productions) {c : Cursor}
    {t : ParseTree} :
    Returns table c t ↔
      ∃ d : Expression c.ahead t, ∀ n ∈ 1 :: d.chosen, n ∈ table.rules.map (·.id) := by
  constructor
  · rintro ⟨limit, o, hr, ho⟩
    have hs : run Grammar.standard limit (start c) = some o := by
      have he : Grammar.standard.Extends table := Table.extends_of_subset h.subset
      rcases run_of_extends he hr with ⟨-, hs⟩ | ⟨-, ⟨nt, -, hm⟩, -⟩
      · exact hs
      · cases ho.symm.trans hm
    have hparse : parseStandard c = o := runStandard_eq_of_run hs
    obtain ⟨d⟩ := parseStandard_ok_iff.1 (hparse ▸ ho)
    obtain ⟨numbers, hc, hn⟩ := chosen_of_run hr
    have hd := (parseStandard_chosen d).2
    rw [hparse, hc] at hd
    refine ⟨d, fun n hm => List.mem_map.2 (hn n ?_)⟩
    rw [← hd] at hm
    exact hm
  · rintro ⟨d, hn⟩
    obtain ⟨limit, hr⟩ := exists_run_standard (start c)
    obtain ⟨ho, hc⟩ := parseStandard_chosen d
    refine ⟨limit, _, run_of_chosen (Table.numbersDecide_standard h) hr ho fun n hm => ?_, ho⟩
    exact List.mem_map.1 (hn n (hc ▸ hm))

/-- Without the production of applications, the productions of the whole derivation are chosen. -/
theorem returns_iff_of_not_mem {table : Table} (h : table.rules.Sublist Grammar.productions)
    (hn : 12 ∉ table.rules.map (·.id)) {c : Cursor} {t : ParseTree} :
    Returns table c t ↔
      ∃ d : Expression c.ahead t, ∀ n ∈ 1 :: d.numbers, n ∈ table.rules.map (·.id) := by
  rw [returns_iff h]
  constructor
  · rintro ⟨d, hd⟩
    have hc : 12 ∉ d.chosen := fun hm => hn (hd 12 (List.mem_cons_of_mem 1 hm))
    exact ⟨d, d.numbers_eq_chosen hc ▸ hd⟩
  · rintro ⟨d, hd⟩
    exact ⟨d, fun n hm => hd n ((d.chosen_sublist.cons_cons 1).subset hm)⟩

variable {rules : List Production} {tokens : List Token}

/-- A table of some of the productions returns the trees of those derivations that use, outside of
applications, none but its productions; inside an application, every production can be used. Without
the production of applications, none but its productions are used at all. -/
theorem restricted_parse_iff (h : rules.Sublist Grammar.productions) (ht : Terminated tokens) :
    ∃ table c, Table.ofProductions rules = .ok table ∧ Cursor.ofTokens? tokens = some c ∧
      (∀ t, Returns table c t ↔
        ∃ d : Expression (word tokens) t, ∀ n ∈ 1 :: d.chosen, n ∈ rules.map (·.id)) ∧
      (12 ∉ rules.map (·.id) → ∀ t, Returns table c t ↔
        ∃ d : Expression (word tokens) t, ∀ n ∈ 1 :: d.numbers, n ∈ rules.map (·.id)) := by
  obtain ⟨c, hc, -, ha, -⟩ := ht.exists_cursor
  have hp : rules.Pairwise Production.Disjoint := Grammar.standard.disjoint.sublist h
  refine ⟨⟨rules, hp⟩, c, Table.ofProductions_of_pairwise hp, hc, ?_⟩
  rw [← ha]
  exact ⟨fun t => returns_iff h, fun hn t => returns_iff_of_not_mem h hn⟩

/-- The productions of the grammar, but for the one with this number. -/
def productionsBut (id : Int) : List Production := Grammar.productions.filter (·.id ≠ id)

/-- The tokens of `(x (+ 0 x))`, an application to a sum. -/
def appliedToSum : List Token :=
  [Kind.leftParen, .identifier, .leftParen, .plus, .number, .identifier, .rightParen, .rightParen,
    .endOfInput].map .sample

def appliedToSumTree : ParseTree :=
  .sequence (.symbol "x") [.sequence (.symbol "PLUS") [.number 0, .symbol "x"]]

def appliedToSumDerivation : Expression (word appliedToSum) appliedToSumTree :=
  let name : Expression [.sample .identifier] (.symbol "x") := .identifier _ rfl rfl
  let sum : Body ([Kind.plus, .number, .identifier].map .sample) _ :=
    .form ⟨.plus, "PLUS", [.expression, .expression]⟩ (.sample .plus) (by decide) rfl
      (.expression (.number (.sample .number) rfl rfl rfl) (.expression name .nil))
  let argument : Expression ([Kind.leftParen, .plus, .number, .identifier, .rightParen].map .sample)
      _ := .parenthesized (.sample .leftParen) (.sample .rightParen) rfl sum rfl
  .parenthesized (.sample .leftParen) (.sample .rightParen) rfl
    (.application (.cons name (.cons argument .nil))) rfl

/-- Without the production of sums, the application to a sum is returned. Without the production of
applications, nothing but the other productions is used. -/
theorem restricted_parse_appliedToSum :
    ((productionsBut 5).Sublist Grammar.productions ∧ Terminated appliedToSum ∧
      ∃ table c, Table.ofProductions (productionsBut 5) = .ok table ∧
        Cursor.ofTokens? appliedToSum = some c ∧ Returns table c appliedToSumTree) ∧
    (productionsBut 12).Sublist Grammar.productions ∧ 12 ∉ (productionsBut 12).map (·.id) ∧
      ∃ table c, Table.ofProductions (productionsBut 12) = .ok table ∧
        Cursor.ofTokens? appliedToSum = some c ∧
        ∀ t, Returns table c t ↔ ∃ d : Expression (word appliedToSum) t,
          ∀ n ∈ 1 :: d.numbers, n ∈ (productionsBut 12).map (·.id) := by
  have hs (id : Int) : (productionsBut id).Sublist Grammar.productions := List.filter_sublist
  have ht : Terminated appliedToSum := ⟨_, rfl, rfl⟩
  constructor
  · obtain ⟨table, c, hp, hc, hr, -⟩ := restricted_parse_iff (hs 5) ht
    exact ⟨hs 5, ht, table, c, hp, hc, (hr _).2 ⟨appliedToSumDerivation, by decide⟩⟩
  · obtain ⟨table, c, hp, hc, -, hr⟩ := restricted_parse_iff (hs 12) ht
    have hn : 12 ∉ (productionsBut 12).map (·.id) := by decide
    exact ⟨hs 12, hn, table, c, hp, hc, hr hn⟩

/-- A table without the production of sums returns a tree whose derivation uses it. -/
theorem returns_excluded_sum :
    (productionsBut 5).Sublist Grammar.productions ∧ Terminated appliedToSum ∧
    ∃ table c t, Table.ofProductions (productionsBut 5) = .ok table ∧
      Cursor.ofTokens? appliedToSum = some c ∧ Returns table c t ∧
      Derives (word appliedToSum) t ∧ 5 ∉ (productionsBut 5).map (·.id) ∧
      ∀ {t} (d : Expression (word appliedToSum) t), 5 ∈ d.numbers := by
  have hs : (productionsBut 5).Sublist Grammar.productions := List.filter_sublist
  have ht : Terminated appliedToSum := ⟨_, rfl, rfl⟩
  have hp : (productionsBut 5).Pairwise Production.Disjoint := Grammar.standard.disjoint.sublist hs
  have hd : ∀ n ∈ 1 :: appliedToSumDerivation.chosen, n ∈ (productionsBut 5).map (·.id) := by decide
  obtain ⟨c, hc, -, ha, -⟩ := ht.exists_cursor
  have hr : Returns ⟨productionsBut 5, hp⟩ c appliedToSumTree := by
    rw [returns_iff hs, ha]
    exact ⟨appliedToSumDerivation, hd⟩
  refine ⟨hs, ht, _, c, _, Table.ofProductions_of_pairwise hp, hc, hr, ⟨appliedToSumDerivation⟩,
    by decide, fun d => ?_⟩
  -- There is no other derivation than the one given.
  obtain ⟨rfl, hd⟩ := d.eq_of_word appliedToSumDerivation rfl
  cases hd
  decide

end Derivation

end LispReader
