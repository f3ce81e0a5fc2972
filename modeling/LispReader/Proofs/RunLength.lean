import LispReader.Proofs.Extension
import LispReader.Proofs.Reach

/-! How long a parse takes.

Expansions and actions pass no token, and expansions make the control stack higher, so neither the
tokens nor the stack alone bounds the steps of a derivation. The surplus of a derivation are its
events beyond two for each token passed. A symbol may come to the top of the control stack with a
certain surplus and leaves a certain one behind, and a control stack is afforded if the surpluses of
its symbols fit together (`Affords`). If the right-hand sides of a table fit into the places of
their nonterminals, each step keeps the control stack afforded (`frugal_step`), and no derivation
gets further ahead of the tokens than by two events. Since every step leaves an event, this also
ends it: `exists_run`. By such a table a parse does not give up either: `exists_parse`. -/
namespace LispReader

/-! ### The surplus at a symbol -/

namespace Symbol

/-- The surplus with which the symbol may come to the top of the control stack. -/
def surplusBefore : Symbol → Nat
  | terminal .endOfInput => 1
  | terminal _ => 2
  | nonterminal .program => 0
  | nonterminal _ => 1
  | action _ => 1
  | stray _ => 0

/-- The surplus that there may be when the symbol has been processed. -/
def surplusAfter : Symbol → Nat
  | terminal .endOfInput => 2
  | terminal _ => 1
  | nonterminal .parenBody => 2
  | nonterminal _ => 1
  | action _ => 2
  | stray _ => 0

theorem surplusBefore_nonterminal_le (nt : Nonterminal) : (nonterminal nt).surplusBefore ≤ 1 := by
  cases nt <;> decide

theorem surplusBefore_le (symbol : Symbol) : symbol.surplusBefore ≤ 2 := by
  cases symbol with
  | terminal kind => cases kind <;> decide
  | nonterminal nt => exact Nat.le_succ_of_le (surplusBefore_nonterminal_le nt)
  | action form => exact Nat.le_succ 1
  | stray word => exact Nat.zero_le 2

end Symbol

/-- From the first surplus on, the symbols are processed one after the other, and the second one is
not exceeded behind the last of them. -/
def Affords : Nat → List Symbol → Nat → Prop
  | n, [], m => n ≤ m
  | n, symbol :: symbols, m =>
    n ≤ symbol.surplusBefore ∧ Affords symbol.surplusAfter symbols m

namespace Affords

variable {n n' m k : Nat} {symbol : Symbol} {symbols symbols' : List Symbol}

instance decidable (m : Nat) : (n : Nat) → (symbols : List Symbol) → Decidable (Affords n symbols m)
  | n, [] => inferInstanceAs (Decidable (n ≤ m))
  | n, symbol :: symbols =>
    have := decidable m symbol.surplusAfter symbols
    inferInstanceAs (Decidable (n ≤ symbol.surplusBefore ∧ _))

theorem of_le (h : Affords n symbols m) (hn : n' ≤ n) : Affords n' symbols m := by
  cases symbols with
  | nil => exact Nat.le_trans hn h
  | cons symbol symbols => exact ⟨Nat.le_trans hn h.1, h.2⟩

theorem append (h : Affords n symbols m) (h' : Affords m symbols' k) :
    Affords n (symbols ++ symbols') k := by
  induction symbols generalizing n with
  | nil => exact h'.of_le h
  | cons symbol symbols ih => exact ⟨h.1, ih h.2⟩

theorem le_two (h : Affords n symbols 2) : n ≤ 2 := by
  cases symbols with
  | nil => exact h
  | cons symbol symbols => exact Nat.le_trans h.1 symbol.surplusBefore_le

end Affords

/-- With the event of its expansion, the right-hand side fits into the place of the nonterminal. -/
def Production.Frugal (p : Production) : Prop :=
  p.variadic = false →
    Affords ((Symbol.nonterminal p.lhs).surplusBefore + 1) p.rhs
      (Symbol.nonterminal p.lhs).surplusAfter

instance (p : Production) : Decidable p.Frugal := inferInstanceAs (Decidable (_ → _))

theorem Grammar.frugal_standard : ∀ p ∈ standard.rules, p.Frugal := by decide

namespace Derivation
open Descent

variable {table : Table} {s s' : State}

/-! ### Steps -/

/-- The control stack is afforded by the surplus of the events so far. -/
def Frugal (s : State) : Prop :=
  ∃ n, s.trace.length ≤ 2 * s.cursor.index + n ∧ Affords n s.control.items 2

theorem frugal_start (c : Cursor) : Frugal (start c) := by
  have ha : Affords 0 [.nonterminal .program, .terminal .endOfInput] 2 := by decide
  exact ⟨0, Nat.zero_le _, ha⟩

theorem Frugal.length_trace_le (h : Frugal s) : s.trace.length ≤ 2 * s.cursor.index + 2 := by
  obtain ⟨n, hl, ha⟩ := h
  have := ha.le_two
  omega

/-- The symbol on top admits the surplus, and what it leaves affords what lies below. -/
theorem Frugal.of_top {symbol : Symbol} {control : List Symbol} (h : Frugal s)
    (top : s.control.items = symbol :: control) :
    s.trace.length ≤ 2 * s.cursor.index + symbol.surplusBefore ∧
      Affords symbol.surplusAfter control 2 := by
  obtain ⟨n, hl, ha⟩ := h
  rw [top] at ha
  exact ⟨Nat.le_trans hl (Nat.add_le_add_left ha.1 _), ha.2⟩

/-- A matched terminal lowers the surplus by one, for its token is passed. The end of input is not
passed and raises it, but comes with less. -/
theorem Frugal.matched {kind : Kind} {control : List Symbol} (h : Frugal s)
    (top : s.control.items = .terminal kind :: control) (found : s.cursor.current.kind = kind)
    (values : Stack ParseTree) (e : Event) :
    Frugal ⟨.ofList control, values, s.cursor.advance, e :: s.trace⟩ := by
  obtain ⟨hl, ha⟩ := h.of_top top
  refine ⟨_, ?_, ha⟩
  show s.trace.length + 1 ≤ 2 * s.cursor.advance.index + (Symbol.terminal kind).surplusAfter
  by_cases hk : kind = .endOfInput
  · subst hk
    rw [advance_eq_self found]
    exact Nat.succ_le_succ hl
  · have hb : (Symbol.terminal kind).surplusBefore = 2 ∧
        (Symbol.terminal kind).surplusAfter = 1 := by
      cases kind <;> first | exact ⟨rfl, rfl⟩ | exact absurd rfl hk
    have hi := (Passes.advance (c := s.cursor) (found.symm ▸ hk)).index
    rw [hb.1] at hl
    rw [hb.2, hi, List.length_singleton]
    omega

/-- A step keeps the control stack afforded, or the derivation stops and is not too long. -/
def StaysFrugal : State ⊕ Outcome → Prop
  | .inl s => Frugal s
  | .inr o => o.trace.length ≤ 2 * o.cursor.index + 2

theorem frugal_step (hf : ∀ p ∈ table.rules, p.Frugal) (h : Frugal s) :
    StaysFrugal (s.step table) := by
  have hr := stepsFrom_step table s
  have ht := trace_step table s
  have hs := stepped table s
  generalize s.step table = r at hr ht hs
  cases hs with
  | closed | valueless | unclosed | unreadable | mismatched | failed | missed | unapplied | stray =>
    -- The trace stays, and the position is not before the one of the state.
    have hi := Nat.mul_le_mul_left 2 hr.reaches.index_le
    exact Nat.le_trans h.length_trace_le (Nat.add_le_add_right hi 2)
  | bare top found | leaf top found => exact h.matched top found _ _
  | expanded top cell plain =>
    obtain ⟨hl, ha⟩ := h.of_top top
    obtain ⟨hp, rfl, -⟩ := Table.lookup_eq_some_iff.1 cell
    exact ⟨_, Nat.succ_le_succ hl, (hf _ hp plain).append ha⟩
  | @delegated nt _ _ _ c top cell variadic read =>
    -- An application has one token at least, which allows for two events, and leaves one.
    obtain ⟨hl, ha⟩ := h.of_top top
    have hn := Symbol.surplusBefore_nonterminal_le nt
    have hi := Reaches.index_add_length_ahead hr
    have hd := Application.length_ahead_application read
    refine ⟨0, ?_, ha.of_le (Nat.zero_le _)⟩
    simp only [State.record] at hi ⊢
    rw [List.length_cons]
    omega
  | applied top =>
    obtain ⟨hl, ha⟩ := h.of_top top
    exact ⟨_, Nat.succ_le_succ hl, ha⟩

/-! ### Runs -/

/-- Every step leaves an event, and there are no more than two for each token and two besides. So
the derivation stops within as many steps and one. -/
theorem exists_run (hf : ∀ p ∈ table.rules, p.Frugal) (h : Frugal s) {limit : Nat}
    (hl : 2 * (s.cursor.index + s.cursor.ahead.length) + 3 ≤ s.trace.length + limit) :
    ∃ o, run table limit s = some o ∧ o.trace.length ≤ 2 * o.cursor.index + 2 := by
  induction limit generalizing s with
  | zero =>
    have := h.length_trace_le
    omega
  | succ limit ih =>
    have hr := stepsFrom_step table s
    have ht := trace_step table s
    have hs := frugal_step hf h
    rw [run]
    cases hx : s.step table with
    | inl s' =>
      rw [hx] at hr ht hs
      obtain ⟨e, he⟩ := ht
      refine ih hs ?_
      rw [Reaches.index_add_length_ahead hr, he, List.length_cons]
      omega
    | inr o =>
      rw [hx] at hs
      exact ⟨o, rfl, hs⟩

/-- The limit of a parse allows for two events for each token and two besides. -/
theorem le_stepLimit (table : Table) (tokens : Nat) : 2 * tokens + 3 ≤ stepLimit table tokens := by
  rw [stepLimit]
  generalize (table.rules.map (·.rhs.length)).foldl max 0 = m
  generalize hb : 1 + m + m * m + m * m * m = below
  have hbelow : 1 ≤ below := by omega
  have hplain : 2 * tokens + 3 ≤ (3 * (tokens + 1) + 1) * below * (m + 1) :=
    calc 2 * tokens + 3 ≤ 3 * (tokens + 1) + 1 := by omega
      _ ≤ (3 * (tokens + 1) + 1) * below := Nat.le_mul_of_pos_right _ hbelow
      _ ≤ _ := Nat.le_mul_of_pos_right _ (Nat.succ_pos m)
  calc 2 * tokens + 3 ≤ (3 * (tokens + 1) + 1) * below * (m + 1) + 2 + 1 := by omega
    _ ≤ _ := Nat.le_mul_of_pos_right _ (by omega)

/-- A parse does not give up if the right-hand sides fit into the places of their nonterminals. -/
theorem exists_parse (hf : ∀ p ∈ table.rules, p.Frugal) {tokens : List Token} {c : Cursor}
    (hc : Cursor.ofTokens? tokens = some c) : ∃ o, parse table c = some o := by
  obtain ⟨hi, -⟩ := begins_of_ofTokens? hc
  have hl : 2 * ((start c).cursor.index + (start c).cursor.ahead.length) + 3 ≤
      (start c).trace.length + stepLimit table c.ahead.length := by
    show 2 * (c.index + c.ahead.length) + 3 ≤ 0 + stepLimit table c.ahead.length
    rw [hi, Nat.zero_add, Nat.zero_add]
    exact le_stepLimit table c.ahead.length
  obtain ⟨o, ho, -⟩ := exists_run hf (frugal_start c) hl
  exact ⟨o, ho⟩

theorem parse_standard {tokens : List Token} {c : Cursor} (hc : Cursor.ofTokens? tokens = some c) :
    parse Grammar.standard c = some (parseStandard c) := by
  obtain ⟨o, ho⟩ := exists_parse Grammar.frugal_standard hc
  rw [ho, parseStandard, runStandard_eq_of_run ho]

end Derivation

/-! ### The stack machine -/

namespace Application

/-- The end of a run if it comes within the given number of steps. -/
def State.runWithin : Nat → State → Option Result
  | 0, _ => none
  | limit + 1, s =>
    match s.step with
    | .inl s => s.runWithin limit
    | .inr result => some result

theorem runWithin_of_measure_lt {limit : Nat} {s : State} (h : s.measure < limit) :
    s.runWithin limit = some s.run := by
  induction limit generalizing s with
  | zero => cases h
  | succ limit ih =>
    rw [State.runWithin]
    cases hs : s.step with
    | inl s' =>
      rw [run_of_step_eq_inl hs]
      exact ih (Nat.lt_of_lt_of_le (measure_step hs) (Nat.le_of_lt_succ h))
    | inr result => rw [run_of_step_eq_inr hs]

end Application

namespace Derivation

/-- By the standard grammar, the derivation over a token list ends, with two events for each token
of its word and two more at the most. So does each of its steps: from every position that can be
reached, the stack machine is through with an application within twice as many steps as there are
tokens, and one. -/
theorem parse_ends_within {tokens : List Token} (h : Terminated tokens) :
    ∃ c o, Cursor.ofTokens? tokens = some c ∧ parseTokens? tokens = some o ∧
      run Grammar.standard (2 * (word tokens).length + 3) (start c) = some o ∧
      o.events.length ≤ 2 * (word tokens).length + 2 ∧
      ∀ c', Reaches c c' →
        Application.State.runWithin (2 * (word tokens).length + 1)
          ⟨{ shape := .application, closes := false }, [], c'⟩ =
            some (Application.application c') := by
  obtain ⟨c, hc, -⟩ := h.exists_cursor
  have hn := (Reaches.refl c).index_add_length hc
  obtain ⟨o, ho, hl⟩ : ∃ o, run Grammar.standard (2 * (word tokens).length + 3) (start c) = some o ∧
      o.trace.length ≤ 2 * o.cursor.index + 2 :=
    exists_run Grammar.frugal_standard (frugal_start c) (by
      rw [← hn]
      exact Nat.le_add_left _ _)
  refine ⟨c, o, hc, parseTokens?_eq_of_run hc ho, ho, ?_, fun c' hr => ?_⟩
  · have := (stopsAt_of_run ho).reaches.index_le_length hc
    rw [Outcome.events, List.length_reverse]
    omega
  · refine Application.runWithin_of_measure_lt ?_
    have := hr.index_add_length hc
    show 2 * c'.ahead.length + 0 < _
    omega

/-- The tokens of `(+ 0 x)` reach the bound. -/
theorem parse_ends_within_sum : Terminated sum ∧ (word sum).length = 5 ∧
    ∃ c o, Cursor.ofTokens? sum = some c ∧ parseTokens? sum = some o ∧
      run Grammar.standard 13 (start c) = some o ∧ o.events.length = 12 ∧
      Application.State.runWithin 11 ⟨{ shape := .application, closes := false }, [], c⟩ =
        some (Application.application c) := by
  have h : Terminated sum := ⟨_, rfl, rfl⟩
  obtain ⟨c, o, hc, ho, hr, -, ha⟩ := parse_ends_within h
  have he : ∃ c o, Cursor.ofTokens? sum = some c ∧ run Grammar.standard 13 (start c) = some o ∧
      o.events.length = 12 := ⟨_, _, rfl, rfl, rfl⟩
  obtain ⟨d, o', hd, hr', hl⟩ := he
  cases hc.symm.trans hd
  cases hr.symm.trans hr'
  exact ⟨h, rfl, c, o, hc, ho, hr, hl, ha c (.refl c)⟩

end Derivation

end LispReader
