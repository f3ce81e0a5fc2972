import LispReader.Derivation
import LispReader.Proofs.Descent.Machine
import LispReader.Proofs.Programs

/-! Derivations in well-typed tables.

A table is well typed when the right-hand side of each production, read from left to right, leaves
one value more than there was, and no action in it combines values that are not there. Then the
symbols on the control stack always lead from the values on the value stack to a single one
(`Typed`), whatever the productions are; a variadic production is replaced by one value as well. So
a derivation that stops has a tree, has refused a token, or has met a number that denotes no
integer, and never finds the stacks out of step: `run_orderly`. -/
namespace LispReader

/-! ### Counting values -/

/-- How many values there are behind a symbol, from their number in front of it; none if the symbol
cannot be processed. -/
def Symbol.count? (n : Nat) : Symbol → Option Nat
  | .terminal kind => some (if kind.carriesLexeme then n + 1 else n)
  | .nonterminal _ => some (n + 1)
  | .action form => if form.arity ≤ n then some (n - form.arity + 1) else none
  | .stray _ => none

/-- How many values there are behind symbols. -/
def countAll? (n : Nat) (symbols : List Symbol) : Option Nat := symbols.foldlM Symbol.count? n

/-- The right-hand side makes one value. -/
def Production.WellTyped (p : Production) : Prop := p.variadic = false → countAll? 0 p.rhs = some 1

instance (p : Production) : Decidable p.WellTyped := inferInstanceAs (Decidable (_ → _))

def Table.WellTyped (t : Table) : Prop := ∀ p ∈ t.rules, p.WellTyped

instance (t : Table) : Decidable t.WellTyped := inferInstanceAs (Decidable (∀ p ∈ t.rules, _))

theorem wellTyped_standard : Grammar.standard.WellTyped := by decide

theorem countAll?_cons (n : Nat) (symbol : Symbol) (symbols : List Symbol) :
    countAll? n (symbol :: symbols) = (symbol.count? n).bind (countAll? · symbols) := rfl

theorem countAll?_append (n : Nat) (front back : List Symbol) :
    countAll? n (front ++ back) = (countAll? n front).bind (countAll? · back) := by
  induction front generalizing n with
  | nil => rfl
  | cons symbol front ih =>
    rw [List.cons_append, countAll?_cons, countAll?_cons]
    cases symbol.count? n with
    | none => rfl
    | some m => exact ih m

/-- Values below do not matter. -/
theorem Symbol.count?_add {n m : Nat} {symbol : Symbol} (h : symbol.count? n = some m) (k : Nat) :
    symbol.count? (n + k) = some (m + k) := by
  cases symbol with
  | terminal kind =>
    cases h
    refine congrArg some ?_
    by_cases hk : kind.carriesLexeme
    · rw [if_pos hk, if_pos hk]
      omega
    · rw [if_neg hk, if_neg hk]
  | nonterminal nt =>
    cases h
    exact congrArg some (Nat.add_right_comm n k 1)
  | action form =>
    by_cases hn : form.arity ≤ n
    · rw [count?, if_pos hn] at h
      cases h
      rw [count?, if_pos (Nat.le_add_right_of_le hn)]
      refine congrArg some ?_
      omega
    · rw [count?, if_neg hn] at h
      cases h
  | stray word => cases h

theorem countAll?_add {n m : Nat} {symbols : List Symbol} (h : countAll? n symbols = some m)
    (k : Nat) : countAll? (n + k) symbols = some (m + k) := by
  induction symbols generalizing n with
  | nil =>
    cases h
    rfl
  | cons symbol symbols ih =>
    rw [countAll?_cons] at h ⊢
    obtain ⟨j, hj, hm⟩ := Option.bind_eq_some_iff.1 h
    rw [Symbol.count?_add hj k]
    exact ih hm

namespace Derivation
open Descent

/-! ### The invariant -/

/-- The control stack leads from the values to a single one, and the position lies behind a word of
the tokens ahead of the first one. -/
structure Typed (c₀ : Cursor) (s : State) : Prop where
  count : countAll? s.values.height s.control.items = some 1
  passes : ∃ w, Passes c₀ w s.cursor

/-- A tree, a refusal, or a number among the tokens that denotes no integer. -/
def Orderly (tokens : List Token) (result : Except ParseFault ParseTree) : Prop :=
  (∃ t, result = .ok t) ∨ (∃ fault, result = .error (.refused fault)) ∨
    ∃ fault, result = .error (.numeral fault) ∧ ∃ token ∈ tokens, Unreadable token fault

/-- A state that is reached or an outcome keeps the stacks in step. -/
def Keeps (c₀ : Cursor) : State ⊕ Outcome → Prop
  | .inl s => Typed c₀ s
  | .inr o => Orderly c₀.ahead o.result

variable {c₀ : Cursor} {s : State} {table : Table} {control : List Symbol}

theorem keeps_close (h : countAll? s.values.height [] = some 1) : Keeps c₀ s.close := by
  have hh : s.values.items.length = 1 := by
    rw [← s.values.height_eq]
    exact Option.some.inj h
  obtain ⟨t, ht⟩ := List.length_eq_one_iff.1 hh
  rw [State.close, ht]
  exact .inl ⟨t, rfl⟩

/-- The position moves past a token or stays at the end of input. -/
theorem exists_passes_advance (c : Cursor) : ∃ w, Passes c w c.advance := by
  by_cases h : c.current.kind = .endOfInput
  · rw [advance_eq_self h]
    exact ⟨[], .refl c⟩
  · exact ⟨_, .advance h⟩

theorem Typed.exists_passes {c' : Cursor} (h : Typed c₀ s) (hc : ∃ w, Passes s.cursor w c') :
    ∃ w, Passes c₀ w c' := by
  obtain ⟨w, hw⟩ := h.passes
  obtain ⟨w', hw'⟩ := hc
  exact ⟨w ++ w', hw.trans hw'⟩

theorem Typed.current_mem (h : Typed c₀ s) (hk : s.cursor.current.kind ≠ .endOfInput) :
    s.cursor.current ∈ c₀.ahead := by
  obtain ⟨w, hw⟩ := h.passes
  rw [hw.ahead, (Passes.advance hk).ahead]
  simp

theorem keeps_matchKind {kind : Kind} (h : Typed c₀ s)
    (hc : s.control.items = .terminal kind :: control) :
    Keeps c₀ ({ s with control := .ofList control }.matchKind kind) := by
  have hn := h.count
  rw [hc, countAll?_cons] at hn
  have hp := h.exists_passes (exists_passes_advance s.cursor)
  rw [State.matchKind, Cursor.expect]
  by_cases ht : s.cursor.current.kind = kind
  · rw [if_pos ht]
    by_cases hk : kind.carriesLexeme
    · have hl : s.cursor.current.kind = .number ∨ s.cursor.current.kind = .identifier := by
        rw [ht]
        revert hk
        cases kind <;> decide
      show Keeps c₀ (if kind.carriesLexeme then _ else _)
      rw [if_pos hk]
      rcases leaf_cases hl with ⟨t, hv, -⟩ | ⟨fault, hv, hu⟩
      · rw [hv]
        rw [Symbol.count?, if_pos hk] at hn
        exact ⟨hn, hp⟩
      · rw [hv]
        exact .inr (.inr ⟨fault, rfl, _, h.current_mem (by simp [hu.1]), hu⟩)
    · show Keeps c₀ (if kind.carriesLexeme then _ else _)
      rw [if_neg hk]
      rw [Symbol.count?, if_neg hk] at hn
      exact ⟨hn, hp⟩
  · rw [if_neg ht]
    exact .inr (.inl ⟨_, rfl⟩)

/-- An application at the position is one value. -/
theorem keeps_delegate {nt : Nonterminal} {p : Production} (h : Typed c₀ s)
    (hn : countAll? (s.values.height + 1) control = some 1) :
    Keeps c₀ (match Application.application s.cursor with
      | (.error fault, c) => State.stop ⟨.ofList control, s.values, c, s.trace⟩ fault
      | (.ok t, c) => .inl (State.record ⟨.ofList control, s.values.push t, c, s.trace⟩ .delegated
          (.nonterminal nt) s.cursor.current p.id)) := by
  have hs := sound.2.2.1 s.cursor
  rw [SoundApplication] at hs
  rw [Application.application_eq]
  cases hx : application s.cursor with
  | ok r =>
    rw [hx] at hs
    obtain ⟨w, head, tail, -, hw, -⟩ := hs
    exact ⟨hn, h.exists_passes ⟨w, hw⟩⟩
  | error stop =>
    obtain ⟨fault, c'⟩ := stop
    rw [hx] at hs
    cases fault with
    | refused fault => exact .inr (.inl ⟨fault, rfl⟩)
    | numeral fault =>
      obtain ⟨token, hm, hu⟩ := hs
      obtain ⟨w, hw⟩ := h.passes
      exact .inr (.inr ⟨fault, rfl, token, by simp [hw.ahead, hm], hu⟩)
    | state fault => exact hs.elim

theorem keeps_expand {nt : Nonterminal} (ht : table.WellTyped) (h : Typed c₀ s)
    (hc : s.control.items = .nonterminal nt :: control) :
    Keeps c₀ ({ s with control := .ofList control }.expand table nt) := by
  have hn : countAll? (s.values.height + 1) control = some 1 := by
    have hn := h.count
    rw [hc] at hn
    exact hn
  cases hl : table.lookup nt s.cursor.current.kind with
  | none =>
    simp only [State.expand, hl]
    exact .inr (.inl ⟨_, rfl⟩)
  | some p =>
    by_cases hv : p.variadic
    · simp only [State.expand, hl, if_pos hv]
      exact keeps_delegate h hn
    · simp only [State.expand, hl, if_neg hv]
      have hr := ht p (Table.lookup_eq_some_iff.1 hl).1 (by simpa using hv)
      -- The right-hand side makes one value, as the nonterminal was counted to do.
      refine ⟨?_, h.passes⟩
      show countAll? s.values.height (p.rhs ++ control) = some 1
      have hr' := countAll?_add hr s.values.height
      rw [Nat.zero_add, Nat.add_comm] at hr'
      rw [countAll?_append, hr']
      exact hn

theorem keeps_apply {form : Form} (h : Typed c₀ s)
    (hc : s.control.items = .action form :: control) :
    Keeps c₀ ({ s with control := .ofList control }.apply form) := by
  have hn := h.count
  rw [hc, countAll?_cons, Symbol.count?] at hn
  by_cases ha : form.arity ≤ s.values.height
  · rw [if_pos ha] at hn
    rw [State.apply, Form.reduce, if_pos ha]
    exact ⟨hn, h.passes⟩
  · rw [if_neg ha] at hn
    cases hn

theorem keeps_step (ht : table.WellTyped) (h : Typed c₀ s) : Keeps c₀ (s.step table) := by
  cases hc : s.control.items with
  | nil =>
    rw [step_nil hc]
    exact keeps_close (hc ▸ h.count)
  | cons symbol control =>
    cases symbol with
    | terminal kind =>
      rw [step_terminal hc]
      exact keeps_matchKind h hc
    | nonterminal nt =>
      rw [step_nonterminal hc]
      exact keeps_expand ht h hc
    | action form =>
      rw [step_action hc]
      exact keeps_apply h hc
    | stray word =>
      have hn := h.count
      rw [hc] at hn
      cases hn

/-- A run of any length keeps the stacks in step. -/
theorem orderly_of_run (ht : table.WellTyped) {limit : Nat} {o : Outcome} (h : Typed c₀ s)
    (hr : run table limit s = some o) : Orderly c₀.ahead o.result := by
  induction limit generalizing s with
  | zero => cases hr
  | succ limit ih =>
    have hk := keeps_step ht h
    rw [run] at hr
    cases hs : s.step table with
    | inl s' =>
      rw [hs] at hk hr
      exact ih hk hr
    | inr o' =>
      rw [hs] at hk hr
      cases hr
      exact hk

theorem orderly_of_terminated (ht : table.WellTyped) {tokens : List Token} (h : Terminated tokens) :
    ∃ c, Cursor.ofTokens? tokens = some c ∧
      ∀ limit o, run table limit (start c) = some o → Orderly tokens o.result := by
  obtain ⟨c, hc, -, ha, rest, hw⟩ := h.exists_cursor
  refine ⟨c, hc, fun limit o hr => ?_⟩
  have hs : Typed c (start c) := ⟨rfl, [], .refl c⟩
  rcases orderly_of_run ht hs hr with ht | hf | ⟨fault, hf, token, hm, hu⟩
  · exact .inl ht
  · exact .inr (.inl hf)
  · refine .inr (.inr ⟨fault, hf, token, ?_, hu⟩)
    rw [hw, ← ha]
    exact List.mem_append_left _ hm

/-- Whenever a derivation in a well-typed table stops, it has a tree, has refused a token, or has
met a number that denotes no integer. The standard grammar is well typed, and there every
derivation stops. -/
theorem run_orderly :
    (∀ {table : Table}, table.WellTyped → ∀ {tokens : List Token}, Terminated tokens →
      ∃ c, Cursor.ofTokens? tokens = some c ∧
        ∀ limit o, run table limit (start c) = some o → Orderly tokens o.result) ∧
    Grammar.standard.WellTyped ∧
    ∀ {tokens : List Token}, Terminated tokens →
      ∃ o, parseTokens? tokens = some o ∧ Orderly tokens o.result := by
  refine ⟨orderly_of_terminated, wellTyped_standard, fun {tokens} h => ?_⟩
  obtain ⟨c, hc, ho⟩ := orderly_of_terminated wellTyped_standard h
  obtain ⟨limit, hr⟩ := exists_run_standard (start c)
  refine ⟨parseStandard c, ?_, ho limit _ hr⟩
  rw [parseTokens?, hc]
  rfl

/-- A table for pairs of a number and an identifier, without parentheses. -/
def pairTable : Table where
  rules :=
    [{ id := 1, lhs := .program
       rhs := [.nonterminal .expression, .terminal .identifier,
        .action ⟨.plus, "PAIR", [.expression, .identifier]⟩]
       first := .ofList [.number] },
      { id := 2, lhs := .expression, rhs := [.terminal .number], first := .ofList [.number] }]
  disjoint := by decide

/-- The tokens of `0 x`. -/
def pair : List Token := [Kind.number, .identifier, .endOfInput].map .sample

theorem run_orderly_pair : pairTable.WellTyped ∧ Terminated pair ∧ ∃ c o,
    run pairTable 7 (start c) = some o ∧ o.cursor.index = 2 ∧ Orderly pair o.result := by
  have ht : pairTable.WellTyped := by decide
  have h : Terminated pair := ⟨_, rfl, rfl⟩
  obtain ⟨c, hc, hrun⟩ := run_orderly.1 ht h
  have hr : ∃ c o, Cursor.ofTokens? pair = some c ∧ run pairTable 7 (start c) = some o ∧
      o.cursor.index = 2 := ⟨_, _, rfl, rfl, rfl⟩
  obtain ⟨c', o, hc', ho, hi⟩ := hr
  cases hc.symm.trans hc'
  exact ⟨ht, h, c, o, ho, hi, hrun 7 o ho⟩

end Derivation

end LispReader
