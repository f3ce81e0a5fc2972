import LispReader.Proofs.Programs
import LispReader.Proofs.Steps

/-! Larger tables.

A table extends another one if each cell of the smaller one has the same production in it. A step
looks into one cell at most, so a derivation by the smaller table is one by the larger table, until
it comes to a cell that the smaller one has not (`MeetsGap`). If it never does, both stop together
with the same outcome and the same trace. If it does, the events so far are the first ones by the
larger table, which may go on from there in any way, even without end: `run_of_larger_table`. -/
namespace LispReader

/-- Each cell that the smaller table covers is covered by the same production in the larger one. -/
def Table.Extends (large small : Table) : Prop :=
  ∀ nt kind p, small.lookup nt kind = some p → large.lookup nt kind = some p

namespace Derivation

variable {table large small : Table} {s s' : State} {o : Outcome}

/-! ### Missing cells -/

/-- There is a nonterminal on top, and the table has no production for it in front of the token. -/
def State.Lacks (s : State) (table : Table) : Prop :=
  ∃ nt control, s.control.items = .nonterminal nt :: control ∧
    table.lookup nt s.cursor.current.kind = none

/-- The derivation comes to a cell that the table has not. -/
inductive MeetsGap (table : Table) : State → Prop
  | here {s : State} (lacks : s.Lacks table) : MeetsGap table s
  | behind {s s' : State} (step : s.step table = .inl s') (meets : MeetsGap table s') :
      MeetsGap table s

/-- The run stops in front of a token for which a nonterminal has no production in the table. -/
def Outcome.Misses (o : Outcome) (table : Table) : Prop :=
  ∃ nt : Nonterminal, table.lookup nt o.cursor.current.kind = none ∧
    o.result = .error (.refused (.unexpected o.cursor.current (table.expected nt) nt.name))

theorem meetsGap_of_step (h : s.step table = .inl s') (hn : ¬ s.Lacks table) :
    MeetsGap table s ↔ MeetsGap table s' := by
  constructor
  · intro hm
    cases hm with
    | here lacks => exact absurd lacks hn
    | behind step meets =>
      cases h.symm.trans step
      exact meets
  · exact .behind h

theorem not_meetsGap_of_stop (h : s.step table = .inr o) (hn : ¬ s.Lacks table) :
    ¬ MeetsGap table s := by
  intro hm
  cases hm with
  | here lacks => exact hn lacks
  | behind step => cases h.symm.trans step

/-! ### Events of the first steps -/

/-- The events of so many steps, or of all steps if these are fewer, in their order. -/
def emitted (table : Table) : Nat → State → List Event
  | 0, s => s.trace.reverse
  | limit + 1, s =>
    match s.step table with
    | .inl s => emitted table limit s
    | .inr o => o.events

/-- Of a run that stops, no further events are found by waiting longer. -/
theorem emitted_of_run {limit : Nat} (h : run table limit s = some o) {n : Nat} (hn : limit ≤ n) :
    emitted table n s = o.events := by
  induction limit generalizing s n with
  | zero => cases h
  | succ limit ih =>
    obtain ⟨n, rfl⟩ := Nat.exists_eq_add_of_le' hn
    rw [Nat.add_succ] at hn ⊢
    rw [run] at h
    rw [emitted]
    cases hs : s.step table with
    | inl s' =>
      rw [hs] at h
      exact ih h (Nat.le_of_succ_le_succ hn)
    | inr o' =>
      rw [hs] at h
      cases h
      rfl

/-- A step adds events to the trace, or it stops with the same ones. -/
theorem trace_step (table : Table) (s : State) :
    match s.step table with
    | .inl s' => ∃ e, s'.trace = e :: s.trace
    | .inr o => o.trace = s.trace := by
  have h := stepped table s
  generalize s.step table = r at h
  cases h with
  | bare | leaf | expanded | delegated | applied => exact ⟨_, rfl⟩
  | _ => rfl

theorem trace_prefix_emitted (table : Table) (n : Nat) (s : State) :
    s.trace.reverse <+: emitted table n s := by
  induction n generalizing s with
  | zero => exact List.prefix_refl _
  | succ n ih =>
    have ht := trace_step table s
    rw [emitted]
    cases hs : s.step table with
    | inl s' =>
      rw [hs] at ht
      obtain ⟨e, he⟩ := ht
      refine List.IsPrefix.trans ?_ (ih s')
      rw [he, List.reverse_cons]
      exact List.prefix_append _ _
    | inr o =>
      rw [hs] at ht
      have he : s.trace.reverse = o.events := congrArg List.reverse ht.symm
      exact he ▸ List.prefix_refl s.trace.reverse

/-! ### Runs by two tables -/

/-- A step depends on the table only by the cell of the nonterminal on top. -/
theorem step_eq_of_cell (h : ∀ nt control, s.control.items = .nonterminal nt :: control →
      ∃ p, small.lookup nt s.cursor.current.kind = some p ∧
        large.lookup nt s.cursor.current.kind = some p) :
    s.step small = s.step large := by
  unfold State.step
  cases hp : s.control.pop? with
  | none => rfl
  | some top =>
    obtain ⟨symbol, control⟩ := top
    cases symbol with
    | nonterminal nt =>
      obtain ⟨p, hs, hl⟩ := h nt _ (Stack.pop?_eq_some_iff.1 hp)
      simp only [State.expand, hs, hl]
    | terminal kind => rfl
    | action form => rfl
    | stray word => rfl

theorem step_of_extends (h : large.Extends small) (hn : ¬ s.Lacks small) :
    s.step small = s.step large := by
  refine step_eq_of_cell fun nt control hc => ?_
  cases hl : small.lookup nt s.cursor.current.kind with
  | none => exact absurd ⟨nt, control, hc, hl⟩ hn
  | some p => exact ⟨p, rfl, h _ _ _ hl⟩

theorem step_of_lacks (h : s.Lacks table) :
    ∃ o, s.step table = .inr o ∧ o.Misses table ∧ o.trace = s.trace := by
  obtain ⟨nt, control, hc, hl⟩ := h
  exact ⟨_, step_missed hc hl, ⟨nt, hl, rfl⟩, rfl⟩

/-- A run by the smaller table is one by the larger table, unless it comes to a missing cell; up to
there it has the same events. -/
theorem run_of_extends (h : large.Extends small) {limit : Nat}
    (hr : run small limit s = some o) :
    ¬ MeetsGap small s ∧ run large limit s = some o ∨
      MeetsGap small s ∧ o.Misses small ∧ ∀ n, limit ≤ n → o.events <+: emitted large n s := by
  induction limit generalizing s with
  | zero => cases hr
  | succ limit ih =>
    rw [run] at hr
    by_cases hn : s.Lacks small
    · obtain ⟨o', ho, hm, ht⟩ := step_of_lacks hn
      rw [ho] at hr
      cases hr
      refine .inr ⟨.here hn, hm, fun n _ => ?_⟩
      rw [Outcome.events, ht]
      exact trace_prefix_emitted large n s
    · have he := step_of_extends h hn
      cases hs : s.step small with
      | inl s' =>
        rw [hs] at hr
        rw [meetsGap_of_step hs hn]
        rcases ih hr with ⟨hg, hl⟩ | ⟨hg, hm, hp⟩
        · refine .inl ⟨hg, ?_⟩
          rw [run, ← he, hs]
          exact hl
        · refine .inr ⟨hg, hm, fun n hl => ?_⟩
          obtain ⟨n, rfl⟩ := Nat.exists_eq_add_of_le' hl
          rw [Nat.add_succ, emitted, ← he, hs]
          exact hp _ (Nat.le_add_left limit n)
      | inr o' =>
        rw [hs] at hr
        refine .inl ⟨not_meetsGap_of_stop hs hn, ?_⟩
        rw [run, ← he, hs]
        exact hr

/-- If a run by a table stops without having come to a missing cell, it is the run by every table
that extends it. If it stops there, its events are the first ones of the run by the larger table,
whether that one ever stops or not. -/
theorem run_of_larger_table (he : large.Extends small) {tokens : List Token}
    (h : Terminated tokens) :
    ∃ c, Cursor.ofTokens? tokens = some c ∧
      ∀ limit o, run small limit (start c) = some o →
        (¬ MeetsGap small (start c) → run large limit (start c) = some o) ∧
        (MeetsGap small (start c) → o.Misses small ∧
          (∀ n, limit ≤ n → o.events <+: emitted large n (start c)) ∧
          ∀ n o', run large n (start c) = some o' → o.events <+: o'.events) := by
  obtain ⟨c, hc, -⟩ := h.exists_cursor
  refine ⟨c, hc, fun limit o hr => ?_⟩
  rcases run_of_extends he hr with ⟨hg, hl⟩ | ⟨hg, hm, hp⟩
  · exact ⟨fun _ => hl, fun hg' => absurd hg' hg⟩
  · refine ⟨fun hg' => absurd hg hg', fun _ => ⟨hm, hp, fun n o' hr' => ?_⟩⟩
    rw [← emitted_of_run (run_add hr' limit) (Nat.le_refl _)]
    exact hp _ (Nat.le_add_left limit n)

/-- Programs that are a number; an identifier begins one too, but no expression. -/
def numberRules : List Production :=
  [{ id := 1, lhs := .program, rhs := [.nonterminal .expression]
     first := .ofList [.number, .identifier] },
    { id := 2, lhs := .expression, rhs := [.terminal .number], first := .ofList [.number] }]

def numberTable : Table := ⟨numberRules, by decide⟩

/-- In front of an identifier, an expression is replaced by itself for ever. -/
def loopTable : Table where
  rules := numberRules ++ [{ id := 3, lhs := .expression, rhs := [.nonterminal .expression]
                             first := .ofList [.identifier] }]
  disjoint := by decide

theorem extends_loopTable : loopTable.Extends numberTable := by
  intro nt kind p hp
  obtain ⟨hm, hc⟩ := Table.lookup_eq_some_iff.1 hp
  exact Table.lookup_eq_some_iff.2 ⟨List.mem_append_left _ hm, hc⟩

/-- A number is read by both tables. At an identifier the smaller one stops behind one event, and
the run by the larger one, which never stops, begins with it. -/
theorem run_of_larger_table_loop :
    loopTable.Extends numberTable ∧ Terminated ([Kind.number, .endOfInput].map .sample) ∧
    Terminated ([Kind.identifier, .endOfInput].map .sample) ∧
    (∃ c o, Cursor.ofTokens? ([Kind.number, .endOfInput].map .sample) = some c ∧
      run numberTable 5 (start c) = some o ∧ ¬ MeetsGap numberTable (start c) ∧
      o.result = .ok (.number 0) ∧ run loopTable 5 (start c) = some o) ∧
    ∃ c o, Cursor.ofTokens? ([Kind.identifier, .endOfInput].map .sample) = some c ∧
      run numberTable 2 (start c) = some o ∧ MeetsGap numberTable (start c) ∧
      o.events.length = 1 ∧ ∀ n, 2 ≤ n → o.events <+: emitted loopTable n (start c) := by
  have hn : Terminated ([Kind.number, .endOfInput].map .sample) := ⟨_, rfl, rfl⟩
  have hi : Terminated ([Kind.identifier, .endOfInput].map .sample) := ⟨_, rfl, rfl⟩
  refine ⟨extends_loopTable, hn, hi, ?_, ?_⟩
  · obtain ⟨c, hc, hrun⟩ := run_of_larger_table extends_loopTable hn
    have hr : ∃ c o, Cursor.ofTokens? ([Kind.number, .endOfInput].map .sample) = some c ∧
        run numberTable 5 (start c) = some o ∧ o.result = .ok (.number 0) :=
      ⟨_, _, rfl, rfl, rfl⟩
    obtain ⟨d, o, hd, ho, ht⟩ := hr
    cases hc.symm.trans hd
    obtain ⟨hsame, hgap⟩ := hrun 5 o ho
    have hg : ¬ MeetsGap numberTable (start c) := by
      intro hg
      obtain ⟨⟨nt, -, hm⟩, -⟩ := hgap hg
      cases ht.symm.trans hm
    exact ⟨c, o, hc, ho, hg, ht, hsame hg⟩
  · obtain ⟨c, hc, hrun⟩ := run_of_larger_table extends_loopTable hi
    have hr : ∃ c o, Cursor.ofTokens? ([Kind.identifier, .endOfInput].map .sample) = some c ∧
        run numberTable 2 (start c) = some o ∧ MeetsGap numberTable (start c) ∧
        o.events.length = 1 :=
      ⟨_, _, rfl, rfl, .behind rfl (.here ⟨.expression, _, rfl, rfl⟩), rfl⟩
    obtain ⟨d, o, hd, ho, hg, hl⟩ := hr
    cases hc.symm.trans hd
    exact ⟨c, o, hc, ho, hg, hl, ((hrun 2 o ho).2 hg).2.1⟩

end Derivation

end LispReader
