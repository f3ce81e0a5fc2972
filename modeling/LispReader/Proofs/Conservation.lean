import LispReader.Proofs.Leaves
import LispReader.Proofs.Reach

/-! No value is lost, and none is made.

The values on the stack, from the bottom to the top, are made of the values of the tokens that have
been consumed, in their order, and of labels. A step pushes the value of a token or of an
application that it reads, or it puts a label in front of the topmost values; no table can make it
do anything else (`kept_step`). A run that gives a tree has consumed all tokens, so all their values
are leaves of the tree, and the other leaves are labels, one for each action of the trace and for
each leader in an application: `Derivation.leaves_of_run`. -/
namespace LispReader
open Descent

/-- The tokens from one position to another one. -/
def Cursor.passed (c c' : Cursor) : List Token := c.ahead.take (c'.index - c.index)

theorem Cursor.passed_eq {c c' : Cursor} {w : List Token} (h : Passes c w c') :
    c.passed c' = w := by
  rw [passed, h.index, Nat.add_sub_cancel_left, h.ahead, List.take_left]

/-- The operands are replaced where they are, at the top. -/
theorem Form.exists_of_reduce {α : Type} {f : Form} {values values' : Stack (Tree α)}
    (h : f.reduce values = .ok values') :
    ∃ ts below, ts.length = f.arity ∧ values.items = ts.reverse ++ below ∧
      values'.items = f.tree ts :: below := by
  unfold reduce at h
  split at h
  · next hl =>
    cases h
    refine ⟨(values.items.take f.arity).reverse, values.items.drop f.arity, ?_, ?_, rfl⟩
    · rw [List.length_reverse, List.length_take, ← values.height_eq]
      exact Nat.min_eq_left hl
    · rw [List.reverse_reverse, List.take_append_drop]
  · cases h

namespace Derivation

/-! ### Labels of a run -/

/-- The label that an action puts in front of its operands. -/
def Event.label? (e : Event) : Option String :=
  match e.symbol with
  | .action form => some form.label
  | _ => none

def appliedLabels (trace : List Event) : List String := trace.filterMap Event.label?

/-- The tokens that a step consumes in an application. -/
def State.inApplication (s s' : State) : List Token :=
  if s'.trace.head?.any (·.move = .delegated) then s.cursor.passed s'.cursor else []

/-- The tokens that are consumed in applications within so many steps. -/
def delegated (table : Table) : Nat → State → List Token
  | 0, _ => []
  | limit + 1, s =>
    match s.step table with
    | .inl s' => s.inApplication s' ++ delegated table limit s'
    | .inr _ => []

/-! ### Steps -/

/-- The values, the topmost one first, are made of the tokens between the positions and of these
labels. -/
def MadeFrom (c₀ : Cursor) (labels : List String) (values : List ParseTree) (c : Cursor) : Prop :=
  ∃ w, Passes c₀ w c ∧ Accounted w labels (Tree.leavesAll values.reverse)

namespace MadeFrom

variable {c₀ c c' : Cursor} {labels labels' : List String} {values below ts : List ParseTree}

/-- A token without a value is passed. -/
theorem bare (h : MadeFrom c₀ labels values c) (hb : c.current.kind.carriesLexeme = false) :
    MadeFrom c₀ labels values c.advance := by
  obtain ⟨w, hw, ha⟩ := h
  by_cases he : c.current.kind = .endOfInput
  · rw [advance_eq_self he]
    exact ⟨w, hw, ha⟩
  · refine ⟨w ++ [c.current], hw.trans (.advance he), ?_⟩
    have hs := ha.append (.bare hb)
    rw [List.append_nil, List.append_nil] at hs
    exact hs

/-- A value that is pushed comes behind the ones below it, as its tokens come behind theirs. -/
theorem push (h : MadeFrom c₀ labels values c) {w : List Token} {t : ParseTree}
    (hw : Passes c w c') (ha : Accounted w labels' t.leaves) :
    MadeFrom c₀ (labels ++ labels') (t :: values) c' := by
  obtain ⟨w₀, hw₀, ha₀⟩ := h
  refine ⟨w₀ ++ w, hw₀.trans hw, ?_⟩
  rw [List.reverse_cons, Tree.leavesAll_append, Tree.leavesAll_singleton]
  exact ha₀.append ha

/-- The label is put in front of the operands, and behind what is below them. -/
theorem reduce (h : MadeFrom c₀ labels (ts.reverse ++ below) c) (f : Form) :
    MadeFrom c₀ (f.label :: labels) (f.tree ts :: below) c := by
  obtain ⟨w, hw, ha⟩ := h
  rw [List.reverse_append, List.reverse_reverse, Tree.leavesAll_append] at ha
  refine ⟨w, hw, ?_⟩
  rw [List.reverse_cons, Tree.leavesAll_append, Tree.leavesAll_singleton, Form.leaves_tree]
  exact ha.insert f.label

end MadeFrom

/-- What an application reads is accounted for by its tokens. -/
theorem exists_accounted_of_application {c c' : Cursor} {t : ParseTree}
    (h : Application.application c = (.ok t, c')) :
    ∃ w, Passes c w c' ∧ Accounted w (leaderLabels w) t.leaves := by
  have hs := sound.2.2.1 c
  rw [Application.application_eq] at h
  rw [SoundApplication] at hs
  cases ha : Descent.application c with
  | error stop =>
    rw [ha] at h
    cases h
  | ok r =>
    rw [ha] at h hs
    cases h
    obtain ⟨w, head, tail, ht, hw, ⟨items⟩, -⟩ := hs
    refine ⟨w, hw, ?_⟩
    rw [ht]
    exact items.accounted

variable {table : Table} {s s' : State} {c₀ : Cursor} {read : List Token}

/-- The values are made of the tokens that have been consumed, of a label for each action so far,
and of the labels of the leaders among the tokens read in applications. -/
def Kept (c₀ : Cursor) (read : List Token) (s : State) : Prop :=
  MadeFrom c₀ (appliedLabels s.trace ++ leaderLabels read) s.values.items s.cursor

theorem kept_step (h : Kept c₀ read s) (hs : s.step table = .inl s') :
    Kept c₀ (read ++ s.inApplication s') s' := by
  have hr := stepped table s
  rw [hs] at hr
  cases hr with
  | bare top found bare =>
    show MadeFrom c₀ (appliedLabels s.trace ++ leaderLabels (read ++ [])) _ _
    rw [List.append_nil]
    exact MadeFrom.bare h (found ▸ bare)
  | leaf top found carries value =>
    have hn : s.cursor.current.kind ≠ .endOfInput := by
      intro he
      rw [← found, he] at carries
      cases carries
    have ht := MadeFrom.push h (.advance hn) (.leaf (found ▸ carries) value)
    show MadeFrom c₀ (appliedLabels s.trace ++ leaderLabels (read ++ [])) _ _
    rw [List.append_nil] at ht ⊢
    exact ht
  | expanded =>
    show MadeFrom c₀ (appliedLabels s.trace ++ leaderLabels (read ++ [])) _ _
    rw [List.append_nil]
    exact h
  | @delegated _ _ _ t c top cell variadic application =>
    obtain ⟨w, hw, ha⟩ := exists_accounted_of_application application
    have ht := MadeFrom.push h hw ha
    show MadeFrom c₀ (appliedLabels s.trace ++ leaderLabels (read ++ s.cursor.passed c)) _ _
    rw [Cursor.passed_eq hw, leaderLabels_append, ← List.append_assoc]
    exact ht
  | @applied form _ values top reduces =>
    obtain ⟨ts, below, -, hv, hb⟩ := Form.exists_of_reduce reduces
    rw [Kept, hv] at h
    show MadeFrom c₀ (form.label :: appliedLabels s.trace ++ leaderLabels (read ++ []))
      values.items s.cursor
    rw [List.append_nil, hb]
    exact h.reduce form

/-- A run that gives a tree stops in a state that has no other value. -/
theorem kept_run {limit : Nat} {o : Outcome} {t : ParseTree} (h : Kept c₀ read s)
    (hr : run table limit s = some o) (ho : o.result = .ok t) :
    MadeFrom c₀ (appliedLabels o.trace ++ leaderLabels (read ++ delegated table limit s)) [t]
      o.cursor := by
  induction limit generalizing s read with
  | zero => cases hr
  | succ limit ih =>
    rw [run] at hr
    rw [delegated]
    cases hs : s.step table with
    | inl s' =>
      rw [hs] at hr
      have hk := ih (kept_step h hs) hr
      rw [List.append_assoc] at hk
      exact hk
    | inr o' =>
      rw [hs] at hr
      cases hr
      have hp := stepped table s
      rw [hs] at hp
      cases hp with
      | closed empty values =>
        cases ho
        rw [Kept, values] at h
        show MadeFrom c₀ (appliedLabels s.trace ++ leaderLabels (read ++ [])) [t] s.cursor
        rw [List.append_nil]
        exact h
      | _ => cases ho

/-! ### Counting -/

/-- There is a label for each event of an action. -/
def Tallied (trace : List Event) : Prop :=
  (appliedLabels trace).length = trace.countP (·.move = .applied)

theorem tallied_step (table : Table) (h : Tallied s.trace) :
    match s.step table with
    | .inl s' => Tallied s'.trace
    | .inr o => Tallied o.trace := by
  have hp := stepped table s
  generalize s.step table = r at hp
  cases hp with
  | applied =>
    show (appliedLabels s.trace).length + 1 = _
    rw [h]
    exact (List.countP_cons_of_pos rfl).symm
  | _ => exact h

theorem tallied_run {limit : Nat} {o : Outcome} (h : Tallied s.trace)
    (hr : run table limit s = some o) : Tallied o.trace := by
  induction limit generalizing s with
  | zero => cases hr
  | succ limit ih =>
    have ht := tallied_step table h
    rw [run] at hr
    cases hs : s.step table with
    | inl s' =>
      rw [hs] at ht hr
      exact ih ht hr
    | inr o' =>
      rw [hs] at ht hr
      cases hr
      exact ht

/-! ### Leaves of the result -/

/-- Whatever the table, a tree that a run gives has as its leaves the values of the tokens in front
of the first end of input, each once and in their order, and labels among them. The labels are those
of the actions in the trace and of the leaders that were read in applications. -/
theorem leaves_of_run {tokens : List Token} (h : Terminated tokens) :
    ∃ c, Cursor.ofTokens? tokens = some c ∧
      ∀ table limit o t, run table limit (start c) = some o → o.result = .ok t →
        ∃ (values : List ParseTree) (labels : List String), Denote (word tokens) values ∧
          Interleaves values (labels.map .symbol) t.leaves ∧
          labels.Perm (o.events.filterMap Event.label? ++
            leaderLabels (delegated table limit (start c))) ∧
          labels.length = o.events.countP (·.move = .applied) +
            (delegated table limit (start c)).countP fun token =>
              (Form.ofLeader? token.kind).isSome := by
  obtain ⟨c, hc, -, ha, -⟩ := h.exists_cursor
  refine ⟨c, hc, fun table limit o t hr ho => ?_⟩
  have hstart : Kept c [] (start c) := ⟨[], .refl c, .nil⟩
  obtain ⟨w, hw, values, hv, labels, hp, hi⟩ := kept_run hstart hr ho
  -- The run stops in front of the end of input, so nothing is left ahead.
  have hend := atEnd_of_run (endsBelow_start c) hr ho
  have hword : w = word tokens := by
    rw [← ha, hw.ahead, ahead_eq_nil hend, List.append_nil]
  rw [hword] at hv
  rw [List.reverse_singleton, Tree.leavesAll_singleton] at hi
  have hperm : labels.Perm (o.events.filterMap Event.label? ++
      leaderLabels (delegated table limit (start c))) :=
    hp.trans (((List.reverse_perm o.trace).symm.filterMap _).append_right _)
  refine ⟨values, labels, hv, hi, hperm, ?_⟩
  have ht : Tallied o.trace := tallied_run (s := start c) rfl hr
  rw [hp.length_eq, List.length_append, ht, length_leaderLabels, Outcome.events,
    List.countP_reverse]
  rfl

/-- A form without operands in front of an application, and a pair of the two values behind it. -/
def emptyPairTable : Table where
  rules :=
    [{ id := 1, lhs := .program
       rhs := [.action ⟨.plus, "EMPTY", []⟩, .nonterminal .expression,
         .action ⟨.plus, "PAIR", [.expression, .identifier]⟩]
       first := .ofList [.identifier] },
      { id := 2, lhs := .expression, rhs := [.nonterminal .expression]
        first := .ofList [.identifier], variadic := true }]
  disjoint := by decide

/-- The tokens of `x (+ 0 x)`, an application without parentheses. -/
def bareApplication : List Token :=
  [Kind.identifier, .leftParen, .plus, .number, .identifier, .rightParen, .endOfInput].map .sample

/-- The later action puts its label in front of that of the earlier one. -/
theorem leaves_of_run_emptyPair :
    Terminated bareApplication ∧
    ∃ c o t, Cursor.ofTokens? bareApplication = some c ∧
      run emptyPairTable 7 (start c) = some o ∧ o.result = .ok t ∧
      t.leaves = [.symbol "PAIR", .symbol "EMPTY", .symbol "x", .symbol "PLUS", .number 0,
        .symbol "x"] ∧
      ∃ (values : List ParseTree) (labels : List String), Denote (word bareApplication) values ∧
        Interleaves values (labels.map .symbol) t.leaves ∧
        labels.Perm ["EMPTY", "PAIR", "PLUS"] ∧ labels.length = 3 := by
  have h : Terminated bareApplication := ⟨_, rfl, rfl⟩
  obtain ⟨c, hc, hleaves⟩ := leaves_of_run h
  have hr : ∃ c o t, Cursor.ofTokens? bareApplication = some c ∧
      run emptyPairTable 7 (start c) = some o ∧ o.result = .ok t ∧
      t.leaves = [.symbol "PAIR", .symbol "EMPTY", .symbol "x", .symbol "PLUS", .number 0,
        .symbol "x"] ∧
      o.events.filterMap Event.label? = ["EMPTY", "PAIR"] ∧
      o.events.countP (·.move = .applied) = 2 ∧
      delegated emptyPairTable 7 (start c) = bareApplication.take 6 :=
    ⟨_, _, _, rfl, by with_unfolding_all rfl, rfl, by with_unfolding_all rfl,
      by with_unfolding_all rfl, by with_unfolding_all rfl, by with_unfolding_all rfl⟩
  obtain ⟨d, o, t, hd, ho, ht, hl, hlabels, hcount, hread⟩ := hr
  cases hc.symm.trans hd
  obtain ⟨values, labels, hv, hi, hp, hn⟩ := hleaves emptyPairTable 7 o t ho ht
  rw [hlabels, hread] at hp
  rw [hcount, hread] at hn
  exact ⟨h, c, o, t, hc, ho, ht, hl, values, labels, hv, hi, hp, hn⟩

end Derivation

end LispReader
