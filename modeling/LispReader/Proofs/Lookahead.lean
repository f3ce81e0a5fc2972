import LispReader.Proofs.Reach

/-! One token of lookahead.

Two positions may have the same tokens in front of them up to some index and differ behind it
(`SharesTo`). As long as a step from the first one does not leave what is shared, the step from the
second one is the same. So a run is decided by the tokens up to the one at which it stops, whatever
the table, and no token behind that one is looked at: `Derivation.run_reads_no_further`. -/
namespace LispReader

/-! ### Shared tokens -/

namespace Cursor

/-- The tokens from the current one to the one at which reading ends. -/
def rest (c : Cursor) : List Token := c.ahead ++ [c.terminator]

theorem rest_eq_cons (c : Cursor) : c.rest = c.current :: (c.rest).tail := by
  unfold rest current
  cases c.ahead <;> rfl

theorem rest_advance {c : Cursor} (h : c.current.kind ≠ .endOfInput) :
    c.advance.rest = c.rest.tail := by
  have hp := (Descent.Passes.advance h).ahead
  rw [rest, rest, terminator_advance, hp]
  rfl

theorem index_advance {c : Cursor} (h : c.current.kind ≠ .endOfInput) :
    c.advance.index = c.index + 1 := (Descent.Passes.advance h).index

/-- Up to the first end of input of a list, what is there to read are the tokens of the list. -/
theorem take_rest {tokens : List Token} {c : Cursor} {k : Nat} (hc : ofTokens? tokens = some c)
    (hk : k ≤ (word tokens).length) : c.rest.take (k + 1) = tokens.take (k + 1) := by
  obtain ⟨-, ha, after, ht⟩ := begins_of_ofTokens? hc
  have hl : k + 1 ≤ c.rest.length := by
    rw [rest, ha, List.length_append]
    exact Nat.add_le_add_right hk 1
  have hr : tokens = c.rest ++ after := by
    rw [rest, ha, List.append_assoc]
    exact ht
  calc c.rest.take (k + 1) = (c.rest ++ after).take (k + 1) :=
        (List.take_append_of_le_length hl).symm
    _ = tokens.take (k + 1) := by rw [← hr]

/-- Behind the first end of input of a list, any tokens may follow. -/
theorem ofTokens?_of_take {tokens tokens' : List Token} {c : Cursor}
    (hc : ofTokens? tokens = some c) (ht : Terminated tokens')
    (h : tokens'.take ((word tokens).length + 1) = tokens.take ((word tokens).length + 1)) :
    ofTokens? tokens' = some c := by
  obtain ⟨hi, ha, -⟩ := begins_of_ofTokens? hc
  obtain ⟨c', hc', hi', ha', after', hr'⟩ := ht.exists_cursor
  have hrest : c.rest.take ((word tokens).length + 1) = word tokens ++ [c.terminator] := by
    rw [rest, ha]
    exact List.take_of_length_le (by simp)
  have hs : tokens' = word tokens ++ c.terminator :: tokens'.drop ((word tokens).length + 1) :=
    calc tokens' = tokens'.take ((word tokens).length + 1) ++
          tokens'.drop ((word tokens).length + 1) := (List.take_append_drop _ _).symm
      _ = _ := by rw [h, ← take_rest hc (Nat.le_refl _), hrest, List.append_assoc]; rfl
  have hw : word tokens' = word tokens := by
    rw [hs]
    exact word_append (fun t hm => c.ahead_kind t (ha ▸ hm)) c.terminator_kind
  rw [hw] at hr' ha'
  have hterm : c'.terminator = c.terminator :=
    (List.cons.inj (List.append_cancel_left (hr'.symm.trans hs))).1
  rw [hc', ext (hi'.trans hi.symm) (ha'.trans ha.symm) hterm]

end Cursor

/-- The positions have the same index, and the same tokens from there to the given one. -/
structure SharesTo (k : Nat) (c d : Cursor) : Prop where
  index : d.index = c.index
  tokens : d.rest.take (k + 1 - c.index) = c.rest.take (k + 1 - c.index)

namespace SharesTo

variable {k : Nat} {c d : Cursor}

theorem cons_eq (h : SharesTo k c d) (hk : c.index ≤ k) :
    d.current :: d.rest.tail.take (k - c.index) = c.current :: c.rest.tail.take (k - c.index) := by
  have ht := h.tokens
  rw [Nat.succ_sub hk, c.rest_eq_cons, d.rest_eq_cons] at ht
  exact ht

theorem current (h : SharesTo k c d) (hk : c.index ≤ k) : d.current = c.current :=
  (List.cons.inj (h.cons_eq hk)).1

theorem advance (h : SharesTo k c d) (hk : c.index ≤ k) : SharesTo k c.advance d.advance := by
  have hd := h.current hk
  by_cases he : c.current.kind = .endOfInput
  · rw [Descent.advance_eq_self he, Descent.advance_eq_self (hd ▸ he)]
    exact h
  · have he' : d.current.kind ≠ .endOfInput := hd ▸ he
    refine ⟨?_, ?_⟩
    · rw [Cursor.index_advance he, Cursor.index_advance he', h.index]
    · rw [Cursor.index_advance he, Cursor.rest_advance he, Cursor.rest_advance he',
        Nat.add_sub_add_right]
      exact (List.cons.inj (h.cons_eq hk)).2

/-- Lists with the same tokens up to an index are read from positions that share them. -/
theorem of_take {tokens tokens' : List Token} (hc : Cursor.ofTokens? tokens = some c)
    (hd : Cursor.ofTokens? tokens' = some d) (hk : k ≤ (word tokens).length)
    (h : tokens'.take (k + 1) = tokens.take (k + 1)) : SharesTo k c d := by
  obtain ⟨hi, -, after, ht⟩ := begins_of_ofTokens? hc
  obtain ⟨hi', -⟩ := begins_of_ofTokens? hd
  -- The tokens in front of the index are no end of input in the second list either.
  have hfront : tokens'.take k = (word tokens).take k :=
    calc tokens'.take k = (tokens'.take (k + 1)).take k := by
          rw [List.take_take, Nat.min_eq_left (Nat.le_succ k)]
      _ = (tokens.take (k + 1)).take k := by rw [h]
      _ = tokens.take k := by rw [List.take_take, Nat.min_eq_left (Nat.le_succ k)]
      _ = (word tokens ++ c.terminator :: after).take k := by rw [← ht]
      _ = (word tokens).take k := List.take_append_of_le_length hk
  have hn : ∀ t ∈ (word tokens).take k, decide (t.kind ≠ .endOfInput) = true := fun t hm =>
    List.all_eq_true.1 List.all_takeWhile t (List.mem_of_mem_take hm)
  have hw : word tokens' = (word tokens).take k ++ word (tokens'.drop k) :=
    calc word tokens' = word (tokens'.take k ++ tokens'.drop k) := by rw [List.take_append_drop]
      _ = _ := by rw [hfront]; exact List.takeWhile_append_of_pos hn
  have hk' : k ≤ (word tokens').length := by
    rw [hw, List.length_append, List.length_take]
    omega
  refine ⟨hi'.trans hi.symm, ?_⟩
  rw [hi, Nat.sub_zero, Cursor.take_rest hc hk, Cursor.take_rest hd hk', h]

end SharesTo

/-! ### The stack machine -/

namespace Application

variable {k : Nat}

/-- The same step with another position behind it. -/
def moveTo (d : Cursor) : State ⊕ Result → State ⊕ Result
  | .inl s => .inl { s with cursor := d }
  | .inr r => .inr (r.1, d)

/-- Unless it leaves what is shared, the first step is taken in the second place as well. -/
def Follows (k : Nat) (x y : State ⊕ Result) : Prop :=
  (cursorAfter x).index ≤ k → ∃ d, SharesTo k (cursorAfter x) d ∧ y = moveTo d x

theorem follows_deliver {c d : Cursor} (h : SharesTo k c d) (s : State) (t : ParseTree)
    (e : Cursor) : Follows k (s.deliver t c) (State.deliver { s with cursor := e } t d) := by
  intro _
  refine ⟨d, by rw [cursorAfter_deliver]; exact h, ?_⟩
  unfold State.deliver
  cases s.below <;> rfl

variable {s : State} {d : Cursor}

theorem follows_addLeaf (h : SharesTo k s.cursor d) (hk : s.cursor.index ≤ k) :
    Follows k s.addLeaf (State.addLeaf { s with cursor := d }) := by
  intro _
  refine ⟨d.advance, by rw [cursorAfter_addLeaf]; exact h.advance hk, ?_⟩
  unfold State.addLeaf
  simp only [h.current hk]
  cases (s.cursor.current.leaf : Except ParseFault ParseTree) <;> rfl

theorem follows_finish (h : SharesTo k s.cursor d) (hk : s.cursor.index ≤ k) (t : ParseTree) :
    Follows k (s.finish t) (State.finish { s with cursor := d } t) := by
  unfold State.finish Cursor.expect
  simp only [h.current hk]
  by_cases hc : s.top.closes
  · rw [if_pos hc, if_pos hc]
    by_cases he : s.cursor.current.kind = .rightParen
    · rw [if_pos he, if_pos he]
      exact follows_deliver (h.advance hk) s t d
    · rw [if_neg he, if_neg he]
      exact fun _ => ⟨d, h, rfl⟩
  · rw [if_neg hc, if_neg hc]
    exact follows_deliver h s t d

theorem follows_readIdentifier (h : SharesTo k s.cursor d) (hk : s.cursor.index ≤ k) :
    Follows k s.readIdentifier (State.readIdentifier { s with cursor := d }) := by
  unfold State.readIdentifier Cursor.expect
  simp only [h.current hk]
  by_cases he : s.cursor.current.kind = .identifier
  · rw [if_pos he, if_pos he]
    exact follows_addLeaf h hk
  · rw [if_neg he, if_neg he]
    exact fun _ => ⟨d, h, rfl⟩

theorem openBody_of_shares {closes : Bool} {c c' : Cursor} {frame : Frame} (h : SharesTo k c d)
    (hk : c.index ≤ k) (ho : openBody closes c = .ok (frame, c')) :
    ∃ d', SharesTo k c' d' ∧ openBody closes d = .ok (frame, d') := by
  unfold openBody at ho ⊢
  rw [h.current hk]
  cases hf : Form.ofLeader? c.current.kind with
  | some form =>
    simp only [hf] at ho ⊢
    cases ho
    exact ⟨d.advance, h.advance hk, rfl⟩
  | none =>
    simp only [hf] at ho ⊢
    split at ho
    · next hm =>
      cases ho
      exact ⟨d, h, if_pos hm⟩
    · cases ho

theorem openBody_error_of_shares {closes : Bool} {c : Cursor} {fault : ParseFault}
    (h : SharesTo k c d) (hk : c.index ≤ k) (ho : openBody closes c = .error fault) :
    openBody closes d = .error fault := by
  unfold openBody at ho ⊢
  rw [h.current hk]
  cases hf : Form.ofLeader? c.current.kind with
  | some form =>
    simp only [hf] at ho
    cases ho
  | none =>
    simp only [hf] at ho ⊢
    split at ho
    · cases ho
    · next hm => rw [if_neg hm, ho]

theorem follows_readExpression (h : SharesTo k s.cursor d) (hk : s.cursor.index ≤ k) :
    Follows k s.readExpression (State.readExpression { s with cursor := d }) := by
  unfold State.readExpression
  simp only [h.current hk]
  split
  · exact follows_addLeaf h hk
  · exact follows_addLeaf h hk
  · -- The token behind the parenthesis is looked at as well, and the step goes there.
    have ha := h.advance hk
    intro hafter
    cases ho : openBody true s.cursor.advance with
    | ok r =>
      obtain ⟨frame, c⟩ := r
      rw [ho] at hafter
      have hi : s.cursor.advance.index ≤ k :=
        Nat.le_trans (reaches_of_openBody ho).index_le hafter
      obtain ⟨d', hd', ho'⟩ := openBody_of_shares ha hi ho
      exact ⟨d', hd', by rw [ho']; rfl⟩
    | error fault =>
      rw [ho] at hafter
      exact ⟨d.advance, ha, by rw [openBody_error_of_shares ha hafter ho]; rfl⟩
  · exact fun _ => ⟨d, h, rfl⟩

theorem reaches_cursorAfter (s : State) : Reaches s.cursor (cursorAfter s.step) := by
  have h := stepsFrom_step s
  cases hs : s.step with
  | inl s' =>
    rw [hs] at h
    exact h
  | inr r =>
    rw [hs] at h
    exact h.reaches

/-- A step looks at no token behind the position to which it leads. -/
theorem follows_step (h : SharesTo k s.cursor d) :
    Follows k s.step (State.step { s with cursor := d }) := by
  intro hafter
  have hk : s.cursor.index ≤ k := Nat.le_trans (reaches_cursorAfter s).index_le hafter
  revert hafter
  unfold State.step
  simp only [h.current hk]
  split
  · exact follows_finish h hk _
  · exact fun _ => ⟨d, h, rfl⟩
  · split
    · exact follows_readIdentifier h hk
    · exact follows_readExpression h hk
    · exact fun _ => ⟨d, h, rfl⟩

theorem run_of_shares (s : State) {d : Cursor} (h : SharesTo k s.cursor d)
    (hk : s.run.2.index ≤ k) :
    ∃ d', SharesTo k s.run.2 d' ∧ State.run { s with cursor := d } = (s.run.1, d') := by
  have hf := follows_step h
  cases hs : s.step with
  | inl s' =>
    rw [run_of_step_eq_inl hs] at hk ⊢
    rw [hs] at hf
    obtain ⟨e, he, hd⟩ := hf (Nat.le_trans (stopsAt_run s').reaches.index_le hk)
    rw [run_of_step_eq_inl hd]
    exact run_of_shares s' he hk
  | inr result =>
    rw [run_of_step_eq_inr hs] at hk ⊢
    rw [hs] at hf
    obtain ⟨e, he, hd⟩ := hf hk
    exact ⟨e, he, run_of_step_eq_inr hd⟩
termination_by s.measure
decreasing_by exact measure_step hs

theorem application_of_shares {c : Cursor} (h : SharesTo k c d)
    (hk : (application c).2.index ≤ k) :
    ∃ d', SharesTo k (application c).2 d' ∧ application d = ((application c).1, d') :=
  run_of_shares ⟨{ shape := .application, closes := false }, [], c⟩ h hk

end Application

/-! ### Derivations -/

namespace Derivation

variable {k : Nat} {s : State} {d : Cursor} {table : Table}

/-- The position behind a step. -/
def cursorAfter : State ⊕ Outcome → Cursor
  | .inl s => s.cursor
  | .inr o => o.cursor

/-- The same step with another position behind it. -/
def moveTo (d : Cursor) : State ⊕ Outcome → State ⊕ Outcome
  | .inl s => .inl { s with cursor := d }
  | .inr o => .inr { o with cursor := d }

/-- Unless it leaves what is shared, the first step is taken in the second place as well. -/
def Follows (k : Nat) (x y : State ⊕ Outcome) : Prop :=
  (cursorAfter x).index ≤ k → ∃ d, SharesTo k (cursorAfter x) d ∧ y = moveTo d x

theorem follows_close (h : SharesTo k s.cursor d) :
    Follows k s.close (State.close { s with cursor := d }) := by
  unfold State.close
  cases hv : s.values.items with
  | nil => exact fun _ => ⟨d, h, rfl⟩
  | cons t rest => cases rest <;> exact fun _ => ⟨d, h, rfl⟩

theorem follows_matchKind (h : SharesTo k s.cursor d) (hk : s.cursor.index ≤ k) (kind : Kind) :
    Follows k (s.matchKind kind) (State.matchKind { s with cursor := d } kind) := by
  unfold State.matchKind Cursor.expect
  simp only [h.current hk]
  have ha := h.advance hk
  by_cases he : s.cursor.current.kind = kind
  · simp only [if_pos he]
    by_cases hc : kind.carriesLexeme
    · simp only [if_pos hc]
      cases (s.cursor.current.leaf : Except ParseFault ParseTree) with
      | ok t => exact fun _ => ⟨d.advance, ha, rfl⟩
      | error fault => exact fun _ => ⟨d.advance, ha, rfl⟩
    · simp only [if_neg hc]
      exact fun _ => ⟨d.advance, ha, rfl⟩
  · simp only [if_neg he]
    exact fun _ => ⟨d, h, rfl⟩

theorem follows_expand (h : SharesTo k s.cursor d) (hk : s.cursor.index ≤ k) (nt : Nonterminal) :
    Follows k (s.expand table nt) (State.expand table { s with cursor := d } nt) := by
  unfold State.expand
  simp only [h.current hk]
  cases table.lookup nt s.cursor.current.kind with
  | none => exact fun _ => ⟨d, h, rfl⟩
  | some p =>
    by_cases hv : p.variadic
    · simp only [if_pos hv]
      have ha := Application.application_of_shares (k := k) h
      generalize Application.application s.cursor = r at ha ⊢
      obtain ⟨result, c⟩ := r
      intro hafter
      cases result with
      | ok t =>
        obtain ⟨d', hd', he⟩ := ha hafter
        exact ⟨d', hd', by rw [he]; rfl⟩
      | error fault =>
        obtain ⟨d', hd', he⟩ := ha hafter
        exact ⟨d', hd', by rw [he]; rfl⟩
    · simp only [if_neg hv]
      exact fun _ => ⟨d, h, rfl⟩

theorem follows_apply (h : SharesTo k s.cursor d) (hk : s.cursor.index ≤ k) (form : Form) :
    Follows k (s.apply form) (State.apply { s with cursor := d } form) := by
  unfold State.apply
  cases form.reduce s.values with
  | ok values => exact fun _ => ⟨d, h, by simp only [h.current hk]; rfl⟩
  | error fault => exact fun _ => ⟨d, h, rfl⟩

theorem reaches_cursorAfter (table : Table) (s : State) :
    Reaches s.cursor (cursorAfter (s.step table)) := by
  have h := stepsFrom_step table s
  cases hs : s.step table with
  | inl s' =>
    rw [hs] at h
    exact h
  | inr o =>
    rw [hs] at h
    exact h.reaches

/-- A step looks at no token behind the position to which it leads. -/
theorem follows_step (table : Table) (h : SharesTo k s.cursor d) :
    Follows k (s.step table) (State.step table { s with cursor := d }) := by
  intro hafter
  have hk : s.cursor.index ≤ k := Nat.le_trans (reaches_cursorAfter table s).index_le hafter
  revert hafter
  unfold State.step
  cases s.control.pop? with
  | none => exact follows_close h
  | some top =>
    obtain ⟨symbol, control⟩ := top
    cases symbol with
    | terminal kind => exact follows_matchKind (s := { s with control }) h hk kind
    | nonterminal nt => exact follows_expand (s := { s with control }) h hk nt
    | action form => exact follows_apply (s := { s with control }) h hk form
    | stray word => exact fun _ => ⟨d, h, rfl⟩

theorem run_of_shares {limit : Nat} {o : Outcome} (h : SharesTo k s.cursor d)
    (hr : run table limit s = some o) (hk : o.cursor.index ≤ k) :
    ∃ d', run table limit { s with cursor := d } = some { o with cursor := d' } ∧
      SharesTo k o.cursor d' := by
  induction limit generalizing s d with
  | zero => cases hr
  | succ limit ih =>
    have hf := follows_step table h
    rw [run] at hr ⊢
    cases hs : s.step table with
    | inl s' =>
      rw [hs] at hf hr
      obtain ⟨e, he, hd⟩ := hf (Nat.le_trans (stopsAt_of_run hr).reaches.index_le hk)
      rw [hd]
      exact ih he hr
    | inr o' =>
      rw [hs] at hf hr
      cases hr
      obtain ⟨e, he, hd⟩ := hf hk
      rw [hd]
      exact ⟨e, rfl, he⟩

variable {tokens : List Token}

/-- Where a run stops, and what it has found, depends on no token behind the one at which it stops:
that token is the one refused, if one is, and the first end of input, if a tree is found; and any
list with the same tokens so far has the same outcome and the same trace. Nothing at all depends on
the tokens behind the first end of input. -/
theorem run_reads_no_further (h : Terminated tokens) :
    ∃ c, Cursor.ofTokens? tokens = some c ∧
      (∀ table limit o, run table limit (start c) = some o →
        o.cursor.index ≤ (word tokens).length ∧
        (∀ fault, o.result = .error (.refused fault) →
          tokens[o.cursor.index]? = some fault.token) ∧
        (∀ t, o.result = .ok t → o.cursor.index = (word tokens).length) ∧
        ∀ {tokens'}, Terminated tokens' →
          tokens'.take (o.cursor.index + 1) = tokens.take (o.cursor.index + 1) →
          ∃ c' o', Cursor.ofTokens? tokens' = some c' ∧ run table limit (start c') = some o' ∧
            o'.result = o.result ∧ o'.events = o.events ∧ o'.cursor.index = o.cursor.index) ∧
      ∀ {tokens'}, Terminated tokens' →
        tokens'.take ((word tokens).length + 1) = tokens.take ((word tokens).length + 1) →
        Cursor.ofTokens? tokens' = some c := by
  obtain ⟨c, hc, -⟩ := h.exists_cursor
  refine ⟨c, hc, ?_, Cursor.ofTokens?_of_take hc⟩
  intro table limit o hr
  have hs := stopsAt_of_run hr
  have hl := hs.reaches.index_le_length hc
  refine ⟨hl, ?_, ?_, ?_⟩
  · intro fault hf
    rw [hs.token_eq fault hf]
    exact hs.reaches.getElem?_index hc
  · intro t ht
    exact hs.reaches.index_eq_length hc (atEnd_of_run (endsBelow_start c) hr ht)
  · intro tokens' h' ht
    obtain ⟨c', hc', -⟩ := h'.exists_cursor
    obtain ⟨d, hd, hshares⟩ := run_of_shares (s := start c) (.of_take hc hc' hl ht) hr (Nat.le_refl _)
    exact ⟨c', _, hc', hd, rfl, rfl, hshares.index⟩

/-- The tokens of `(+ 0)`, where an operand is missing, and others behind them. -/
def oneAddend (others : List Kind) : List Token :=
  ([Kind.leftParen, .plus, .number, .rightParen] ++ others).map .sample

/-- The missing operand is noticed at the right parenthesis, so what follows does not matter. -/
theorem run_reads_no_further_oneAddend :
    Terminated (oneAddend [.endOfInput]) ∧
    Terminated (oneAddend [.identifier, .rightParen, .endOfInput]) ∧
    ∃ c o c' o', Cursor.ofTokens? (oneAddend [.endOfInput]) = some c ∧
      run Grammar.standard 8 (start c) = some o ∧ o.cursor.index = 3 ∧
      (oneAddend [.identifier, .rightParen, .endOfInput]).take (o.cursor.index + 1) =
        (oneAddend [.endOfInput]).take (o.cursor.index + 1) ∧
      Cursor.ofTokens? (oneAddend [.identifier, .rightParen, .endOfInput]) = some c' ∧
      run Grammar.standard 8 (start c') = some o' ∧ o'.result = o.result ∧ o'.events = o.events ∧
      o'.cursor.index = o.cursor.index := by
  have h : Terminated (oneAddend [.endOfInput]) := ⟨_, rfl, rfl⟩
  have h' : Terminated (oneAddend [.identifier, .rightParen, .endOfInput]) := ⟨_, rfl, rfl⟩
  obtain ⟨c, hc, hrun, -⟩ := run_reads_no_further h
  have hr : ∃ c o, Cursor.ofTokens? (oneAddend [.endOfInput]) = some c ∧
      run Grammar.standard 8 (start c) = some o ∧ o.cursor.index = 3 := ⟨_, _, rfl, rfl, rfl⟩
  obtain ⟨d, o, hd, ho, hi⟩ := hr
  cases hc.symm.trans hd
  have ht : (oneAddend [.identifier, .rightParen, .endOfInput]).take (o.cursor.index + 1) =
      (oneAddend [.endOfInput]).take (o.cursor.index + 1) := by
    rw [hi]
    rfl
  obtain ⟨-, -, -, hsame⟩ := hrun _ _ o ho
  obtain ⟨c', o', hc', ho', hsame⟩ := hsame h' ht
  exact ⟨h, h', c, o, c', o', hc, ho, hi, ht, hc', ho', hsame⟩

end Derivation

end LispReader
