import LispReader.Derivation

/-! What a step of a derivation can do.

A step looks at the top of the control stack and at the token at the position. The lemmas here say
what it does in single situations, for any table, and `Stepped` lists all the ways in which it goes
on or stops. Every step is one of them, `stepped`; so what holds of every step is shown by going
through the list. -/
namespace LispReader.Derivation

variable {table : Table} {s : State} {control : List Symbol}

/-! ### Single situations -/

/-- A terminal without a value is passed. -/
theorem step_bare {kind : Kind} (hc : s.control.items = .terminal kind :: control)
    (hk : kind.carriesLexeme = false) (ht : s.cursor.current.kind = kind) :
    s.step table = .inl (State.record ⟨.ofList control, s.values, s.cursor.advance, s.trace⟩
      .matched (.terminal kind) s.cursor.current) := by
  rw [step_terminal hc, State.matchKind, Cursor.expect, if_pos ht]
  exact if_neg (by simp [hk])

/-- The value of a number or an identifier is pushed. -/
theorem step_leaf {kind : Kind} {t : ParseTree} (hc : s.control.items = .terminal kind :: control)
    (hk : kind.carriesLexeme = true) (ht : s.cursor.current.kind = kind)
    (hl : s.cursor.current.leaf = .ok t) :
    s.step table = .inl (State.record
      ⟨.ofList control, s.values.push t, s.cursor.advance, s.trace⟩ .matched (.terminal kind)
      s.cursor.current) := by
  rw [step_terminal hc, State.matchKind, Cursor.expect, if_pos ht]
  simp only [if_pos hk, hl]

/-- Another token than the one on top is refused. -/
theorem step_mismatched {kind : Kind} (hc : s.control.items = .terminal kind :: control)
    (ht : s.cursor.current.kind ≠ kind) :
    s.step table =
      .inr ⟨.error (.refused (.mismatch kind s.cursor.current)), s.cursor, s.trace⟩ := by
  rw [step_terminal hc, State.matchKind, Cursor.expect, if_neg ht]
  rfl

theorem step_expanded {nt : Nonterminal} {p : Production}
    (hc : s.control.items = .nonterminal nt :: control)
    (hp : table.lookup nt s.cursor.current.kind = some p) (hv : p.variadic = false) :
    s.step table = .inl (State.record
      ⟨(Stack.ofList control).pushAll p.rhs, s.values, s.cursor, s.trace⟩ .expanded
      (.nonterminal nt) s.cursor.current p.id) := by
  simp only [step_nonterminal hc, State.expand, hp, hv]
  rfl

/-- An application is read in the place of a variadic production. -/
theorem step_delegated {nt : Nonterminal} {p : Production} {t : ParseTree} {c : Cursor}
    (hc : s.control.items = .nonterminal nt :: control)
    (hp : table.lookup nt s.cursor.current.kind = some p) (hv : p.variadic = true)
    (ha : Application.application s.cursor = (.ok t, c)) :
    s.step table = .inl (State.record ⟨.ofList control, s.values.push t, c, s.trace⟩ .delegated
      (.nonterminal nt) s.cursor.current p.id) := by
  simp only [step_nonterminal hc, State.expand, hp, hv, ha, if_true]

/-- Nothing that the nonterminal derives begins with the token. -/
theorem step_missed {nt : Nonterminal} (hc : s.control.items = .nonterminal nt :: control)
    (hp : table.lookup nt s.cursor.current.kind = none) :
    s.step table = .inr ⟨.error (.refused (.unexpected s.cursor.current (table.expected nt)
      nt.name)), s.cursor, s.trace⟩ := by
  simp only [step_nonterminal hc, State.expand, hp]
  rfl

/-- An action replaces the operands of its form, the last one on top, by their tree. -/
theorem step_applied {form : Form} {ts values : List ParseTree}
    (hc : s.control.items = .action form :: control) (hv : s.values.items = ts.reverse ++ values)
    (ht : ts.length = form.arity) :
    ∃ below, below.items = form.tree ts :: values ∧
      s.step table = .inl (State.record ⟨.ofList control, below, s.cursor, s.trace⟩ .applied
        (.action form) s.cursor.current) := by
  have hl : form.arity ≤ s.values.height := by
    rw [s.values.height_eq, hv, List.length_append, List.length_reverse]
    omega
  refine ⟨_, ?_, by rw [step_action hc, State.apply, Form.reduce, if_pos hl]⟩
  have hn : ts.reverse.length = form.arity := by rw [List.length_reverse, ht]
  show form.tree (s.values.items.take form.arity).reverse :: s.values.items.drop form.arity = _
  rw [hv, ← hn, List.take_left, List.drop_left, List.reverse_reverse]

theorem step_closed {t : ParseTree} (hc : s.control.items = []) (hv : s.values.items = [t]) :
    s.step table = .inr ⟨.ok t, s.cursor, s.trace⟩ := by
  rw [step_nil hc, State.close, hv]

/-! ### All steps -/

/-- The ways in which a step goes on or stops, each with what is found at the top and ahead. -/
inductive Stepped (table : Table) (s : State) : State ⊕ Outcome → Prop
  | closed {t : ParseTree} (empty : s.control.items = []) (values : s.values.items = [t]) :
      Stepped table s (.inr ⟨.ok t, s.cursor, s.trace⟩)
  | valueless (empty : s.control.items = []) (values : s.values.items = []) :
      Stepped table s (.inr ⟨.error (.state .noTree), s.cursor, s.trace⟩)
  | unclosed (empty : s.control.items = []) (values : 2 ≤ s.values.height) :
      Stepped table s (.inr ⟨.error (.state (.manyValues s.values.height)), s.cursor, s.trace⟩)
  | bare {kind : Kind} {control : List Symbol} (top : s.control.items = .terminal kind :: control)
      (found : s.cursor.current.kind = kind) (bare : kind.carriesLexeme = false) :
      Stepped table s (.inl (State.record
        ⟨.ofList control, s.values, s.cursor.advance, s.trace⟩ .matched (.terminal kind)
        s.cursor.current))
  | leaf {kind : Kind} {control : List Symbol} {t : ParseTree}
      (top : s.control.items = .terminal kind :: control) (found : s.cursor.current.kind = kind)
      (carries : kind.carriesLexeme = true) (value : s.cursor.current.leaf = .ok t) :
      Stepped table s (.inl (State.record
        ⟨.ofList control, s.values.push t, s.cursor.advance, s.trace⟩ .matched (.terminal kind)
        s.cursor.current))
  | unreadable {kind : Kind} {control : List Symbol} {fault : ParseFault}
      (top : s.control.items = .terminal kind :: control) (found : s.cursor.current.kind = kind)
      (carries : kind.carriesLexeme = true)
      (value : (s.cursor.current.leaf : Except ParseFault ParseTree) = .error fault) :
      Stepped table s (.inr ⟨.error fault, s.cursor.advance, s.trace⟩)
  | mismatched {kind : Kind} {control : List Symbol}
      (top : s.control.items = .terminal kind :: control) (found : s.cursor.current.kind ≠ kind) :
      Stepped table s (.inr ⟨.error (.refused (.mismatch kind s.cursor.current)), s.cursor,
        s.trace⟩)
  | expanded {nt : Nonterminal} {control : List Symbol} {p : Production}
      (top : s.control.items = .nonterminal nt :: control)
      (cell : table.lookup nt s.cursor.current.kind = some p) (plain : p.variadic = false) :
      Stepped table s (.inl (State.record
        ⟨(Stack.ofList control).pushAll p.rhs, s.values, s.cursor, s.trace⟩ .expanded
        (.nonterminal nt) s.cursor.current p.id))
  | delegated {nt : Nonterminal} {control : List Symbol} {p : Production} {t : ParseTree}
      {c : Cursor} (top : s.control.items = .nonterminal nt :: control)
      (cell : table.lookup nt s.cursor.current.kind = some p) (variadic : p.variadic = true)
      (read : Application.application s.cursor = (.ok t, c)) :
      Stepped table s (.inl (State.record ⟨.ofList control, s.values.push t, c, s.trace⟩ .delegated
        (.nonterminal nt) s.cursor.current p.id))
  | failed {nt : Nonterminal} {control : List Symbol} {p : Production} {fault : ParseFault}
      {c : Cursor} (top : s.control.items = .nonterminal nt :: control)
      (cell : table.lookup nt s.cursor.current.kind = some p) (variadic : p.variadic = true)
      (read : Application.application s.cursor = (.error fault, c)) :
      Stepped table s (.inr ⟨.error fault, c, s.trace⟩)
  | missed {nt : Nonterminal} {control : List Symbol}
      (top : s.control.items = .nonterminal nt :: control)
      (cell : table.lookup nt s.cursor.current.kind = none) :
      Stepped table s (.inr ⟨.error (.refused (.unexpected s.cursor.current (table.expected nt)
        nt.name)), s.cursor, s.trace⟩)
  | applied {form : Form} {control : List Symbol} {values : Stack ParseTree}
      (top : s.control.items = .action form :: control) (reduces : form.reduce s.values = .ok values) :
      Stepped table s (.inl (State.record ⟨.ofList control, values, s.cursor, s.trace⟩ .applied
        (.action form) s.cursor.current))
  | unapplied {form : Form} {control : List Symbol} {fault : StateFault}
      (top : s.control.items = .action form :: control)
      (reduces : form.reduce s.values = .error fault) :
      Stepped table s (.inr ⟨.error (.state fault), s.cursor, s.trace⟩)
  | stray {word : String} {control : List Symbol} (top : s.control.items = .stray word :: control) :
      Stepped table s (.inr ⟨.error (.state (.strayWord word)), s.cursor, s.trace⟩)

theorem stepped (table : Table) (s : State) : Stepped table s (s.step table) := by
  cases hc : s.control.items with
  | nil =>
    rw [step_nil hc, State.close]
    cases hv : s.values.items with
    | nil => exact .valueless hc hv
    | cons t rest =>
      cases rest with
      | nil => exact .closed hc hv
      | cons u rest =>
        have hh : 2 ≤ s.values.height := by
          rw [s.values.height_eq, hv]
          exact Nat.le_add_left 2 rest.length
        exact .unclosed hc hh
  | cons symbol control =>
    cases symbol with
    | terminal kind =>
      by_cases hk : s.cursor.current.kind = kind
      · cases hl : kind.carriesLexeme with
        | false => exact step_bare hc hl hk ▸ .bare hc hk hl
        | true =>
          cases ht : (s.cursor.current.leaf : Except ParseFault ParseTree) with
          | ok t => exact step_leaf hc hl hk ht ▸ .leaf hc hk hl ht
          | error fault =>
            have hs : s.step table = .inr ⟨.error fault, s.cursor.advance, s.trace⟩ := by
              rw [step_terminal hc, State.matchKind, Cursor.expect, if_pos hk]
              simp only [if_pos hl, ht]
              rfl
            exact hs ▸ .unreadable hc hk hl ht
      · exact step_mismatched hc hk ▸ .mismatched hc hk
    | nonterminal nt =>
      cases hp : table.lookup nt s.cursor.current.kind with
      | none => exact step_missed hc hp ▸ .missed hc hp
      | some p =>
        cases hv : p.variadic with
        | false => exact step_expanded hc hp hv ▸ .expanded hc hp hv
        | true =>
          cases ha : Application.application s.cursor with
          | mk result c =>
            cases result with
            | ok t => exact step_delegated hc hp hv ha ▸ .delegated hc hp hv ha
            | error fault =>
              have hs : s.step table = .inr ⟨.error fault, c, s.trace⟩ := by
                simp only [step_nonterminal hc, State.expand, hp, hv, ha, if_true]
                rfl
              exact hs ▸ .failed hc hp hv ha
    | action form =>
      rw [step_action hc, State.apply]
      cases hr : form.reduce s.values with
      | ok values => exact .applied hc hr
      | error fault => exact .unapplied hc hr
    | stray word =>
      have hp : s.control.pop? = some (_, .ofList control) := Stack.pop?_eq_some_iff.2 hc
      rw [State.step, hp]
      exact .stray hc

end LispReader.Derivation
