import LispReader.Application
import LispReader.Text.Column

/-! Leftmost derivations driven by a parse table.

The control stack holds the symbols still to be processed and the value stack the finished trees,
both with the next one on top. A terminal is matched with the current token, a nonterminal is
replaced by the right-hand side of its production, and an action combines values. A variadic
production is not expanded: the application at the cursor is parsed in its place. The control
stack starts as a program and the end of input; when it is empty, the one value left is the
result. Each processed symbol leaves an event in the trace.

With an arbitrary table a derivation need not end, so `run` has a limit on its steps, and `parse`
gives up at one that is chosen generously. A derivation in the standard grammar always ends,
`exists_run_standard`, and `parseStandard` needs no limit. -/
namespace LispReader.Derivation

/-! ### Trace -/

inductive Move where
  | matched
  | expanded
  | applied
  | delegated
  deriving DecidableEq, Repr

def Move.name : Move → String
  | matched => "match"
  | expanded => "expand"
  | applied => "apply"
  | delegated => "delegate"

/-- What happened to a symbol, in front of which token, and the heights of the stacks behind it. -/
structure Event where
  move : Move
  symbol : Symbol
  production : Option Int
  lookahead : Token
  controlHeight : Nat
  valueHeight : Nat
  deriving DecidableEq

def Event.text (e : Event) : String :=
  let number := e.production.elim "" fun id => s!" [{Numeral.write id}]"
  s!"{Text.alignLeft 8 e.move.name} {e.symbol.text}{number} @ {e.lookahead.describe} " ++
    s!"(control={e.controlHeight}, values={e.valueHeight})"

/-! ### Steps -/

/-- The two stacks, the reading position, and the events so far, the last one first. -/
structure State where
  control : Stack Symbol
  values : Stack ParseTree
  cursor : Cursor
  trace : List Event

/-- The end of a derivation; `trace` holds the events with the last one first. -/
structure Outcome where
  result : Except ParseFault ParseTree
  cursor : Cursor
  trace : List Event

/-- The events in the order in which they happened. -/
def Outcome.events (o : Outcome) : List Event := o.trace.reverse

def start (c : Cursor) : State :=
  { control := .ofList [.nonterminal .program, .terminal .endOfInput], values := .ofList []
    cursor := c, trace := [] }

/-- Adds the event that led to a state. -/
def State.record (s : State) (move : Move) (symbol : Symbol) (lookahead : Token)
    (production : Option Int := none) : State :=
  { s with
    trace :=
      ⟨move, symbol, production, lookahead, s.control.height, s.values.height⟩ :: s.trace }

/-- Ends the derivation in a fault. -/
def State.stop (s : State) (fault : ParseFault) : State ⊕ Outcome :=
  .inr ⟨.error fault, s.cursor, s.trace⟩

/-- Ends the derivation with the value that is left. -/
def State.close (s : State) : State ⊕ Outcome :=
  match s.values.items with
  | [] => s.stop (.state .noTree)
  | [t] => .inr ⟨.ok t, s.cursor, s.trace⟩
  | _ => s.stop (.state (.manyValues s.values.height))

/-- Matches the current token, whose value is pushed if it has one. -/
def State.matchKind (s : State) (kind : Kind) : State ⊕ Outcome :=
  match s.cursor.expect kind with
  | .error fault => s.stop (.refused fault)
  | .ok (token, c) =>
    let s := { s with cursor := c }
    if kind.carriesLexeme then
      match token.leaf with
      | .error fault => s.stop fault
      | .ok t =>
        .inl ({ s with values := s.values.push t }.record .matched (.terminal kind) token)
    else .inl (s.record .matched (.terminal kind) token)

/-- Expands a nonterminal by the production that covers its cell. -/
def State.expand (table : Table) (s : State) (nt : Nonterminal) : State ⊕ Outcome :=
  let token := s.cursor.current
  match table.lookup nt token.kind with
  | none => s.stop (.refused (.unexpected token (table.expected nt) nt.name))
  | some p =>
    if p.variadic then
      match Application.application s.cursor with
      | (.error fault, c) => { s with cursor := c }.stop fault
      | (.ok t, c) =>
        .inl ({ s with values := s.values.push t, cursor := c }.record
          .delegated (.nonterminal nt) token p.id)
    else
      .inl ({ s with control := s.control.pushAll p.rhs }.record
        .expanded (.nonterminal nt) token p.id)

/-- Combines the topmost values by a form. -/
def State.apply (s : State) (form : Form) : State ⊕ Outcome :=
  match form.reduce s.values with
  | .error fault => s.stop (.state fault)
  | .ok values => .inl ({ s with values }.record .applied (.action form) s.cursor.current)

/-- Processes the topmost symbol of the control stack. -/
def State.step (table : Table) (s : State) : State ⊕ Outcome :=
  match s.control.pop? with
  | none => s.close
  | some (symbol, control) =>
    let s := { s with control }
    match symbol with
    | .terminal kind => s.matchKind kind
    | .nonterminal nt => s.expand table nt
    | .action form => s.apply form
    | .stray word => s.stop (.state (.strayWord word))

section

variable {table : Table} {s : State} {control : List Symbol}

theorem step_nil (h : s.control.items = []) : s.step table = s.close := by
  rw [State.step, Stack.pop?_eq_none_iff.2 h]

theorem step_terminal {kind : Kind} (h : s.control.items = .terminal kind :: control) :
    s.step table = { s with control := .ofList control }.matchKind kind := by
  have hp : s.control.pop? = some (_, .ofList control) := Stack.pop?_eq_some_iff.2 h
  rw [State.step, hp]

theorem step_nonterminal {nt : Nonterminal} (h : s.control.items = .nonterminal nt :: control) :
    s.step table = { s with control := .ofList control }.expand table nt := by
  have hp : s.control.pop? = some (_, .ofList control) := Stack.pop?_eq_some_iff.2 h
  rw [State.step, hp]

theorem step_action {form : Form} (h : s.control.items = .action form :: control) :
    s.step table = { s with control := .ofList control }.apply form := by
  have hp : s.control.pop? = some (_, .ofList control) := Stack.pop?_eq_some_iff.2 h
  rw [State.step, hp]

end

/-! ### Runs -/

/-- The outcome of a derivation if it ends within the given number of steps. -/
def run (table : Table) : Nat → State → Option Outcome
  | 0, _ => none
  | limit + 1, s =>
    match s.step table with
    | .inl s => run table limit s
    | .inr outcome => some outcome

/-- A number of steps to wait for a derivation over this many tokens. It is a rule of thumb: a
longer derivation is taken for one that does not end.

It allows, with right-hand sides of at most `m` symbols, for three nested expansions at each token
and the symbols below them, and for as many rounds of a loop as there can be values. -/
def stepLimit (table : Table) (tokens : Nat) : Nat :=
  let m := (table.rules.map (·.rhs.length)).foldl max 0
  let below := 1 + m + m * m + m * m * m
  let plain := (3 * (tokens + 1) + 1) * below * (m + 1) + 2
  (plain + 1) * (4 + 3 * m * below)

/-- Parses by a table; none if the derivation takes longer than is waited for. -/
def parse (table : Table) (c : Cursor) : Option Outcome :=
  run table (stepLimit table c.ahead.length) (start c)

theorem run_add {table : Table} {limit : Nat} {s : State} {o : Outcome}
    (h : run table limit s = some o) (more : Nat) : run table (limit + more) s = some o := by
  induction limit generalizing s with
  | zero => cases h
  | succ limit ih =>
    rw [Nat.add_right_comm]
    simp only [run] at h ⊢
    split at h
    · exact ih h
    · exact h

/-! ### The standard grammar -/

/-- The steps that symbols can take before a token is consumed. -/
def idleSteps : List Symbol → Nat
  | [] => 0
  | .nonterminal .program :: _ => 3
  | .nonterminal _ :: _ => 2
  | .terminal .endOfInput :: control => 1 + idleSteps control
  | .terminal _ :: _ => 1
  | .action _ :: control => 1 + idleSteps control
  | .stray _ :: _ => 1

/-- In the standard grammar, a production that is not variadic begins with a symbol nearer to a
token. -/
theorem idleSteps_rhs {p : Production} (hp : p ∈ Grammar.standard.rules)
    (hv : p.variadic = false) (control : List Symbol) :
    idleSteps (p.rhs ++ control) < idleSteps [.nonterminal p.lhs] := by
  revert hv
  simp only [Grammar.standard, Grammar.productions, Form.all, List.zipIdx, List.map,
    List.mem_append, List.mem_cons, List.not_mem_nil, or_false] at hp
  rcases hp with ((rfl | rfl | rfl | rfl) | rfl | rfl | rfl | rfl | rfl | rfl | rfl) | rfl <;>
    simp [Grammar.formProduction, idleSteps]

theorem length_ahead_lt_of_expect {kind : Kind} {c c' : Cursor} {t : Token}
    (hk : kind ≠ .endOfInput) (h : c.expect kind = .ok (t, c')) :
    c'.ahead.length < c.ahead.length := by
  unfold Cursor.expect at h
  split at h
  · next hc =>
    cases h
    have := Cursor.length_ahead_advance (c := c) (by simp [hc, hk])
    omega
  · cases h

/-- The state behind a step has used up the top symbol: it lies behind a token, or its control
stack brings the next token nearer. -/
def Progress (c c' : Cursor) (control control' : List Symbol) : Prop :=
  c'.ahead.length < c.ahead.length ∨
    c'.ahead.length = c.ahead.length ∧ idleSteps control' < idleSteps control

theorem progress_matchKind {s s' : State} {kind : Kind} (h : s.matchKind kind = .inl s') :
    Progress s.cursor s'.cursor (.terminal kind :: s.control.items) s'.control.items := by
  unfold State.matchKind at h
  split at h
  · cases h
  · next token c he =>
    have hs : s'.cursor = c ∧ s'.control = s.control := by
      simp only [State.stop, State.record] at h
      split at h
      · split at h <;> cases h
        exact ⟨rfl, rfl⟩
      · cases h
        exact ⟨rfl, rfl⟩
    rw [hs.1, hs.2]
    by_cases hk : kind = .endOfInput
    · subst hk
      refine .inr ⟨?_, by simp only [idleSteps]; omega⟩
      unfold Cursor.expect at he
      split at he
      · next hc =>
        cases he
        have := s.cursor.atEnd_eq_isEmpty
        simp only [Cursor.atEnd, hc, decide_true] at this
        simp [Cursor.ahead_advance, List.isEmpty_iff.1 this.symm]
      · cases he
    · exact .inl (length_ahead_lt_of_expect hk he)

theorem progress_expand {s s' : State} {nt : Nonterminal}
    (h : s.expand Grammar.standard nt = .inl s') :
    Progress s.cursor s'.cursor (.nonterminal nt :: s.control.items) s'.control.items := by
  simp only [State.expand, State.stop, State.record] at h
  split at h
  · cases h
  · next p hp =>
    obtain ⟨hmem, hlhs, _⟩ := Table.lookup_eq_some_iff.1 hp
    split at h
    · split at h
      · cases h
      · next ha =>
        cases h
        exact .inl (Application.length_ahead_application ha)
    · next hv =>
      cases h
      refine .inr ⟨rfl, ?_⟩
      have := idleSteps_rhs hmem (by simpa using hv) s.control.items
      rw [hlhs] at this
      cases nt <;> exact this

/-- In the standard grammar, a step consumes a token or brings the next one nearer. -/
theorem progress_step {s s' : State} (h : s.step Grammar.standard = .inl s') :
    Progress s.cursor s'.cursor s.control.items s'.control.items := by
  unfold State.step at h
  split at h
  · simp only [State.close, State.stop] at h
    split at h <;> cases h
  · next hc =>
    rw [Stack.pop?_eq_some_iff.1 hc]
    split at h
    · exact progress_matchKind h
    · exact progress_expand h
    · simp only [State.apply, State.stop, State.record] at h
      split at h
      · cases h
      · cases h
        exact .inr ⟨rfl, by simp only [idleSteps]; omega⟩
    · cases h

/-- The outcome of a derivation in the standard grammar. -/
def runStandard (s : State) : Outcome :=
  match _h : s.step Grammar.standard with
  | .inl s => runStandard s
  | .inr outcome => outcome
termination_by (s.cursor.ahead.length, idleSteps s.control.items)
decreasing_by
  rcases progress_step (by assumption) with h | ⟨he, h⟩
  · exact Prod.Lex.left _ _ h
  · rw [he]
    exact Prod.Lex.right _ h

/-- Parses by the standard grammar. -/
def parseStandard (c : Cursor) : Outcome := runStandard (start c)

/-- Parses a token list by the standard grammar; none if it does not end in an end of input. -/
def parseTokens? (tokens : List Token) : Option Outcome :=
  (Cursor.ofTokens? tokens).map parseStandard

theorem runStandard_of_step_eq_inl {s s' : State} (h : s.step Grammar.standard = .inl s') :
    runStandard s = runStandard s' := by
  rw [runStandard]
  split <;> simp_all

theorem runStandard_of_step_eq_inr {s : State} {o : Outcome}
    (h : s.step Grammar.standard = .inr o) : runStandard s = o := by
  rw [runStandard]
  split <;> simp_all

theorem runStandard_eq_of_run {limit : Nat} {s : State} {o : Outcome}
    (h : run Grammar.standard limit s = some o) : runStandard s = o := by
  induction limit generalizing s with
  | zero => cases h
  | succ limit ih =>
    rw [runStandard]
    simp only [run] at h
    split <;> rename_i hs <;> rw [hs] at h
    · exact ih h
    · exact Option.some.inj h

theorem parseTokens?_eq_of_run {tokens : List Token} {limit : Nat} {c : Cursor} {o : Outcome}
    (hc : Cursor.ofTokens? tokens = some c) (h : run Grammar.standard limit (start c) = some o) :
    parseTokens? tokens = some o := by
  rw [parseTokens?, hc]
  exact congrArg some (runStandard_eq_of_run h)

/-- In the standard grammar every derivation ends. -/
theorem exists_run_standard (s : State) :
    ∃ limit, run Grammar.standard limit s = some (runStandard s) := by
  fun_induction runStandard s with
  | case1 s s' hs ih =>
    obtain ⟨limit, h⟩ := ih
    exact ⟨limit + 1, by simp [run, hs, h]⟩
  | case2 s o ho => exact ⟨1, by simp [run, ho]⟩

end LispReader.Derivation
