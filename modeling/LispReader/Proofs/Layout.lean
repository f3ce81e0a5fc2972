import Mathlib.Data.List.Forall2
import LispReader.Proofs.Reach
import LispReader.Proofs.Readings

/-! Positions do not matter to the parser.

A token can be taken without its position: it is then thought to stand at the start of a text
(`Token.unplaced`), and with it every cursor, fault, event and state that holds tokens. Taking the
positions away before a step or behind it is the same, for the stack machine as for derivations by
any table (`Derivation.step_unplaced`), so it is the same for whole runs. Two token lists with the
same kinds and lexemes are equal without their positions. So their runs stop together, with the same
trace and the same tree or with faults that differ in the position of their token only; and the
layout of a text does not change its tree. Both are said by `runs_alike`. -/
namespace LispReader
open List (Forall₂)

/-! ### Without positions -/

namespace Token

/-- The token with another position. -/
def moveTo (t : Token) (p : Position) : Token := { t with position := p }

/-- The token at the start of a text. -/
def unplaced (t : Token) : Token := t.moveTo .start

@[simp] theorem kind_unplaced (t : Token) : t.unplaced.kind = t.kind := rfl

@[simp] theorem leaf_unplaced {α : Type} (t : Token) :
    (t.unplaced.leaf : Except ParseFault (Tree α)) = t.leaf := rfl

/-- Tokens that may stand at different positions. -/
structure Alike (t t' : Token) : Prop where
  kind : t.kind = t'.kind
  lexeme : t.lexeme = t'.lexeme

theorem Alike.eq_moveTo {t t' : Token} (h : t.Alike t') : t' = t.moveTo t'.position := by
  obtain ⟨hk, hl⟩ := h
  cases t
  cases t'
  cases hk
  cases hl
  rfl

theorem unplaced_eq_iff {t t' : Token} : t.unplaced = t'.unplaced ↔ t.Alike t' := by
  constructor
  · intro h
    have hk : t.unplaced.kind = t'.unplaced.kind := by rw [h]
    have hl : t.unplaced.lexeme = t'.unplaced.lexeme := by rw [h]
    exact ⟨hk, hl⟩
  · intro h
    rw [h.eq_moveTo]
    rfl

end Token

namespace SyntaxFault

/-- The fault with its token at another position. -/
def moveTo (p : Position) : SyntaxFault → SyntaxFault
  | mismatch expected found => mismatch expected (found.moveTo p)
  | unexpected found expected context => unexpected (found.moveTo p) expected context

def unplaced (f : SyntaxFault) : SyntaxFault := f.moveTo .start

theorem eq_moveTo_of_unplaced_eq {f f' : SyntaxFault} (h : f.unplaced = f'.unplaced) :
    f' = f.moveTo f'.token.position := by
  cases f with
  | mismatch expected found =>
    cases f' with
    | mismatch expected' found' =>
      obtain ⟨rfl, hf⟩ := mismatch.inj h
      exact congrArg (mismatch expected) (Token.unplaced_eq_iff.1 hf).eq_moveTo
    | unexpected => cases h
  | unexpected found expected context =>
    cases f' with
    | mismatch => cases h
    | unexpected found' expected' context' =>
      obtain ⟨hf, rfl, rfl⟩ := unexpected.inj h
      exact congrArg (unexpected · expected context) (Token.unplaced_eq_iff.1 hf).eq_moveTo

end SyntaxFault

def ParseFault.unplaced : ParseFault → ParseFault
  | refused fault => refused fault.unplaced
  | numeral fault => numeral fault
  | state fault => state fault

theorem unplaced_of_leaf {t : Token} {fault : ParseFault}
    (h : (t.leaf : Except ParseFault ParseTree) = .error fault) : fault.unplaced = fault := by
  unfold Token.leaf at h
  split at h
  · cases h
    rfl
  · split at h
    · split at h <;> cases h
      rfl
    · cases h

namespace Cursor

def unplaced (c : Cursor) : Cursor where
  index := c.index
  ahead := c.ahead.map Token.unplaced
  terminator := c.terminator.unplaced
  ahead_kind t ht := by
    obtain ⟨u, hu, rfl⟩ := List.mem_map.1 ht
    exact c.ahead_kind u hu
  terminator_kind := c.terminator_kind

@[simp] theorem current_unplaced (c : Cursor) : c.unplaced.current = c.current.unplaced := by
  obtain ⟨index, ahead, terminator, ha, ht⟩ := c
  cases ahead <;> rfl

@[simp] theorem advance_unplaced (c : Cursor) : c.unplaced.advance = c.advance.unplaced := by
  obtain ⟨index, ahead, terminator, ha, ht⟩ := c
  cases ahead <;> rfl

theorem expect_unplaced (kind : Kind) (c : Cursor) :
    c.unplaced.expect kind =
      ((c.expect kind).map (Prod.map Token.unplaced unplaced)).mapError SyntaxFault.unplaced := by
  unfold expect
  by_cases h : c.current.kind = kind
  · rw [if_pos h, if_pos (by simpa using h)]
    simp [Except.map, Except.mapError]
  · rw [if_neg h, if_neg (by simpa using h)]
    simp [Except.map, Except.mapError, SyntaxFault.unplaced, SyntaxFault.moveTo, Token.unplaced]

end Cursor

/-! ### The stack machine -/

namespace Application

def State.unplaced (s : State) : State := { s with cursor := s.cursor.unplaced }

def unplacedResult (r : Result) : Result := (r.1.mapError ParseFault.unplaced, r.2.unplaced)

/-- What a step leads to, without positions. -/
def unplacedStep : State ⊕ Result → State ⊕ Result := Sum.map State.unplaced unplacedResult

theorem deliver_unplaced (s : State) (t : ParseTree) (c : Cursor) :
    s.unplaced.deliver t c.unplaced = unplacedStep (s.deliver t c) := by
  obtain ⟨top, below, cursor⟩ := s
  cases below <;> rfl

theorem finish_unplaced (s : State) (t : ParseTree) :
    s.unplaced.finish t = unplacedStep (s.finish t) := by
  unfold State.finish
  by_cases hc : s.top.closes
  · rw [if_pos hc, if_pos (show s.unplaced.top.closes from hc)]
    rw [show s.unplaced.cursor = s.cursor.unplaced from rfl, Cursor.expect_unplaced]
    cases s.cursor.expect .rightParen with
    | ok r => exact deliver_unplaced s t r.2
    | error fault => rfl
  · rw [if_neg hc, if_neg (show ¬ s.unplaced.top.closes from hc)]
    exact deliver_unplaced s t s.cursor

theorem addLeaf_unplaced (s : State) : s.unplaced.addLeaf = unplacedStep s.addLeaf := by
  unfold State.addLeaf
  simp only [State.unplaced, Cursor.current_unplaced, Token.leaf_unplaced, Cursor.advance_unplaced]
  cases hl : (s.cursor.current.leaf : Except ParseFault ParseTree) with
  | ok t => rfl
  | error fault =>
    show Sum.inr (Except.error fault, _) = Sum.inr (Except.error fault.unplaced, _)
    rw [unplaced_of_leaf hl]

theorem readIdentifier_unplaced (s : State) :
    s.unplaced.readIdentifier = unplacedStep s.readIdentifier := by
  unfold State.readIdentifier
  rw [show s.unplaced.cursor = s.cursor.unplaced from rfl, Cursor.expect_unplaced]
  cases s.cursor.expect .identifier with
  | ok r => exact addLeaf_unplaced s
  | error fault => rfl

theorem openBody_unplaced (closes : Bool) (c : Cursor) :
    openBody closes c.unplaced =
      ((openBody closes c).map (Prod.map id Cursor.unplaced)).mapError ParseFault.unplaced := by
  unfold openBody
  simp only [Cursor.current_unplaced, Token.kind_unplaced, Cursor.advance_unplaced]
  cases Form.ofLeader? c.current.kind with
  | some form => rfl
  | none =>
    by_cases hk : c.current.kind ∈ Grammar.expressionFirst
    · rw [if_pos hk, if_pos hk]
      rfl
    · rw [if_neg hk, if_neg hk]
      rfl

theorem readExpression_unplaced (s : State) :
    s.unplaced.readExpression = unplacedStep s.readExpression := by
  unfold State.readExpression
  simp only [State.unplaced, Cursor.current_unplaced, Token.kind_unplaced, Cursor.advance_unplaced]
  split
  · exact addLeaf_unplaced s
  · exact addLeaf_unplaced s
  · rw [openBody_unplaced]
    cases openBody true s.cursor.advance <;> rfl
  · rfl

/-- A step does not look at positions. -/
theorem step_unplaced (s : State) : s.unplaced.step = unplacedStep s.step := by
  unfold State.step
  simp only [State.unplaced, Cursor.current_unplaced, Token.kind_unplaced]
  split
  · exact finish_unplaced s _
  · rfl
  · split
    · exact readIdentifier_unplaced s
    · exact readExpression_unplaced s
    · rfl

theorem run_unplaced (s : State) : s.unplaced.run = unplacedResult s.run := by
  cases hs : s.step with
  | inl s' =>
    have hs' : s.unplaced.step = .inl s'.unplaced := by rw [step_unplaced, hs]; rfl
    rw [run_of_step_eq_inl hs, run_of_step_eq_inl hs']
    exact run_unplaced s'
  | inr result =>
    have hs' : s.unplaced.step = .inr (unplacedResult result) := by rw [step_unplaced, hs]; rfl
    rw [run_of_step_eq_inr hs, run_of_step_eq_inr hs']
termination_by s.measure
decreasing_by exact measure_step hs

theorem application_unplaced (c : Cursor) :
    application c.unplaced = unplacedResult (application c) :=
  run_unplaced ⟨{ shape := .application, closes := false }, [], c⟩

end Application

/-! ### Derivations -/

namespace Derivation

def Event.unplaced (e : Event) : Event := { e with lookahead := e.lookahead.unplaced }

/-- The text of an event names a token without its position. -/
theorem Event.text_unplaced (e : Event) : e.unplaced.text = e.text := rfl

def State.unplaced (s : State) : State :=
  { s with cursor := s.cursor.unplaced, trace := s.trace.map Event.unplaced }

def Outcome.unplaced (o : Outcome) : Outcome where
  result := o.result.mapError ParseFault.unplaced
  cursor := o.cursor.unplaced
  trace := o.trace.map Event.unplaced

/-- What a step leads to, without positions. -/
def unplacedStep : State ⊕ Outcome → State ⊕ Outcome := Sum.map State.unplaced Outcome.unplaced

theorem close_unplaced (s : State) : s.unplaced.close = unplacedStep s.close := by
  unfold State.close
  simp only [State.unplaced]
  split <;> rfl

theorem matchKind_unplaced (s : State) (kind : Kind) :
    s.unplaced.matchKind kind = unplacedStep (s.matchKind kind) := by
  unfold State.matchKind
  rw [show s.unplaced.cursor = s.cursor.unplaced from rfl, Cursor.expect_unplaced]
  cases s.cursor.expect kind with
  | error fault => rfl
  | ok r =>
    obtain ⟨token, c⟩ := r
    show (if kind.carriesLexeme then _ else _) = unplacedStep (if kind.carriesLexeme then _ else _)
    by_cases hk : kind.carriesLexeme
    · rw [if_pos hk, if_pos hk, Token.leaf_unplaced]
      cases hl : (token.leaf : Except ParseFault ParseTree) with
      | ok t => rfl
      | error fault =>
        simp [unplacedStep, State.stop, Outcome.unplaced, Except.mapError, unplaced_of_leaf hl,
          State.unplaced]
    · rw [if_neg hk, if_neg hk]
      rfl

theorem expand_unplaced (table : Table) (s : State) (nt : Nonterminal) :
    s.unplaced.expand table nt = unplacedStep (s.expand table nt) := by
  unfold State.expand
  simp only [State.unplaced, Cursor.current_unplaced, Token.kind_unplaced]
  cases table.lookup nt s.cursor.current.kind with
  | none => rfl
  | some p =>
    by_cases hv : p.variadic
    · simp only [if_pos hv]
      rw [Application.application_unplaced]
      obtain ⟨result, c⟩ := Application.application s.cursor
      cases result <;> rfl
    · simp only [if_neg hv]
      rfl

theorem apply_unplaced (s : State) (form : Form) :
    s.unplaced.apply form = unplacedStep (s.apply form) := by
  unfold State.apply
  simp only [State.unplaced]
  cases form.reduce s.values with
  | error fault => rfl
  | ok values =>
    simp only [State.record, Cursor.current_unplaced]
    rfl

/-- A step in any table does not look at positions. -/
theorem step_unplaced (table : Table) (s : State) :
    s.unplaced.step table = unplacedStep (s.step table) := by
  unfold State.step
  rw [show s.unplaced.control = s.control from rfl]
  cases s.control.pop? with
  | none => exact close_unplaced s
  | some top =>
    obtain ⟨symbol, control⟩ := top
    cases symbol with
    | terminal kind => exact matchKind_unplaced { s with control } kind
    | nonterminal nt => exact expand_unplaced table { s with control } nt
    | action form => exact apply_unplaced { s with control } form
    | stray word => rfl

theorem run_unplaced (table : Table) (limit : Nat) (s : State) :
    run table limit s.unplaced = (run table limit s).map Outcome.unplaced := by
  induction limit generalizing s with
  | zero => rfl
  | succ limit ih =>
    rw [run, run, step_unplaced]
    cases s.step table with
    | inl s' => exact ih s'
    | inr o => rfl

end Derivation

/-! ### Lists with the same kinds and lexemes -/

variable {tokens tokens' : List Token}

theorem map_unplaced_eq_of_alike (h : Forall₂ Token.Alike tokens tokens') :
    tokens.map Token.unplaced = tokens'.map Token.unplaced := by
  rw [← List.forall₂_eq_eq_eq, List.forall₂_map_left_iff, List.forall₂_map_right_iff]
  exact h.imp fun _ _ => Token.unplaced_eq_iff.2

theorem word_map_unplaced (tokens : List Token) :
    word (tokens.map Token.unplaced) = (word tokens).map Token.unplaced := List.takeWhile_map

theorem Terminated.map_unplaced (h : Terminated tokens) :
    Terminated (tokens.map Token.unplaced) := by
  obtain ⟨last, hl, hk⟩ := h
  exact ⟨last.unplaced, by rw [List.getLast?_map, hl]; rfl, hk⟩

/-- Reading begins in the same way with and without positions. -/
theorem Cursor.ofTokens?_map_unplaced {c : Cursor} (h : ofTokens? tokens = some c) :
    ofTokens? (tokens.map Token.unplaced) = some c.unplaced := by
  obtain ⟨hi, ha, rest, hw⟩ := begins_of_ofTokens? h
  obtain ⟨c', hc', hi', ha', rest', hw'⟩ :=
    (terminated_of_ofTokens? h).map_unplaced.exists_cursor
  rw [word_map_unplaced] at ha' hw'
  have hs : (word tokens).map Token.unplaced ++ c.unplaced.terminator :: rest.map Token.unplaced =
      (word tokens).map Token.unplaced ++ c'.terminator :: rest' := by
    rw [← hw']
    conv_rhs => rw [hw]
    rw [List.map_append]
    rfl
  have he : c' = c.unplaced := Cursor.ext (hi'.trans hi.symm) (ha'.trans (congrArg _ ha.symm))
    (List.cons.inj (List.append_cancel_left hs)).1.symm
  rw [hc', he]

/-- The two lists are read from equal positions, if tokens are taken without theirs. -/
theorem exists_cursors_of_alike (h : Terminated tokens) (ha : Forall₂ Token.Alike tokens tokens') :
    ∃ c c', Cursor.ofTokens? tokens = some c ∧ Cursor.ofTokens? tokens' = some c' ∧
      c.unplaced = c'.unplaced := by
  have hm := map_unplaced_eq_of_alike ha
  have h' : Terminated tokens' := by
    obtain ⟨last, hl, hk⟩ := h.map_unplaced
    rw [hm, List.getLast?_map] at hl
    obtain ⟨last', hl', rfl⟩ := Option.map_eq_some_iff.1 hl
    exact ⟨last', hl', hk⟩
  obtain ⟨c, hc, -⟩ := h.exists_cursor
  obtain ⟨c', hc', -⟩ := h'.exists_cursor
  refine ⟨c, c', hc, hc', Option.some.inj ?_⟩
  rw [← Cursor.ofTokens?_map_unplaced hc, ← Cursor.ofTokens?_map_unplaced hc', hm]

/-! ### Runs that differ in positions only -/

/-- The second fault is the first one with another position of its token. Its report says the same,
except where it names the position. -/
structure SyntaxFault.Moved (f f' : SyntaxFault) : Prop where
  eq_moveTo : f' = f.moveTo f'.token.position
  report_eq : f'.report =
    { f.report with
      message := f'.message
      line := f'.token.position.line
      column := f'.token.position.column
      token := some f'.token }

theorem SyntaxFault.moved_of_unplaced_eq {f f' : SyntaxFault} (h : f.unplaced = f'.unplaced) :
    f.Moved f' := by
  have hf := eq_moveTo_of_unplaced_eq h
  refine ⟨hf, ?_⟩
  rw [hf]
  cases f <;> rfl

namespace Derivation

/-- What two runs end in that stop at the tokens with the given index in their lists: the same, or
refusals of these two tokens that differ in positions only. -/
inductive SameResult (tokens tokens' : List Token) (index : Nat) :
    Except ParseFault ParseTree → Except ParseFault ParseTree → Prop
  | ok (t : ParseTree) : SameResult tokens tokens' index (.ok t) (.ok t)
  | refused {f f' : SyntaxFault} (token : tokens[index]? = some f.token)
      (token' : tokens'[index]? = some f'.token) (moved : f.Moved f') :
      SameResult tokens tokens' index (.error (.refused f)) (.error (.refused f'))
  | numeral (fault : Numeral.Fault) :
      SameResult tokens tokens' index (.error (.numeral fault)) (.error (.numeral fault))
  | state (fault : StateFault) :
      SameResult tokens tokens' index (.error (.state fault)) (.error (.state fault))

/-- The ends of two runs over these lists do not differ but in positions. -/
structure SameRun (tokens tokens' : List Token) (o o' : Outcome) : Prop where
  index : o'.cursor.index = o.cursor.index
  result : SameResult tokens tokens' o.cursor.index o.result o'.result
  texts : o'.events.map Event.text = o.events.map Event.text

theorem Outcome.texts_unplaced (o : Outcome) :
    o.unplaced.events.map Event.text = o.events.map Event.text := by
  rw [events, unplaced, ← List.map_reverse, List.map_map]
  exact List.map_congr_left fun e _ => e.text_unplaced

theorem sameRun_of_unplaced_eq {c c' : Cursor} {o o' : Outcome}
    (hc : Cursor.ofTokens? tokens = some c) (hc' : Cursor.ofTokens? tokens' = some c')
    (hs : StopsAt c o.result o.cursor) (hs' : StopsAt c' o'.result o'.cursor)
    (h : o.unplaced = o'.unplaced) : SameRun tokens tokens' o o' := by
  have hi : o'.cursor.index = o.cursor.index := congrArg (·.cursor.index) h.symm
  have hr : o.result.mapError ParseFault.unplaced = o'.result.mapError ParseFault.unplaced :=
    congrArg Outcome.result h
  refine ⟨hi, ?_, by rw [← o.texts_unplaced, ← o'.texts_unplaced, h]⟩
  have ht := hs.reaches.getElem?_index hc
  have ht' := hs'.reaches.getElem?_index hc'
  rw [hi] at ht'
  have hf := hs.token_eq
  have hf' := hs'.token_eq
  generalize o.result = r at hr hf
  generalize o'.result = r' at hr hf'
  cases r with
  | ok t =>
    cases r' with
    | ok t' =>
      cases hr
      exact .ok t
    | error fault' => cases hr
  | error fault =>
    cases r' with
    | ok t' => cases hr
    | error fault' =>
      have he : fault.unplaced = fault'.unplaced := Except.error.inj hr
      cases fault with
      | refused f =>
        cases fault' with
        | refused f' =>
          have hm := SyntaxFault.moved_of_unplaced_eq (ParseFault.refused.inj he)
          exact .refused (by rw [hf f rfl, ht]) (by rw [hf' f' rfl, ht']) hm
        | numeral fault' => cases he
        | state fault' => cases he
      | numeral fault => cases fault' <;> cases he; exact .numeral _
      | state fault => cases fault' <;> cases he; exact .state _

/-- Runs that begin in the same way without positions stop together. -/
theorem run_alike {c c' : Cursor} (hc : Cursor.ofTokens? tokens = some c)
    (hc' : Cursor.ofTokens? tokens' = some c') (h : c.unplaced = c'.unplaced) (table : Table)
    (limit : Nat) :
    Option.Rel (SameRun tokens tokens') (run table limit (start c)) (run table limit (start c')) := by
  have hs : (run table limit (start c)).map Outcome.unplaced =
      (run table limit (start c')).map Outcome.unplaced := by
    rw [← run_unplaced, ← run_unplaced]
    show run table limit (start c.unplaced) = run table limit (start c'.unplaced)
    rw [h]
  cases hr : run table limit (start c) with
  | none =>
    rw [hr, Option.map_none] at hs
    rw [Option.map_eq_none_iff.1 hs.symm]
    exact .none
  | some o =>
    rw [hr, Option.map_some] at hs
    obtain ⟨o', hr', ho⟩ := Option.map_eq_some_iff.1 hs.symm
    rw [hr']
    exact .some (sameRun_of_unplaced_eq hc hc' (stopsAt_of_run hr) (stopsAt_of_run hr') ho.symm)

theorem parseStandard_unplaced (c : Cursor) :
    parseStandard c.unplaced = (parseStandard c).unplaced := by
  obtain ⟨limit, h⟩ := exists_run_standard (start c)
  have hu : run Grammar.standard limit (start c).unplaced = some (parseStandard c).unplaced := by
    rw [run_unplaced, h]
    rfl
  exact runStandard_eq_of_run hu

theorem parseStandard_alike {c c' : Cursor} (hc : Cursor.ofTokens? tokens = some c)
    (hc' : Cursor.ofTokens? tokens' = some c') (h : c.unplaced = c'.unplaced) :
    SameRun tokens tokens' (parseStandard c) (parseStandard c') := by
  obtain ⟨limit, hr⟩ := exists_run_standard (start c)
  obtain ⟨limit', hr'⟩ := exists_run_standard (start c')
  refine sameRun_of_unplaced_eq hc hc' (stopsAt_of_run hr) (stopsAt_of_run hr') ?_
  exact (parseStandard_unplaced c).symm.trans (h ▸ parseStandard_unplaced c')

end Derivation

theorem read_ok_iff_of_alike {source source' : String} (hs : scan source = .ok tokens)
    (hs' : scan source' = .ok tokens') (ha : Forall₂ Token.Alike tokens tokens') (t : ParseTree) :
    (read source).result = .ok t ↔ (read source').result = .ok t := by
  obtain ⟨c, hc, -, hr⟩ := read_of_scan_ok hs
  obtain ⟨c', hc', -, hr'⟩ := read_of_scan_ok hs'
  obtain ⟨d, d', hd, hd', h⟩ := exists_cursors_of_alike (terminated_of_scan hs) ha
  cases hc.symm.trans hd
  cases hc'.symm.trans hd'
  have hu : (Derivation.parseStandard c).unplaced = (Derivation.parseStandard c').unplaced := by
    rw [← Derivation.parseStandard_unplaced, ← Derivation.parseStandard_unplaced, h]
  have hm : (Derivation.parseStandard c).result.mapError ParseFault.unplaced =
      (Derivation.parseStandard c').result.mapError ParseFault.unplaced :=
    congrArg Derivation.Outcome.result hu
  rw [hr, hr', mapError_eq_ok_iff, mapError_eq_ok_iff,
    ← mapError_eq_ok_iff (f := ParseFault.unplaced), hm, mapError_eq_ok_iff]

/-- Two token lists with the same kinds and lexemes are parsed alike by every table: within any
number of steps both runs stop or none does, and their ends differ in positions only. So texts with
such tokens are read as the same tree. -/
theorem runs_alike :
    (∀ {tokens tokens' : List Token}, Terminated tokens → Forall₂ Token.Alike tokens tokens' →
      ∃ c c', Cursor.ofTokens? tokens = some c ∧ Cursor.ofTokens? tokens' = some c' ∧
        ∀ table limit, Option.Rel (Derivation.SameRun tokens tokens')
          (Derivation.run table limit (Derivation.start c))
          (Derivation.run table limit (Derivation.start c'))) ∧
    ∀ {source source' : String} {tokens tokens' : List Token}, scan source = .ok tokens →
      scan source' = .ok tokens' → Forall₂ Token.Alike tokens tokens' →
      ∀ t, (read source).result = .ok t ↔ (read source').result = .ok t := by
  constructor
  · intro tokens tokens' h ha
    obtain ⟨c, c', hc, hc', hu⟩ := exists_cursors_of_alike h ha
    exact ⟨c, c', hc, hc', Derivation.run_alike hc hc' hu⟩
  · intro source source' tokens tokens' hs hs' ha
    exact read_ok_iff_of_alike hs hs' ha

/-- The tokens of an application of `f` to `x`. -/
def applied (x right last : Position) : List Token :=
  [.bare .leftParen .start rfl, .identifier "f" (Position.start.after '('), .identifier "x" x,
    .bare .rightParen right rfl, .endOfInput last]

/-- The application on one line, and on two. -/
theorem runs_alike_applied : ∃ tokens tokens',
    scan "(f x)" = .ok tokens ∧ scan "(f\nx)" = .ok tokens' ∧ tokens ≠ tokens' ∧
    (∀ t, (read "(f x)").result = .ok t ↔ (read "(f\nx)").result = .ok t) ∧
    ∃ c c', Cursor.ofTokens? tokens = some c ∧ Cursor.ofTokens? tokens' = some c' ∧
      ∀ table limit, Option.Rel (Derivation.SameRun tokens tokens')
        (Derivation.run table limit (Derivation.start c))
        (Derivation.run table limit (Derivation.start c')) := by
  have hf : IsName ['f'] := .mk rfl nofun
  have hx : IsName ['x'] := .mk rfl nofun
  have hl : Kind.leftParen.glyph = some '(' := rfl
  have hr : Kind.rightParen.glyph = some ')' := rfl
  let f := (Position.start.after '(').after 'f'
  let x := f.after ' '
  have h : scan "(f x)" = .ok (applied x (x.after 'x') ((x.after 'x').after ')')) :=
    Scan.scan_eq_iff.2 <| .glyph hl <| .identifier hf (detached_cons rfl ['x', ')']) <|
      .gap rfl <| .identifier hx (detached_cons rfl []) <| .glyph hr (.nil _)
  let x' := f.after '\n'
  have h' : scan "(f\nx)" = .ok (applied x' (x'.after 'x') ((x'.after 'x').after ')')) :=
    Scan.scan_eq_iff.2 <| .glyph hl <| .identifier hf (detached_cons rfl ['x', ')']) <|
      .gap rfl <| .identifier hx (detached_cons rfl []) <| .glyph hr (.nil _)
  have ha : Forall₂ Token.Alike (applied x (x.after 'x') ((x.after 'x').after ')'))
      (applied x' (x'.after 'x') ((x'.after 'x').after ')')) := by
    repeat' constructor
  exact ⟨_, _, h, h', by decide, runs_alike.2 h h' ha, runs_alike.1 (terminated_of_scan h) ha⟩

end LispReader
