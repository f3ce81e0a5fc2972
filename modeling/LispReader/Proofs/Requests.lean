import LispReader.Report
import LispReader.Request
import LispReader.Proofs.Descent.Machine
import LispReader.Proofs.Reach

/-! Any requests, in any order.

A request moves the position only forwards, and never past the first end of input. Where it is
refused, the token at the position is the one that is reported, and no token of its kind would have
been accepted; where a number cannot be converted, it is the token just passed; and nothing else can
go wrong (`Safe`). Which number it is is found by following the steps of the machine, and what its
other faults mean is known from the reading by recursive descent. A failed request leaves a position
like any other, so it is the same behind every sequence of requests: `requests_safe`. -/
namespace LispReader

/-! ### Unreadable numbers -/

namespace Application
open Descent

variable {s : State} {c : Cursor} {fault : Numeral.Fault}

theorem unreadable_of_addLeaf (hk : s.cursor.current.kind = .number ∨
      s.cursor.current.kind = .identifier)
    (h : s.addLeaf = .inr (.error (.numeral fault), c)) :
    Unreadable s.cursor.current fault ∧ c = s.cursor.advance := by
  unfold State.addLeaf at h
  rcases leaf_cases hk with ⟨t, ht, -⟩ | ⟨f, hf, hu⟩
  · rw [ht] at h
    cases h
  · rw [hf] at h
    cases h
    exact ⟨hu, rfl⟩

theorem finish_ne_numeral (t : ParseTree) : s.finish t ≠ .inr (.error (.numeral fault), c) := by
  intro h
  unfold State.finish State.deliver at h
  split at h
  · split at h
    · split at h <;> cases h
    · cases h
  · split at h <;> cases h

theorem openBody_ne_numeral (closes : Bool) (c : Cursor) :
    openBody closes c ≠ .error (.numeral fault) := by
  intro h
  unfold openBody at h
  split at h
  · cases h
  · split at h <;> cases h

/-- Only the number at the position can be unreadable, and it is passed. -/
theorem unreadable_of_step (h : s.step = .inr (.error (.numeral fault), c)) :
    Unreadable s.cursor.current fault ∧ c = s.cursor.advance := by
  unfold State.step at h
  split at h
  · exact absurd h (finish_ne_numeral _)
  · cases h
  · split at h
    · unfold State.readIdentifier Cursor.expect at h
      by_cases hk : s.cursor.current.kind = .identifier
      · rw [if_pos hk] at h
        exact unreadable_of_addLeaf (.inr hk) h
      · rw [if_neg hk] at h
        cases h
    · unfold State.readExpression at h
      split at h
      · next hk => exact unreadable_of_addLeaf (.inl hk) h
      · next hk => exact unreadable_of_addLeaf (.inr hk) h
      · split at h
        · cases h
        · next ho =>
          cases h
          exact absurd ho (openBody_ne_numeral true _)
      · cases h
    · cases h

theorem exists_unreadable_of_run (s : State) (h : s.run.1 = .error (.numeral fault)) :
    ∃ c, Reaches s.cursor c ∧ Unreadable c.current fault ∧ s.run.2 = c.advance := by
  have hr := stepsFrom_step s
  cases hs : s.step with
  | inl s' =>
    rw [hs] at hr
    rw [run_of_step_eq_inl hs] at h ⊢
    obtain ⟨c, hc, hu⟩ := exists_unreadable_of_run s' h
    exact ⟨c, hr.trans hc, hu⟩
  | inr result =>
    obtain ⟨r, c⟩ := result
    rw [run_of_step_eq_inr hs] at h ⊢
    cases h
    exact ⟨s.cursor, .refl _, unreadable_of_step hs⟩
termination_by s.measure
decreasing_by exact measure_step hs

end Application

namespace Request
open Descent Application

/-! ### One request -/

/-- The position is one of the list, and the last one is the first end of input. -/
structure Inside (tokens : List Token) (c : Cursor) : Prop where
  index_le : c.index ≤ (word tokens).length
  current : tokens[c.index]? = some c.current
  atEnd_iff : c.atEnd = true ↔ c.index = (word tokens).length

/-- The report names the token, whose kind is not among those expected. -/
structure Refuses (report : SyntaxReport) (refused : Token) : Prop where
  token : report.token = some refused
  found : report.found = refused.kind
  line : report.line = refused.position.line
  column : report.column = refused.position.column
  unexpected : report.found ∉ report.expected

/-- The position moves forwards within the list. -/
structure Moves (tokens : List Token) (c c' : Cursor) : Prop where
  reaches : Reaches c c'
  index_le : c.index ≤ c'.index
  /-- No position leaves the list, neither the last one nor one on the way to it. -/
  inside : ∀ d, Reaches c d → Inside tokens d

/-- What is known of every service of a request from a position in the list. -/
structure Safe (tokens : List Token) (c : Cursor) (served : Served) : Prop
    extends Moves tokens c served.2 where
  no_state : ∀ fault, served.1 ≠ .error (.state fault)
  refuses : ∀ fault, served.1 = .error (.refused fault) → Refuses fault.report served.2.current
  /-- The number that denotes no integer is the token just passed. -/
  unreadable : ∀ fault, served.1 = .error (.numeral fault) → ∃ index token,
    served.2.index = index + 1 ∧ tokens[index]? = some token ∧ Unreadable token fault

variable {tokens : List Token} {c₀ c : Cursor}

theorem inside_of_reaches (hc : Cursor.ofTokens? tokens = some c₀) (h : Reaches c₀ c) :
    Inside tokens c where
  index_le := h.index_le_length hc
  current := h.getElem?_index hc
  atEnd_iff := by
    rw [Cursor.atEnd_eq_isEmpty, List.isEmpty_iff, ← List.length_eq_zero_iff,
      ← h.index_add_length hc]
    omega

theorem refuses_of_not_mem {fault : SyntaxFault} {token : Token} (ht : fault.token = token)
    (h : token.kind ∉ fault.expected) : Refuses fault.report token := by
  subst ht
  exact ⟨rfl, rfl, rfl, rfl, h⟩

/-- A need that is not satisfied does not expect the token. -/
theorem not_mem_expected {need : Need} {token : Token} (h : ¬ need.Accepts token.kind) :
    token.kind ∉ (need.fault token).expected := by
  by_cases hn : need = .item
  · subst hn
    intro hm
    exact h (.inl (List.mem_singleton.1 hm))
  · rwa [Need.mem_expected_fault hn]

theorem moves_of_reaches (hc : Cursor.ofTokens? tokens = some c₀) (h : Reaches c₀ c) {c' : Cursor}
    (hr : Reaches c c') : Moves tokens c c' where
  reaches := hr
  index_le := hr.index_le
  inside _ hd := inside_of_reaches hc (h.trans hd)

theorem safe_of_ok (hc : Cursor.ofTokens? tokens = some c₀) (h : Reaches c₀ c) {c' : Cursor}
    (hr : Reaches c c') (v : Value) : Safe tokens c (.ok v, c') where
  toMoves := moves_of_reaches hc h hr
  no_state := nofun
  refuses := nofun
  unreadable := nofun

theorem safe_of_refused (hc : Cursor.ofTokens? tokens = some c₀) (h : Reaches c₀ c) {c' : Cursor}
    (hr : Reaches c c') {fault : SyntaxFault} (hf : Refuses fault.report c'.current) :
    Safe tokens c (.error (.refused fault), c') where
  toMoves := moves_of_reaches hc h hr
  no_state := nofun
  refuses _ he := by
    cases he
    exact hf
  unreadable := nofun

/-- A number that has been passed from the second position. -/
theorem safe_of_unreadable (hc : Cursor.ofTokens? tokens = some c₀) (h : Reaches c₀ c)
    {c₁ : Cursor} (hr : Reaches c c₁) {fault : Numeral.Fault} (hu : Unreadable c₁.current fault) :
    Safe tokens c (.error (.numeral fault), c₁.advance) where
  toMoves := moves_of_reaches hc h (hr.trans (.advance c₁))
  no_state := nofun
  refuses := nofun
  unreadable _ he := by
    cases he
    have hp := Passes.advance (c := c₁) (by rw [hu.1]; decide)
    exact ⟨c₁.index, c₁.current, hp.index, (h.trans hr).getElem?_index hc, hu⟩

theorem safe_expect (hc : Cursor.ofTokens? tokens = some c₀) (h : Reaches c₀ c) (kind : Kind) :
    Safe tokens c (serve c (.expect kind)) := by
  by_cases hk : c.current.kind = kind
  · have hs : serve c (.expect kind) = (.ok (.token c.current), c.advance) := by
      simp only [serve, Cursor.expect, if_pos hk]
    rw [hs]
    exact safe_of_ok hc h (.advance c) _
  · have hs : serve c (.expect kind) = (.error (.refused (.mismatch kind c.current)), c) := by
      simp only [serve, Cursor.expect, if_neg hk]
    rw [hs]
    exact safe_of_refused hc h (.refl c)
      (refuses_of_not_mem rfl fun hm => hk (List.mem_singleton.1 hm))

/-- A result of the stack machine whose faults are accounted for. -/
structure Accounted (c : Cursor) (result : Result) : Prop where
  reaches : Reaches c result.2
  stopped : ∀ fault, result.1 = .error fault → ∃ begun, Stopped begun c fault result.2
  unreadable : ∀ fault, result.1 = .error (.numeral fault) →
    ∃ c', Reaches c c' ∧ Unreadable c'.current fault ∧ result.2 = c'.advance

theorem safe_ofResult (hc : Cursor.ofTokens? tokens = some c₀) (h : Reaches c₀ c)
    {result : Result} (ha : Accounted c result) : Safe tokens c (ofResult result) := by
  obtain ⟨r, c'⟩ := result
  cases r with
  | ok t => exact safe_of_ok hc h ha.reaches _
  | error fault =>
    obtain ⟨begun, hs⟩ := ha.stopped fault rfl
    cases fault with
    | state fault => exact hs.elim
    | refused fault =>
      -- What was needed is what the report expects, and the token does not satisfy it.
      obtain ⟨p, need, -, -, hf, hn⟩ := hs
      obtain rfl : fault = need.fault c'.current := hf
      exact safe_of_refused hc h ha.reaches
        (refuses_of_not_mem (need.token_fault _) (not_mem_expected hn))
    | numeral fault =>
      obtain ⟨c₁, hr, hu, hc₁⟩ := ha.unreadable fault rfl
      obtain rfl : c' = c₁.advance := hc₁
      exact safe_of_unreadable hc h hr hu

/-- The reply of a function that reads by recursive descent accounts for its faults. -/
theorem exists_stopped_of_elim {begun : List Token → Need → Prop} {c' : Cursor}
    {x : Reply ParseTree c'} {found : ParseTree → Cursor → Prop}
    (h : x.elim found (Stopped begun c)) (fault : ParseFault)
    (he : x.result.1 = .error fault) : ∃ begun, Stopped begun c fault x.result.2 := by
  cases x with
  | ok r => cases he
  | error stop =>
    cases he
    exact ⟨begun, h⟩

theorem accounted_application (c : Cursor) : Accounted c (Application.application c) where
  reaches := (stopsAt_application c).reaches
  stopped := by
    rw [application_eq]
    exact exists_stopped_of_elim (sound.2.2.1 c)
  unreadable _ he := exists_unreadable_of_run _ he

theorem accounted_oneExpression (c : Cursor) : Accounted c (Application.oneExpression c) where
  reaches := (stopsAt_run ⟨{ shape := .single, closes := false }, [], c⟩).reaches
  stopped := by
    rw [oneExpression_eq]
    exact exists_stopped_of_elim (sound.1 c)
  unreadable _ he := exists_unreadable_of_run _ he

theorem accounted_parenBody (c : Cursor) : Accounted c (Application.parenBody c) where
  reaches := by
    unfold Application.parenBody
    split
    · next ho => exact (reaches_of_openBody ho).trans (stopsAt_run ⟨_, [], _⟩).reaches
    · exact .refl c
  stopped := by
    rw [parenBody_eq]
    exact exists_stopped_of_elim (sound.2.1 c)
  unreadable fault he := by
    unfold Application.parenBody at he ⊢
    split at he
    · next ho =>
      obtain ⟨c', hr, hu⟩ := exists_unreadable_of_run _ he
      exact ⟨c', (reaches_of_openBody ho).trans hr, hu⟩
    · next ho =>
      cases he
      exact absurd ho (openBody_ne_numeral false c)

theorem serve_safe (hc : Cursor.ofTokens? tokens = some c₀) (h : Reaches c₀ c)
    (request : Request) : Safe tokens c (serve c request) := by
  cases request with
  | advance => exact safe_of_ok hc h (.advance c) _
  | expect kind => exact safe_expect hc h kind
  | application => exact safe_ofResult hc h (accounted_application c)
  | oneExpression => exact safe_ofResult hc h (accounted_oneExpression c)
  | parenBody => exact safe_ofResult hc h (accounted_parenBody c)

/-! ### Sequences of requests -/

theorem reaches_serveAll (hc : Cursor.ofTokens? tokens = some c₀) (h : Reaches c₀ c)
    (requests : List Request) : Reaches c₀ (serveAll c requests) := by
  induction requests generalizing c with
  | nil => exact h
  | cons request requests ih => exact ih (h.trans (serve_safe hc h request).reaches)

/-- Behind any requests, whether they failed or not, any further one is served safely. -/
theorem requests_safe (h : Terminated tokens) :
    ∃ c, Cursor.ofTokens? tokens = some c ∧ ∀ requests request,
      Safe tokens (serveAll c requests) (serve (serveAll c requests) request) := by
  obtain ⟨c, hc, -⟩ := h.exists_cursor
  refine ⟨c, hc, fun requests request => ?_⟩
  exact serve_safe hc (reaches_serveAll hc (.refl c) requests) request

/-- The tokens of `(+ x`, with further ones behind their end of input. -/
def interrupted : List Token :=
  [Kind.leftParen, .plus, .identifier, .endOfInput, .rightParen, .endOfInput].map .sample

/-- Neither a refused request nor too many of them lead past the first end of input. -/
theorem requests_safe_interrupted : Terminated interrupted ∧
    ∃ c c', Cursor.ofTokens? interrupted = some c ∧
      serveAll c [.expect .rightParen, .advance, .advance, .advance, .advance] = c' ∧
      c'.index = 3 ∧ Safe interrupted c' (serve c' (.expect .rightParen)) ∧
      (serve c' (.expect .rightParen)).1 =
        .error (.refused (.mismatch .rightParen (.sample .endOfInput))) := by
  have h : Terminated interrupted := ⟨_, rfl, rfl⟩
  obtain ⟨c, hc, hs⟩ := requests_safe h
  refine ⟨h, c, _, hc, rfl, ?_, hs _ _, ?_⟩
  · cases hc
    rfl
  · cases hc
    rfl

end Request

end LispReader
