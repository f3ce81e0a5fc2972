import LispReader.Proofs.Steps
import LispReader.Proofs.WellTyped

/-! Where runs stop.

The stack machine and the derivations move their position past one token after the other and never
back. So the position at which a run stops lies behind a word that begins at the first position, and
a token that is refused is the one at the position where the run stops. This holds for every table:
`Derivation.stopsAt_of_run`. The end of input lies at the bottom of the control stack, so a run that
gives a tree stops nowhere else than in front of it: `Derivation.atEnd_of_run`. -/
namespace LispReader
open Descent

/-- The second position is the first one or lies behind it. -/
def Reaches (c c' : Cursor) : Prop := ∃ w, Passes c w c'

namespace Reaches

variable {c c' c'' : Cursor}

theorem refl (c : Cursor) : Reaches c c := ⟨[], .refl c⟩

theorem trans (h : Reaches c c') (h' : Reaches c' c'') : Reaches c c'' := by
  obtain ⟨w, hw⟩ := h
  obtain ⟨w', hw'⟩ := h'
  exact ⟨w ++ w', hw.trans hw'⟩

theorem advance (c : Cursor) : Reaches c c.advance := Derivation.exists_passes_advance c

theorem index_le (h : Reaches c c') : c.index ≤ c'.index := by
  obtain ⟨w, hw⟩ := h
  rw [hw.index]
  exact Nat.le_add_right c.index w.length

/-- Behind the end of input there is no further position. -/
theorem atEnd (h : Reaches c c') (hc : c.current.kind = .endOfInput) :
    c'.current.kind = .endOfInput := by
  obtain ⟨w, hw⟩ := h
  have ha : w ++ c'.ahead = [] := by rw [← hw.ahead, ahead_eq_nil hc]
  rw [Cursor.current, (List.append_eq_nil_iff.1 ha).2]
  exact c'.terminator_kind

/-- The tokens passed and those ahead are as many at the second position as at the first one. -/
theorem index_add_length_ahead (h : Reaches c c') :
    c'.index + c'.ahead.length = c.index + c.ahead.length := by
  obtain ⟨w, hw⟩ := h
  rw [hw.index, hw.ahead, List.length_append, Nat.add_assoc]

/-- At every position of a list, the tokens passed and those ahead are as many as its word has. -/
theorem index_add_length {tokens : List Token} (hc : Cursor.ofTokens? tokens = some c)
    (h : Reaches c c') : c'.index + c'.ahead.length = (word tokens).length := by
  obtain ⟨hi, ha, -⟩ := begins_of_ofTokens? hc
  rw [h.index_add_length_ahead, hi, ha, Nat.zero_add]

/-- No position lies behind the first end of input of a list. -/
theorem index_le_length {tokens : List Token} (hc : Cursor.ofTokens? tokens = some c)
    (h : Reaches c c') : c'.index ≤ (word tokens).length := by
  rw [← h.index_add_length hc]
  exact Nat.le_add_right _ _

/-- The first end of input of a list has the index behind its word. -/
theorem index_eq_length {tokens : List Token} (hc : Cursor.ofTokens? tokens = some c)
    (h : Reaches c c') (he : c'.current.kind = .endOfInput) :
    c'.index = (word tokens).length := by
  rw [← h.index_add_length hc, ahead_eq_nil he]
  rfl

/-- The token at a position that is reached has the index of the position. -/
theorem getElem?_index {tokens : List Token} (hc : Cursor.ofTokens? tokens = some c)
    (h : Reaches c c') : tokens[c'.index]? = some c'.current := by
  obtain ⟨hi, ha, rest, ht⟩ := begins_of_ofTokens? hc
  obtain ⟨w, hw⟩ := h
  have hindex : c'.index = w.length := by rw [hw.index, hi, Nat.zero_add]
  rw [ht, ← ha, hw.ahead, hindex, List.append_assoc,
    List.getElem?_append_right (Nat.le_refl _), Nat.sub_self, Cursor.current, ← hw.terminator]
  cases c'.ahead <;> rfl

end Reaches

/-- A run from the first position stops at the second one, and what it refuses is the token there. -/
structure StopsAt (c₀ : Cursor) (result : Except ParseFault ParseTree) (c : Cursor) : Prop where
  reaches : Reaches c₀ c
  token_eq : ∀ fault, result = .error (.refused fault) → fault.token = c.current

namespace StopsAt

variable {c₀ c₁ c : Cursor} {result : Except ParseFault ParseTree}

theorem trans (h : Reaches c₀ c₁) (hs : StopsAt c₁ result c) : StopsAt c₀ result c where
  reaches := h.trans hs.reaches
  token_eq := hs.token_eq

theorem ok (h : Reaches c₀ c) (t : ParseTree) : StopsAt c₀ (.ok t) c where
  reaches := h
  token_eq fault he := by cases he

theorem state (h : Reaches c₀ c) (fault : StateFault) : StopsAt c₀ (.error (.state fault)) c where
  reaches := h
  token_eq fault he := by cases he

theorem refused {fault : SyntaxFault} (h : Reaches c₀ c) (ht : fault.token = c.current) :
    StopsAt c₀ (.error (.refused fault)) c where
  reaches := h
  token_eq fault he := by
    cases he
    exact ht

/-- The value of a token is missing, but the token is not refused. -/
theorem of_leaf {t : Token} {fault : ParseFault} (h : Reaches c₀ c)
    (hl : (t.leaf : Except ParseFault ParseTree) = .error fault) :
    StopsAt c₀ (.error fault) c where
  reaches := h
  token_eq f he := by
    cases he
    unfold Token.leaf at hl
    split at hl
    · cases hl
    · split at hl
      · split at hl <;> cases hl
      · cases hl

end StopsAt

theorem Cursor.token_of_expect {kind : Kind} {c : Cursor} {fault : SyntaxFault}
    (h : c.expect kind = .error fault) : fault.token = c.current := by
  unfold expect at h
  split at h
  · cases h
  · cases h
    rfl

theorem Cursor.reaches_of_expect {kind : Kind} {c c' : Cursor} {t : Token}
    (h : c.expect kind = .ok (t, c')) : Reaches c c' := by
  unfold expect at h
  split at h
  · cases h
    exact .advance c
  · cases h

/-! ### The stack machine -/

namespace Application

/-- A step leads to a position further on, or stops at one. -/
def StepsFrom (c : Cursor) : State ⊕ Result → Prop
  | .inl s => Reaches c s.cursor
  | .inr r => StopsAt c r.1 r.2

theorem stepsFrom_deliver {c c' : Cursor} (h : Reaches c c') (s : State) (t : ParseTree) :
    StepsFrom c (s.deliver t c') := by
  unfold State.deliver
  split
  · exact .ok h t
  · exact h

theorem stepsFrom_finish (s : State) (t : ParseTree) : StepsFrom s.cursor (s.finish t) := by
  unfold State.finish
  split
  · split
    · next he => exact stepsFrom_deliver (Cursor.reaches_of_expect he) s t
    · next he => exact .refused (.refl _) (Cursor.token_of_expect he)
  · exact stepsFrom_deliver (.refl _) s t

theorem stepsFrom_addLeaf (s : State) : StepsFrom s.cursor s.addLeaf := by
  unfold State.addLeaf
  split
  · exact .advance _
  · next he => exact .of_leaf (.advance _) he

theorem stepsFrom_readIdentifier (s : State) : StepsFrom s.cursor s.readIdentifier := by
  unfold State.readIdentifier
  split
  · exact stepsFrom_addLeaf s
  · next he => exact .refused (.refl _) (Cursor.token_of_expect he)

theorem reaches_of_openBody {closes : Bool} {c c' : Cursor} {frame : Frame}
    (h : openBody closes c = .ok (frame, c')) : Reaches c c' := by
  unfold openBody at h
  split at h
  · cases h
    exact .advance c
  · split at h
    · cases h
      exact .refl c
    · cases h

theorem stopsAt_of_openBody {closes : Bool} {c : Cursor} {fault : ParseFault}
    (h : openBody closes c = .error fault) : StopsAt c (.error fault) c := by
  unfold openBody at h
  split at h
  · cases h
  · split at h
    · cases h
    · cases h
      exact .refused (.refl c) rfl

theorem stepsFrom_readExpression (s : State) : StepsFrom s.cursor s.readExpression := by
  unfold State.readExpression
  split
  · exact stepsFrom_addLeaf s
  · exact stepsFrom_addLeaf s
  · split
    · next ho => exact (Reaches.advance _).trans (reaches_of_openBody ho)
    · next ho => exact .trans (.advance _) (stopsAt_of_openBody ho)
  · exact .refused (.refl _) rfl

theorem stepsFrom_step (s : State) : StepsFrom s.cursor s.step := by
  unfold State.step
  split
  · exact stepsFrom_finish s _
  · exact .state (.refl _) _
  · split
    · exact stepsFrom_readIdentifier s
    · exact stepsFrom_readExpression s
    · exact .state (.refl _) _

theorem stopsAt_run (s : State) : StopsAt s.cursor s.run.1 s.run.2 := by
  have h := stepsFrom_step s
  cases hs : s.step with
  | inl s' =>
    rw [hs] at h
    rw [run_of_step_eq_inl hs]
    exact .trans h (stopsAt_run s')
  | inr result =>
    rw [hs] at h
    rw [run_of_step_eq_inr hs]
    exact h
termination_by s.measure
decreasing_by exact measure_step hs

theorem stopsAt_application (c : Cursor) : StopsAt c (application c).1 (application c).2 :=
  stopsAt_run ⟨{ shape := .application, closes := false }, [], c⟩

end Application

/-! ### Derivations -/

namespace Derivation

/-- A step leads to a position further on, or stops at one. -/
def StepsFrom (c : Cursor) : State ⊕ Outcome → Prop
  | .inl s => Reaches c s.cursor
  | .inr o => StopsAt c o.result o.cursor

variable {s : State} {table : Table}

theorem stepsFrom_step (table : Table) (s : State) : StepsFrom s.cursor (s.step table) := by
  have h := stepped table s
  generalize s.step table = r at h
  cases h with
  | closed => exact .ok (.refl _) _
  | valueless | unclosed | unapplied | stray => exact .state (.refl _) _
  | bare | leaf => exact .advance s.cursor
  | unreadable _ _ _ value => exact .of_leaf (.advance _) value
  | mismatched | missed => exact .refused (.refl _) rfl
  | expanded | applied => exact .refl s.cursor
  | delegated _ _ _ read =>
    have ha := Application.stopsAt_application s.cursor
    rw [read] at ha
    exact ha.reaches
  | failed _ _ _ read =>
    have ha := Application.stopsAt_application s.cursor
    rw [read] at ha
    exact ha

/-- A run of any length stops at a position that it reaches, and refuses no token but the one
there. -/
theorem stopsAt_of_run {limit : Nat} {o : Outcome} (h : run table limit s = some o) :
    StopsAt s.cursor o.result o.cursor := by
  induction limit generalizing s with
  | zero => cases h
  | succ limit ih =>
    have hs := stepsFrom_step table s
    rw [run] at h
    cases hx : s.step table with
    | inl s' =>
      rw [hx] at hs h
      exact .trans hs (ih h)
    | inr o' =>
      rw [hx] at hs h
      cases h
      exact hs

/-! ### Runs that give a tree -/

/-- The end of input is still to be matched, unless the position is there. -/
def EndsBelow (s : State) : Prop :=
  s.cursor.current.kind = .endOfInput ∨ [.terminal .endOfInput] <:+ s.control.items

/-- Only if it is matched itself, the end of input leaves the control stack. -/
theorem EndsBelow.of_top {symbol : Symbol} {control : List Symbol} (h : EndsBelow s)
    (top : s.control.items = symbol :: control) :
    s.cursor.current.kind = .endOfInput ∨ symbol = .terminal .endOfInput ∨
      [.terminal .endOfInput] <:+ control := by
  rcases h with h | h
  · exact .inl h
  · rw [top, List.suffix_cons_iff] at h
    rcases h with h | h
    · cases h
      exact .inr (.inl rfl)
    · exact .inr (.inr h)

/-- A step keeps the end of input below, or it gives no tree, or the position is there. -/
def KeepsEnd : State ⊕ Outcome → Prop
  | .inl s => EndsBelow s
  | .inr o => ∀ t, o.result = .ok t → o.cursor.current.kind = .endOfInput

theorem keepsEnd_step (table : Table) (h : EndsBelow s) : KeepsEnd (s.step table) := by
  have hr := stepsFrom_step table s
  have hs := stepped table s
  generalize s.step table = r at hr hs
  cases hs with
  | closed empty values =>
    rcases h with h | h
    · exact fun _ _ => h
    · rw [empty] at h
      cases List.suffix_nil.1 h
  | valueless | unclosed | unreadable | mismatched | failed | missed | unapplied | stray =>
    intro t ht
    cases ht
  | bare top found | leaf top found =>
    rcases h.of_top top with he | he | he
    · exact .inl (Reaches.atEnd hr he)
    · cases he
      exact .inl (Reaches.atEnd hr found)
    · exact .inr he
  | expanded top =>
    rcases h.of_top top with he | he | he
    · exact .inl he
    · cases he
    · exact .inr (he.trans (List.suffix_append _ _))
  | delegated top | applied top =>
    rcases h.of_top top with he | he | he
    · exact .inl (Reaches.atEnd hr he)
    · cases he
    · exact .inr he

theorem atEnd_of_run {limit : Nat} {o : Outcome} {t : ParseTree} (h : EndsBelow s)
    (hr : run table limit s = some o) (ho : o.result = .ok t) :
    o.cursor.current.kind = .endOfInput := by
  induction limit generalizing s with
  | zero => cases hr
  | succ limit ih =>
    have hk := keepsEnd_step table h
    rw [run] at hr
    cases hs : s.step table with
    | inl s' =>
      rw [hs] at hk hr
      exact ih hk hr
    | inr o' =>
      rw [hs] at hk hr
      cases hr
      exact hk t ho

theorem endsBelow_start (c : Cursor) : EndsBelow (start c) :=
  .inr ⟨[.nonterminal .program], rfl⟩

end Derivation

end LispReader
