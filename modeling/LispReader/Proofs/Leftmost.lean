import LispReader.Proofs.Programs

/-! The productions of a derivation.

A derivation uses productions of the grammar, and their numbers can be listed from left to right:
`numbers`. The parse table chooses those that stand outside of applications, `chosen`; an
application is read in the place of its variadic production, and no table is asked inside. A parse
that gives a tree chooses just these productions, one after the other, and its trace names them:
`parseStandard_chosen`. -/
namespace LispReader

/-- The number of the production of a form. -/
def Form.number (f : Form) : Int := 5 + Form.all.idxOf f

namespace Phrase

mutual

/-- The numbers of the productions of a derivation, in the order of a leftmost derivation. -/
def Expression.numbers {w : List Token} {t : ParseTree} : Expression w t → List Int
  | .number _ _ _ _ => [2]
  | .identifier _ _ _ => [3]
  | .parenthesized _ _ _ body _ => 4 :: body.numbers

def Body.numbers {w : List Token} {t : ParseTree} : Body w t → List Int
  | .form f _ _ _ operands => f.number :: operands.numbers
  | .application items => 12 :: items.numbers

def Operands.numbers {ops : List Operand} {w : List Token} {ts : List ParseTree} :
    Operands ops w ts → List Int
  | .nil => []
  | .expression first rest => first.numbers ++ rest.numbers
  | .identifier _ _ _ rest => rest.numbers

def Items.numbers {w : List Token} {ts : List ParseTree} : Items w ts → List Int
  | .nil => []
  | .cons first rest => first.numbers ++ rest.numbers

end

mutual

/-- The numbers of the productions that do not stand inside an application, in the same order. -/
def Expression.chosen {w : List Token} {t : ParseTree} : Expression w t → List Int
  | .number _ _ _ _ => [2]
  | .identifier _ _ _ => [3]
  | .parenthesized _ _ _ body _ => 4 :: body.chosen

def Body.chosen {w : List Token} {t : ParseTree} : Body w t → List Int
  | .form f _ _ _ operands => f.number :: operands.chosen
  | .application _ => [12]

def Operands.chosen {ops : List Operand} {w : List Token} {ts : List ParseTree} :
    Operands ops w ts → List Int
  | .nil => []
  | .expression first rest => first.chosen ++ rest.chosen
  | .identifier _ _ _ rest => rest.chosen

end

mutual

theorem Expression.chosen_sublist : {w : List Token} → {t : ParseTree} → (d : Expression w t) →
    d.chosen.Sublist d.numbers
  | _, _, .number _ _ _ _ | _, _, .identifier _ _ _ => .refl _
  | _, _, .parenthesized _ _ _ body _ => body.chosen_sublist.cons_cons 4

theorem Body.chosen_sublist : {w : List Token} → {t : ParseTree} → (d : Body w t) →
    d.chosen.Sublist d.numbers
  | _, _, .form f _ _ _ operands => operands.chosen_sublist.cons_cons f.number
  | _, _, .application items => (List.nil_sublist items.numbers).cons_cons 12

theorem Operands.chosen_sublist : {ops : List Operand} → {w : List Token} →
    {ts : List ParseTree} → (d : Operands ops w ts) → d.chosen.Sublist d.numbers
  | _, _, _, .nil => .refl _
  | _, _, _, .expression first rest => first.chosen_sublist.append rest.chosen_sublist
  | _, _, _, .identifier _ _ _ rest => rest.chosen_sublist

end

mutual

/-- Without an application, no production stands inside one. -/
theorem Expression.numbers_eq_chosen : {w : List Token} → {t : ParseTree} →
    (d : Expression w t) → 12 ∉ d.chosen → d.numbers = d.chosen
  | _, _, .number _ _ _ _, _ | _, _, .identifier _ _ _, _ => rfl
  | _, _, .parenthesized _ _ _ body _, h =>
    congrArg (4 :: ·) (body.numbers_eq_chosen (List.not_mem_of_not_mem_cons h))

theorem Body.numbers_eq_chosen : {w : List Token} → {t : ParseTree} → (d : Body w t) →
    12 ∉ d.chosen → d.numbers = d.chosen
  | _, _, .form f _ _ _ operands, h =>
    congrArg (f.number :: ·) (operands.numbers_eq_chosen (List.not_mem_of_not_mem_cons h))
  | _, _, .application _, h => absurd (List.mem_singleton_self 12) h

theorem Operands.numbers_eq_chosen : {ops : List Operand} → {w : List Token} →
    {ts : List ParseTree} → (d : Operands ops w ts) → 12 ∉ d.chosen → d.numbers = d.chosen
  | _, _, _, .nil, _ => rfl
  | _, _, _, .expression first rest, h => by
    obtain ⟨hf, hr⟩ := not_or.1 (mt List.mem_append.2 h)
    rw [Operands.numbers, Operands.chosen, first.numbers_eq_chosen hf, rest.numbers_eq_chosen hr]
  | _, _, _, .identifier _ _ _ rest, h => rest.numbers_eq_chosen h

end

end Phrase

namespace Derivation
open Descent Phrase

/-! ### Productions in traces -/

/-- The numbers of the productions that the events of a trace name, in the order of the events. -/
def chosenIn (trace : List Event) : List Int := trace.reverse.filterMap Event.production

theorem chosenIn_cons (e : Event) (trace : List Event) :
    chosenIn (e :: trace) = chosenIn trace ++ e.production.toList := by
  rw [chosenIn, List.reverse_cons, List.filterMap_append, ← chosenIn]
  cases h : e.production <;> simp [h]

/-! ### Runs along a derivation -/

/-- The stacks and the position of a state. -/
structure State.IsAt (s : State) (control : List Symbol) (values : List ParseTree) (c : Cursor) :
    Prop where
  control : s.control.items = control
  values : s.values.items = values
  cursor : s.cursor = c

/-- From the first stacks and position, a derivation in the standard grammar gets to the second ones
and chooses these productions on the way. -/
def Leads (control : List Symbol) (values : List ParseTree) (c : Cursor) (numbers : List Int)
    (control' : List Symbol) (values' : List ParseTree) (c' : Cursor) : Prop :=
  ∀ s : State, s.IsAt control values c → ∃ s' : State, s'.IsAt control' values' c' ∧
    runStandard s = runStandard s' ∧ chosenIn s'.trace = chosenIn s.trace ++ numbers

variable {control control' control'' : List Symbol} {values values' values'' : List ParseTree}
  {c c' c'' : Cursor} {numbers numbers' : List Int}

theorem Leads.refl (control : List Symbol) (values : List ParseTree) (c : Cursor) :
    Leads control values c [] control values c :=
  fun s hs => ⟨s, hs, rfl, (List.append_nil _).symm⟩

theorem Leads.trans (h : Leads control values c numbers control' values' c')
    (h' : Leads control' values' c' numbers' control'' values'' c'') :
    Leads control values c (numbers ++ numbers') control'' values'' c'' := by
  intro s hs
  obtain ⟨s', hs', hr, ht⟩ := h s hs
  obtain ⟨s'', hs'', hr', ht'⟩ := h' s' hs'
  exact ⟨s'', hs'', hr.trans hr', by rw [ht', ht, List.append_assoc]⟩

theorem leads_of_step (h : ∀ s : State, s.IsAt control values c →
      ∃ s', s.step Grammar.standard = .inl s' ∧ s'.IsAt control' values' c' ∧
        chosenIn s'.trace = chosenIn s.trace ++ numbers) :
    Leads control values c numbers control' values' c' := by
  intro s hs
  obtain ⟨s', hx, hs', ht⟩ := h s hs
  exact ⟨s', hs', runStandard_of_step_eq_inl hx, ht⟩

theorem leads_bare {kind : Kind} (hk : kind.carriesLexeme = false) (ht : c.current.kind = kind) :
    Leads (.terminal kind :: control) values c [] control values c.advance := by
  refine leads_of_step ?_
  rintro s ⟨hc, hv, rfl⟩
  exact ⟨_, step_bare hc hk ht, ⟨rfl, hv, rfl⟩, chosenIn_cons ..⟩

theorem leads_leaf {kind : Kind} {t : ParseTree} (hk : kind.carriesLexeme = true)
    (ht : c.current.kind = kind) (hl : c.current.leaf = .ok t) :
    Leads (.terminal kind :: control) values c [] control (t :: values) c.advance := by
  refine leads_of_step ?_
  rintro s ⟨hc, hv, rfl⟩
  exact ⟨_, step_leaf hc hk ht hl, ⟨rfl, congrArg (t :: ·) hv, rfl⟩, chosenIn_cons ..⟩

theorem leads_expanded {nt : Nonterminal} {p : Production}
    (hp : Grammar.standard.lookup nt c.current.kind = some p) (hv : p.variadic = false) :
    Leads (.nonterminal nt :: control) values c [p.id] (p.rhs ++ control) values c := by
  refine leads_of_step ?_
  rintro s ⟨hc, hs, rfl⟩
  exact ⟨_, step_expanded hc hp hv, ⟨rfl, hs, rfl⟩, chosenIn_cons ..⟩

theorem leads_delegated {nt : Nonterminal} {p : Production} {t : ParseTree}
    (hp : Grammar.standard.lookup nt c.current.kind = some p) (hv : p.variadic = true)
    (ha : Gives (application c) t c') :
    Leads (.nonterminal nt :: control) values c [p.id] control (t :: values) c' := by
  refine leads_of_step ?_
  rintro s ⟨hc, hs, rfl⟩
  obtain ⟨hl, ha⟩ := ha
  have ha' : Application.application s.cursor = (.ok t, c') := by
    rw [Application.application_eq, ha]
    rfl
  exact ⟨_, step_delegated hc hp hv ha', ⟨rfl, congrArg (t :: ·) hs, rfl⟩, chosenIn_cons ..⟩

theorem leads_applied {form : Form} {ts : List ParseTree} (ht : ts.length = form.arity) :
    Leads (.action form :: control) (ts.reverse ++ values) c [] control (form.tree ts :: values)
      c := by
  refine leads_of_step ?_
  rintro s ⟨hc, hv, rfl⟩
  obtain ⟨below, hb, hs⟩ := @step_applied Grammar.standard s control form ts values hc hv ht
  exact ⟨_, hs, ⟨rfl, hb, rfl⟩, chosenIn_cons ..⟩

end Derivation

namespace Phrase
open Descent LispReader.Derivation

theorem lookup_leader {f : Form} (h : f ∈ Form.all) :
    Grammar.standard.lookup .parenBody f.leader = some (Grammar.formProduction f.number f) := by
  simp only [Form.all, List.mem_cons, List.not_mem_nil, or_false] at h
  rcases h with rfl | rfl | rfl | rfl | rfl | rfl | rfl <;> rfl

theorem lookup_item {kind : Kind} (h : kind ∈ Grammar.expressionFirst) :
    Grammar.standard.lookup .parenBody kind = some ⟨12, .parenBody, [.nonterminal .expression],
      Grammar.expressionFirst, true⟩ := by
  revert h
  cases kind <;> decide

mutual

/-- With an expression on top of the control stack, the derivation chooses its productions. -/
theorem Expression.leads : {w : List Token} → {t : ParseTree} → (d : Expression w t) →
    {c c' : Cursor} → Passes c w c' → (control : List Symbol) → (values : List ParseTree) →
    Leads (.nonterminal .expression :: control) values c d.chosen control (t :: values) c'
  | _, _, .number token kind spelled denotes, c, c', hp, control, values => by
    cases hp.current_of_cons
    cases hp.tail.unique (.refl _)
    have hlookup : Grammar.standard.lookup .expression c.current.kind =
        some ⟨2, .expression, [.terminal .number], .ofList [.number], false⟩ := by rw [kind]; rfl
    have hleaf := leaf_number kind spelled
    rw [denotes] at hleaf
    exact (leads_expanded hlookup rfl).trans (leads_leaf rfl kind hleaf)
  | _, _, .identifier token kind spelled, c, c', hp, control, values => by
    cases hp.current_of_cons
    cases hp.tail.unique (.refl _)
    have hlookup : Grammar.standard.lookup .expression c.current.kind =
        some ⟨3, .expression, [.terminal .identifier], .ofList [.identifier], false⟩ := by
      rw [kind]; rfl
    exact (leads_expanded hlookup rfl).trans (leads_leaf rfl kind (leaf_identifier kind spelled))
  | _, _, .parenthesized opening closing opens body closes, c, c', hp, control, values => by
    cases hp.current_of_cons
    obtain ⟨c₁, hb, hc⟩ := hp.tail.exists_between
    cases hc.current_of_cons
    cases hc.tail.unique (.refl _)
    have hn : c₁.current.kind ∉ Grammar.expressionFirst := by
      rw [closes]
      decide
    have hlookup : Grammar.standard.lookup .expression c.current.kind =
        some ⟨4, .expression, [.terminal .leftParen, .nonterminal .parenBody, .terminal .rightParen],
          .ofList [.leftParen], false⟩ := by rw [opens]; rfl
    have hbody := body.leads hb hn (.terminal .rightParen :: control) values
    have h := (leads_expanded hlookup rfl).trans
      (((leads_bare rfl opens).trans hbody).trans (leads_bare rfl closes))
    rwa [List.append_nil] at h

theorem Body.leads : {w : List Token} → {t : ParseTree} → (d : Body w t) →
    {c c' : Cursor} → Passes c w c' → c'.current.kind ∉ Grammar.expressionFirst →
    (control : List Symbol) → (values : List ParseTree) →
    Leads (.nonterminal .parenBody :: control) values c d.chosen control (t :: values) c'
  | _, _, .form f leader known leads operands, c, c', hp, _, control, values => by
    cases hp.current_of_cons
    have hlookup := lookup_leader known
    rw [← leads] at hlookup
    have hoperands := operands.leads hp.tail (.action f :: control) values
    have h := ((leads_bare (Form.carriesLexeme_leader known) leads).trans hoperands).trans
      (leads_applied operands.length_eq)
    rw [List.append_nil] at h
    have hexpanded : Leads (.nonterminal .parenBody :: control) values c [f.number]
        (.terminal f.leader :: (f.operands.map operandSymbol ++ .action f :: control)) values c := by
      rw [List.append_cons, ← List.cons_append]
      exact leads_expanded hlookup rfl
    exact hexpanded.trans h
  | _, _, .application (.cons first rest), c, c', hp, hn, control, values => by
    obtain ⟨c₁, hf, hr⟩ := hp.exists_between
    have hk := first.current_mem hf
    have ha := (Body.application (.cons first rest)).gives hp hn
    rw [body_of_application (Form.ofLeader?_eq_none hk) hk] at ha
    exact leads_delegated (lookup_item hk) rfl ha

theorem Operands.leads : {ops : List Operand} → {w : List Token} → {ts : List ParseTree} →
    (d : Operands ops w ts) → {c c' : Cursor} → Passes c w c' → (control : List Symbol) →
    (values : List ParseTree) →
    Leads (ops.map operandSymbol ++ control) values c d.chosen control (ts.reverse ++ values) c'
  | _, _, _, .nil, c, c', hp, control, values => by
    cases hp.unique (.refl _)
    exact .refl _ _ _
  | _, _, _, .expression first rest, c, c', hp, control, values => by
    obtain ⟨c₁, hf, hr⟩ := hp.exists_between
    have h := (first.leads hf (List.map operandSymbol _ ++ control) values).trans
      (rest.leads hr control _)
    rwa [List.reverse_cons, List.append_assoc]
  | _, _, _, .identifier token kind spelled rest, c, c', hp, control, values => by
    cases hp.current_of_cons
    rw [List.reverse_cons, List.append_assoc]
    exact (leads_leaf rfl kind (leaf_identifier kind spelled)).trans
      (rest.leads hp.tail control _)

end

end Phrase

namespace Derivation
open Descent Phrase

/-- The numbers of the productions that a run has chosen, in their order. -/
def Outcome.chosen (o : Outcome) : List Int := o.events.filterMap Event.production

/-- A parse of an expression gives its tree and chooses the production of programs and then those of
the expression. -/
theorem parseStandard_chosen {c : Cursor} {t : ParseTree} (d : Expression c.ahead t) :
    (parseStandard c).result = .ok t ∧ (parseStandard c).chosen = 1 :: d.chosen := by
  obtain ⟨c', hp, hk⟩ := Passes.exists_end c
  have hlookup : Grammar.standard.lookup .program c.current.kind =
      some ⟨1, .program, [.nonterminal .expression], Grammar.expressionFirst, false⟩ := by
    have h := d.current_mem hp
    revert h
    cases c.current.kind <;> decide
  have hexpression := d.leads hp [.terminal .endOfInput] []
  have h := (leads_expanded hlookup rfl).trans (hexpression.trans (leads_bare rfl hk))
  rw [List.append_nil] at h
  obtain ⟨s, ⟨hc, hv, -⟩, hr, ht⟩ := h (start c) ⟨rfl, rfl, rfl⟩
  rw [parseStandard, hr, runStandard_of_step_eq_inr (step_closed hc hv)]
  exact ⟨rfl, ht⟩

end Derivation

end LispReader
