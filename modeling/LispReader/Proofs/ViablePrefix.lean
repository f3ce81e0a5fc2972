import LispReader.Proofs.Programs

/-! Refusals are exact.

The kinds of the tokens in front of a refused token begin some program, and no program goes on
with the kind of the refused one. The kinds that a report names are just those with which some
program goes on, except inside an application that has an item already: there the report names the
right parenthesis, but a further item is possible as well. All of this is `refusal_exact`. -/
namespace LispReader
open Phrase

/-! ### Words of kinds -/

/-- The kinds of the tokens of some program. -/
def Grammatical (ks : List Kind) : Prop := ∃ w t, kinds w = ks ∧ Derives w t

/-- Some program begins with these kinds. -/
def Viable (ks : List Kind) : Prop := ∃ rest, Grammatical (ks ++ rest)

/-- A token of the kind can follow: a program goes on with it, or ends in front of the end of
input. -/
def Acceptable (ks : List Kind) (e : Kind) : Prop :=
  if e = .endOfInput then Grammatical ks else Viable (ks ++ [e])

/-- The innermost open parenthesis is followed by items of an application, at least one, and by
nothing else. -/
def InsideApplication (ks : List Kind) : Prop :=
  ∃ before w t ts, ks = before ++ .leftParen :: kinds w ∧ Nonempty (Items w (t :: ts))

theorem Grammatical.exists_head {ks : List Kind} (h : Grammatical ks) :
    ∃ k rest, ks = k :: rest ∧ k ∈ Grammar.expressionFirst := by
  obtain ⟨w, t, rfl, ⟨d⟩⟩ := h
  obtain ⟨token, rest, rfl, hk⟩ := d.exists_head
  exact ⟨token.kind, kinds rest, rfl, hk⟩

theorem InsideApplication.append {ks : List Kind} (h : InsideApplication ks) (front : List Kind) :
    InsideApplication (front ++ ks) := by
  obtain ⟨before, w, t, ts, rfl, hi⟩ := h
  exact ⟨front ++ before, w, t, ts, (List.append_assoc ..).symm, hi⟩

/-! ### Parentheses -/

/-- Parentheses match, and the end of input is not reached. -/
structure Balanced (ks : List Kind) : Prop where
  not_mem : .endOfInput ∉ ks
  count_eq : ks.count .rightParen = ks.count .leftParen
  count_le : ∀ x y, ks = x ++ y → x.count .rightParen ≤ x.count .leftParen

namespace Balanced

variable {x y ks ks' : List Kind}

theorem nil : Balanced [] where
  not_mem := List.not_mem_nil
  count_eq := rfl
  count_le x y h := by
    obtain ⟨rfl, -⟩ := List.append_eq_nil_iff.1 h.symm
    exact Nat.le_refl _

theorem append (h : Balanced ks) (h' : Balanced ks') : Balanced (ks ++ ks') where
  not_mem := List.not_mem_append h.not_mem h'.not_mem
  count_eq := by rw [List.count_append, List.count_append, h.count_eq, h'.count_eq]
  count_le x y he := by
    rcases List.append_eq_append_iff.1 he with ⟨z, rfl, hz⟩ | ⟨z, hz, -⟩
    · have hx := h'.count_le z y hz
      have hk := h.count_eq
      rw [List.count_append, List.count_append]
      omega
    · exact h.count_le x z hz

theorem singleton {k : Kind} (hl : k ≠ .leftParen) (hr : k ≠ .rightParen)
    (he : k ≠ .endOfInput) : Balanced [k] where
  not_mem := by simpa using he.symm
  count_eq := by simp [hl, hr]
  count_le x y h := by
    cases x with
    | nil => exact Nat.le_refl _
    | cons j x =>
      obtain ⟨rfl, ht⟩ := List.cons.inj h
      obtain ⟨rfl, -⟩ := List.append_eq_nil_iff.1 ht.symm
      simp [hr]

theorem parenthesized (h : Balanced ks) : Balanced (.leftParen :: (ks ++ [.rightParen])) where
  not_mem := by simpa using h.not_mem
  count_eq := by
    have hk := h.count_eq
    simp [hk]
  count_le x y he := by
    cases x with
    | nil => exact Nat.le_refl _
    | cons k x =>
      obtain ⟨rfl, ht⟩ := List.cons.inj he
      have hl : x.count .rightParen ≤ x.count .leftParen + 1 := by
        rcases List.append_eq_append_iff.1 ht with ⟨z, rfl, hz⟩ | ⟨z, hz, -⟩
        · have hk := h.count_eq
          have hc : z.count .rightParen ≤ 1 := by
            have hs : z.Sublist [.rightParen] := by
              rw [hz]
              exact List.sublist_append_left z y
            exact hs.count_le .rightParen
          rw [List.count_append, List.count_append]
          omega
        · exact Nat.le_succ_of_le (h.count_le x z hz)
      simpa using hl

/-- Behind a balanced word, an open parenthesis with a balanced word behind it stays whole. -/
theorem split {v : List Kind} {before : List Kind} (hx : Balanced x) (hv : Balanced v)
    (h : x ++ y = before ++ .leftParen :: v) :
    ∃ between, before = x ++ between ∧ y = between ++ .leftParen :: v := by
  rcases List.append_eq_append_iff.1 h with ⟨z, rfl, hz⟩ | ⟨z, rfl, hz⟩
  · exact ⟨z, rfl, hz⟩
  · cases z with
    | nil => exact ⟨[], by simp, by simpa using hz.symm⟩
    | cons k z =>
      obtain ⟨rfl, rfl⟩ := List.cons.inj hz
      -- The parenthesis would be open at the end of the balanced word.
      have hb := hx.count_le before _ rfl
      have hc := hx.count_eq
      have hz := hv.count_le z y rfl
      simp [List.count_append] at hc
      omega

end Balanced

namespace Form

theorem balanced_leader {f : Form} (h : f ∈ all) : Balanced [f.leader] := by
  have hk : f.leader ≠ .leftParen ∧ f.leader ≠ .rightParen ∧ f.leader ≠ .endOfInput := by
    revert f
    decide
  exact .singleton hk.1 hk.2.1 hk.2.2

end Form

namespace Phrase

mutual

theorem Expression.balanced : {w : List Token} → {t : ParseTree} → Expression w t →
    Balanced (kinds w)
  | _, _, .number token kind _ _ | _, _, .identifier token kind _ => by
    rw [kinds_cons, kind]
    exact .singleton (by decide) (by decide) (by decide)
  | _, _, .parenthesized opening closing opens body closes => by
    rw [kinds_cons, kinds_append, kinds_cons, opens, closes]
    exact body.balanced.parenthesized

theorem Body.balanced : {w : List Token} → {t : ParseTree} → Body w t → Balanced (kinds w)
  | _, _, .form f leader known leads operands => by
    rw [kinds_cons, leads]
    exact (Form.balanced_leader known).append operands.balanced
  | _, _, .application items => items.balanced

theorem Operands.balanced : {ops : List Operand} → {w : List Token} → {ts : List ParseTree} →
    Operands ops w ts → Balanced (kinds w)
  | _, _, _, .nil => .nil
  | _, _, _, .expression first rest => by
    rw [kinds_append]
    exact first.balanced.append rest.balanced
  | _, _, _, .identifier token kind _ rest => by
    have hi : Balanced [Kind.identifier] := .singleton (by decide) (by decide) (by decide)
    rw [kinds_cons, kind]
    exact hi.append rest.balanced

theorem Items.balanced : {w : List Token} → {ts : List ParseTree} → Items w ts →
    Balanced (kinds w)
  | _, _, .nil => .nil
  | _, _, .cons first rest => by
    rw [kinds_append]
    exact first.balanced.append rest.balanced

end

/-! ### The need of a beginning is exact -/

/-- No open expression begins with a whole one. -/
theorem Begun.not_append {p w : List Token} {t : ParseTree} {need : Need} {rest : List Kind}
    (b : Begun p need) (d : Expression w t) : kinds p ≠ kinds w ++ rest := by
  intro h
  -- Behind the whole expression anything can be appended, so every kind would be accepted.
  have ha : ∀ e, need.Accepts e := fun e => b.accepts d (r := rest ++ [e]) (s := []) (by simp [h])
  have hn : ¬ (need.Accepts .endOfInput ∧ need.Accepts .number) := by
    cases need <;> decide
  exact hn ⟨ha _, ha _⟩

/-- A phrase begins with a beginning of one and does not end there. -/
theorem Begun.not_grammatical {p : List Token} {need : Need} (b : Begun p need) :
    ¬ Grammatical (kinds p) := by
  intro h
  obtain ⟨w, t, hw, ⟨d⟩⟩ := h
  exact b.not_append d (by rw [hw, List.append_nil])

theorem Begun.not_accepts_endOfInput {p : List Token} {need : Need} (b : Begun p need) :
    ¬ need.Accepts .endOfInput := by
  intro h
  obtain ⟨token, s, t, hk, ⟨d⟩⟩ := b.exists_completion h
  have hn := d.balanced.not_mem
  simp [hk] at hn

/-- What a beginning needs is what programs go on with. -/
theorem BegunProgram.acceptable_iff {p : List Token} {need : Need} {e : Kind}
    (b : BegunProgram p need) : Acceptable (kinds p) e ↔ need.Accepts e := by
  unfold Acceptable
  cases b with
  | start =>
    split
    · next he =>
      subst he
      refine iff_of_false (fun h => ?_) (by decide)
      obtain ⟨k, rest, hk, -⟩ := h.exists_head
      cases hk
    · constructor
      · intro h
        obtain ⟨rest, h⟩ := h
        obtain ⟨k, ks, hk, hf⟩ := h.exists_head
        cases hk
        exact hf
      · intro h
        obtain ⟨token, s, t, rfl, hd⟩ := exists_expression h
        exact ⟨kinds s, token :: s, t, rfl, hd⟩
  | within b =>
    split
    · next he =>
      subst he
      exact iff_of_false b.not_grammatical b.not_accepts_endOfInput
    · constructor
      · intro h
        obtain ⟨rest, w, t, hw, ⟨d⟩⟩ := h
        exact b.accepts d (r := []) (s := rest) (by simpa using hw)
      · intro h
        obtain ⟨token, s, t, rfl, hd⟩ := b.exists_completion h
        exact ⟨kinds s, p ++ token :: s, t, by simp, hd⟩
  | whole d =>
    split
    · next he => exact iff_of_true ⟨p, _, rfl, ⟨d⟩⟩ he
    · next he =>
      refine iff_of_false ?_ he
      intro h
      obtain ⟨rest, w, t, hw, ⟨d'⟩⟩ := h
      have hr : kinds w ++ [] = kinds p ++ e :: rest := by simpa using hw
      simp [d.kinds_eq d' hr] at hw

/-! ### Inside an application -/

mutual

theorem Begun.insideApplication : {p : List Token} → {need : Need} → Begun p need →
    need = .item → InsideApplication (kinds p)
  | _, _, .parenthesized opening opens body, h => by
    rw [kinds_cons, opens]
    exact body.insideApplication h

theorem BegunBody.insideApplication : {p : List Token} → {need : Need} → BegunBody p need →
    need = .item → InsideApplication (.leftParen :: kinds p)
  | _, _, .start, h | _, _, .form _ _ _ _ _, h => absurd h (by decide)
  | _, _, .operands f leader known leads operands, h =>
    (operands.insideApplication h).append [.leftParen, leader.kind]
  | _, _, .application items, _ => ⟨[], _, _, _, rfl, ⟨items⟩⟩
  | _, _, .item (w := w) items last, h => by
    rw [kinds_append]
    exact (last.insideApplication h).append (.leftParen :: kinds w)

theorem BegunOperands.insideApplication : {ops : List Operand} → {p : List Token} →
    {need : Need} → BegunOperands ops p need → need = .item → InsideApplication (kinds p)
  | _, _, _, .needExpression _, h | _, _, _, .needIdentifier _, h => absurd h (by decide)
  | _, _, _, .within _ first, h => first.insideApplication h
  | _, _, _, .expression (w := w) _ rest, h => by
    rw [kinds_append]
    exact (rest.insideApplication h).append (kinds w)
  | _, _, _, .identifier token _ _ rest, h => (rest.insideApplication h).append [token.kind]

end

section

variable {v : List Token} {t : ParseTree} {ts : List ParseTree}

/-- Items behind the open parenthesis are those of an application that is being read. -/
theorem BegunBody.eq_item_of_items (items : Items v (t :: ts)) {p : List Token} {need : Need}
    (b : BegunBody p need) (h : kinds p = kinds v) : need = .item := by
  obtain ⟨token, v', hv, hk⟩ := items.exists_head
  rw [hv] at h
  cases b with
  | start => cases h
  | operands f leader known leads operands =>
    obtain ⟨hl, -⟩ := List.cons.inj h
    exact absurd (hl ▸ hk) (leads ▸ Form.leader_not_mem_expressionFirst known)
  | form f leader known leads operands =>
    obtain ⟨hl, -⟩ := List.cons.inj h
    exact absurd (hl ▸ hk) (leads ▸ Form.leader_not_mem_expressionFirst known)
  | application => rfl
  | item done last =>
    -- The open expression would begin like the remaining items, so with a whole one.
    rw [kinds_append, ← hv] at h
    obtain ⟨w, ts', ⟨more⟩, hm⟩ := items.exists_rest done (r := []) (by
      rw [← h, List.append_assoc])
    have hp := List.append_cancel_right hm
    cases more with
    | nil =>
      obtain ⟨opening, p, rfl, -⟩ := last.exists_head
      cases hp
    | cons first rest =>
      rw [kinds_append] at hp
      exact absurd hp.symm (last.not_append first)

mutual

theorem Begun.eq_item (items : Items v (t :: ts)) : {p : List Token} → {need : Need} →
    {before : List Kind} → Begun p need → kinds p = before ++ .leftParen :: kinds v → need = .item
  | _, _, before, .parenthesized opening opens body, h => by
    cases before with
    | nil => exact body.eq_item_of_items items (List.cons.inj h).2
    | cons k before => exact body.eq_item items (List.cons.inj h).2

theorem BegunBody.eq_item (items : Items v (t :: ts)) : {p : List Token} → {need : Need} →
    {before : List Kind} → BegunBody p need → kinds p = before ++ .leftParen :: kinds v →
    need = .item
  | _, _, _, .start, h => absurd h (by simp)
  | _, _, _, .operands f leader known leads operands, h => by
    rw [kinds_cons, leads] at h
    obtain ⟨between, -, hb⟩ := (Form.balanced_leader known).split items.balanced h
    exact operands.eq_item items hb
  | _, _, _, .form f leader known leads operands, h => by
    have d := Body.form f leader known leads operands
    rw [← List.append_nil (kinds _)] at h
    obtain ⟨between, -, hb⟩ := d.balanced.split items.balanced h
    exact absurd hb (by simp)
  | _, _, _, .application items', h => rfl
  | _, _, _, .item done last, h => by
    rw [kinds_append] at h
    obtain ⟨between, -, hb⟩ := done.balanced.split items.balanced h
    exact last.eq_item items hb

theorem BegunOperands.eq_item (items : Items v (t :: ts)) : {ops : List Operand} →
    {p : List Token} → {need : Need} → {before : List Kind} → BegunOperands ops p need →
    kinds p = before ++ .leftParen :: kinds v → need = .item
  | _, _, _, _, .needExpression _, h | _, _, _, _, .needIdentifier _, h => absurd h (by simp)
  | _, _, _, _, .within _ first, h => first.eq_item items h
  | _, _, _, _, .expression first rest, h => by
    rw [kinds_append] at h
    obtain ⟨between, -, hb⟩ := first.balanced.split items.balanced h
    exact rest.eq_item items hb
  | _, _, _, _, .identifier token kind _ rest, h => by
    have hi : Balanced [Kind.identifier] := .singleton (by decide) (by decide) (by decide)
    rw [kinds_cons, kind] at h
    obtain ⟨between, -, hb⟩ := hi.split items.balanced h
    exact rest.eq_item items hb

end

end

/-- Inside an application that has an item, and only there, an item is possible but not named. -/
theorem BegunProgram.insideApplication_iff {p : List Token} {need : Need}
    (b : BegunProgram p need) : InsideApplication (kinds p) ↔ need = .item := by
  constructor
  · intro hi
    obtain ⟨before, v, t, ts, h, ⟨items⟩⟩ := hi
    cases b with
    | start => exact absurd h (by simp)
    | within b => exact b.eq_item items h
    | whole d =>
      rw [← List.append_nil (kinds p)] at h
      obtain ⟨between, -, hb⟩ := d.balanced.split items.balanced h
      exact absurd hb (by simp)
  · intro hn
    subst hn
    cases b with
    | within b => exact b.insideApplication rfl

/-- The kinds that a report names are possible. -/
theorem BegunProgram.acceptable_of_mem_expected {p : List Token} {need : Need} {token : Token}
    {e : Kind} (b : BegunProgram p need) (h : e ∈ (need.fault token).expected) :
    Acceptable (kinds p) e := by
  refine b.acceptable_iff.2 ?_
  by_cases hn : need = .item
  · subst hn
    exact .inl (List.mem_singleton.1 h)
  · exact (Need.mem_expected_fault hn token e).1 h

theorem BegunProgram.viable {p : List Token} {need : Need} (b : BegunProgram p need) :
    Viable (kinds p) := by
  obtain ⟨e, he⟩ := need.exists_accepts
  have ha := b.acceptable_iff.2 he
  unfold Acceptable at ha
  split at ha
  · exact ⟨[], by rwa [List.append_nil]⟩
  · obtain ⟨rest, hr⟩ := ha
    exact ⟨e :: rest, by simpa using hr⟩

end Phrase

/-! ### Refusals -/

namespace Derivation
open Descent

/-- Refused is the first token with whose kind no program goes on, and the report names the kinds
with which one does, apart from further items of an application. -/
theorem refusal_exact {tokens : List Token} (h : Terminated tokens) :
    ∃ o, parseTokens? tokens = some o ∧ ∀ fault, o.result = .error (.refused fault) →
      let p := kinds (tokens.take o.cursor.index)
      tokens[o.cursor.index]? = some fault.token ∧ Viable p ∧
      ¬ Acceptable p fault.token.kind ∧ (∀ e ∈ fault.expected, Acceptable p e) ∧
      (¬ InsideApplication p → ∀ e, Acceptable p e → e ∈ fault.expected) ∧
      (InsideApplication p → fault.expected = [.rightParen] ∧
        ∀ e, Acceptable p e ↔ e ∈ [Kind.rightParen, .number, .identifier, .leftParen]) := by
  obtain ⟨c, hc, hi, ha, rest, ht⟩ := h.exists_cursor
  refine ⟨parseStandard c, by rw [parseTokens?, hc]; rfl, fun fault hf => ?_⟩
  have hs := parseStandard_sound c
  rw [hf] at hs
  obtain ⟨w, need, hp, hb, rfl, hn⟩ := hs
  have hk : (parseStandard c).cursor.index = w.length := by rw [hp.index, hi, Nat.zero_add]
  have htokens : tokens = w ++ ((parseStandard c).cursor.ahead ++ c.terminator :: rest) := by
    rw [ht, ← ha, hp.ahead, List.append_assoc]
  have hw : tokens.take (parseStandard c).cursor.index = w := by
    rw [hk, htokens, List.take_left]
  have ht' : tokens[(parseStandard c).cursor.index]? = some (parseStandard c).cursor.current := by
    rw [htokens, hk, List.getElem?_append_right (Nat.le_refl _), Nat.sub_self, Cursor.current,
      hp.terminator]
    cases (parseStandard c).cursor.ahead <;> rfl
  rw [hw]
  refine ⟨?_, hb.viable, ?_, fun e he => hb.acceptable_of_mem_expected he, fun hin e he => ?_,
    fun hin => ?_⟩
  · rw [ht', Need.token_fault]
  · rw [Need.token_fault]
    exact mt hb.acceptable_iff.1 hn
  · have hne : need ≠ .item := mt hb.insideApplication_iff.2 hin
    exact (Need.mem_expected_fault hne _ e).2 (hb.acceptable_iff.1 he)
  · cases hb.insideApplication_iff.1 hin
    refine ⟨rfl, fun e => hb.acceptable_iff.trans ?_⟩
    cases e <;> decide

/-- The tokens of `(= x)`, where the right parenthesis stands for the second operand. -/
def misplaced : List Token :=
  [Kind.leftParen, .equals, .identifier, .rightParen, .endOfInput].map .sample

theorem refusal_exact_misplaced : Terminated misplaced ∧ ∃ o fault,
    parseTokens? misplaced = some o ∧ o.result = .error (.refused fault) ∧
      ¬ Acceptable [.leftParen, .equals, .identifier] .rightParen ∧
      ∀ e, Acceptable [.leftParen, .equals, .identifier] e ↔
        e ∈ [Kind.number, .identifier, .leftParen] := by
  have h : Terminated misplaced := ⟨_, rfl, rfl⟩
  obtain ⟨o, ho, hx⟩ := refusal_exact h
  have hr : ∃ c o, Cursor.ofTokens? misplaced = some c ∧ run Grammar.standard 9 (start c) = some o ∧
      o.result = .error (.refused (.unexpected (.sample .rightParen)
        [.number, .identifier, .leftParen] "Expr")) ∧ o.cursor.index = 3 :=
    ⟨_, _, rfl, rfl, rfl, rfl⟩
  obtain ⟨c, o', hc, hrun, hres, hidx⟩ := hr
  cases ho.symm.trans (parseTokens?_eq_of_run hc hrun)
  obtain ⟨-, -, hn, hall, hmem, hin⟩ := hx _ hres
  rw [hidx] at hn hall hmem hin
  refine ⟨h, o, _, ho, hres, hn, fun e => ⟨hmem (fun hi => ?_) e, hall e⟩⟩
  exact absurd (hin hi).1 (by decide)

end Derivation

end LispReader
