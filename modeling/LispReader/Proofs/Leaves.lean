import Mathlib.Data.List.Forall2
import LispReader.Proofs.Descent.Passage

/-! The leaves of trees.

The leaves of a tree are its numbers and symbols from left to right. Where a tree is built from
others, their leaves keep their order and the label of a form is put in front; so among the values
of tokens there stand labels, wherever they are (`Labelled`). Of a phrase this says that its leaves
are the values of its tokens and the labels of its leaders: `Phrase.Expression.accounted`. -/
namespace LispReader
open List (Forall₂)

namespace Tree

variable {α : Type}

mutual

/-- The leaves of a tree from left to right. -/
def leaves : Tree α → List (Tree α)
  | number n => [number n]
  | symbol s => [symbol s]
  | foreign a => [foreign a]
  | sequence head tail => head.leaves ++ leavesAll tail

/-- The leaves of some trees, one tree after the other. -/
def leavesAll : List (Tree α) → List (Tree α)
  | [] => []
  | t :: ts => t.leaves ++ leavesAll ts

end

theorem leavesAll_append (ts us : List (Tree α)) :
    leavesAll (ts ++ us) = leavesAll ts ++ leavesAll us := by
  induction ts with
  | nil => rfl
  | cons t ts ih => rw [List.cons_append, leavesAll, leavesAll, ih, List.append_assoc]

theorem leavesAll_singleton (t : Tree α) : leavesAll [t] = t.leaves := List.append_nil t.leaves

end Tree

/-- In front of the leaves of the operands stands the label. -/
theorem Form.leaves_tree {α : Type} (f : Form) (ts : List (Tree α)) :
    (f.tree ts).leaves = .symbol f.label :: Tree.leavesAll ts := rfl

/-! ### Labels among values -/

/-- The third list consists of the items of the first and of the second one, of each in their
order. -/
inductive Interleaves {β : Type} : List β → List β → List β → Prop
  | nil : Interleaves [] [] []
  | left (b : β) {l r both : List β} (rest : Interleaves l r both) :
      Interleaves (b :: l) r (b :: both)
  | right (b : β) {l r both : List β} (rest : Interleaves l r both) :
      Interleaves l (b :: r) (b :: both)

theorem Interleaves.left_nil {β : Type} (l : List β) : Interleaves l [] l := by
  induction l with
  | nil => exact .nil
  | cons b l ih => exact .left b ih

theorem Interleaves.append {β : Type} {l r both l' r' both' : List β} (h : Interleaves l r both)
    (h' : Interleaves l' r' both') : Interleaves (l ++ l') (r ++ r') (both ++ both') := by
  induction h with
  | nil => exact h'
  | left b _ ih => exact .left b ih
  | right b _ ih => exact .right b ih

/-- What is interleaved in two parts was in two parts. -/
theorem Interleaves.exists_append {β : Type} {l r front back : List β}
    (h : Interleaves l r (front ++ back)) : ∃ l₁ l₂ r₁ r₂, l = l₁ ++ l₂ ∧ r = r₁ ++ r₂ ∧
      Interleaves l₁ r₁ front ∧ Interleaves l₂ r₂ back := by
  induction front generalizing l r with
  | nil => exact ⟨[], l, [], r, rfl, rfl, .nil, h⟩
  | cons b front ih =>
    cases h with
    | left _ rest =>
      obtain ⟨l₁, l₂, r₁, r₂, rfl, rfl, hf, hb⟩ := ih rest
      exact ⟨b :: l₁, l₂, r₁, r₂, rfl, rfl, .left b hf, hb⟩
    | right _ rest =>
      obtain ⟨l₁, l₂, r₁, r₂, rfl, rfl, hf, hb⟩ := ih rest
      exact ⟨l₁, l₂, b :: r₁, r₂, rfl, rfl, .right b hf, hb⟩

/-- The leaves are the values in their order and a symbol for each label, the labels in any
order. -/
def Labelled {α : Type} (values : List (Tree α)) (labels : List String)
    (leaves : List (Tree α)) : Prop :=
  ∃ order : List String, order.Perm labels ∧ Interleaves values (order.map .symbol) leaves

namespace Labelled

variable {α : Type} {values values' leaves leaves' front back : List (Tree α)}
  {labels labels' : List String}

theorem nil : Labelled (α := α) [] [] [] := ⟨[], .refl _, .nil⟩

/-- Without labels there are the values alone. -/
theorem of_values (ts : List (Tree α)) : Labelled ts [] ts := ⟨[], .refl _, .left_nil ts⟩

theorem append (h : Labelled values labels leaves) (h' : Labelled values' labels' leaves') :
    Labelled (values ++ values') (labels ++ labels') (leaves ++ leaves') := by
  obtain ⟨order, ho, hi⟩ := h
  obtain ⟨order', ho', hi'⟩ := h'
  refine ⟨order ++ order', ho.append ho', ?_⟩
  rw [List.map_append]
  exact hi.append hi'

/-- The labels are in no order. -/
theorem perm (h : Labelled values labels leaves) (hp : labels.Perm labels') :
    Labelled values labels' leaves := by
  obtain ⟨order, ho, hi⟩ := h
  exact ⟨order, ho.trans hp, hi⟩

/-- A label may be put anywhere. -/
theorem insert (h : Labelled values labels (front ++ back)) (label : String) :
    Labelled values (label :: labels) (front ++ .symbol label :: back) := by
  obtain ⟨order, ho, hi⟩ := h
  obtain ⟨l₁, l₂, r₁, r₂, rfl, hr, hf, hb⟩ := hi.exists_append
  obtain ⟨o₁, o₂, rfl, rfl, rfl⟩ := List.map_eq_append_iff.1 hr
  refine ⟨o₁ ++ label :: o₂, List.perm_middle.trans (ho.cons label), ?_⟩
  rw [List.map_append]
  exact hf.append (.right _ hb)

end Labelled

/-! ### Leaves and tokens -/

/-- The labels of the forms that the leaders among some tokens introduce. -/
def leaderLabels (w : List Token) : List String :=
  w.filterMap fun token => (Form.ofLeader? token.kind).map Form.label

/-- The tokens that carry a lexeme have these values, one for each. -/
def Denote (w : List Token) (values : List ParseTree) : Prop :=
  Forall₂ (fun token value => token.leaf = .ok value) (w.filter (·.kind.carriesLexeme)) values

/-- The leaves are the values of the tokens, in their order, and the labels. -/
def Accounted (w : List Token) (labels : List String) (leaves : List ParseTree) : Prop :=
  ∃ values, Denote w values ∧ Labelled values labels leaves

/-- The value of a token is a leaf. -/
theorem leaves_of_leaf {token : Token} {t : ParseTree} (h : token.leaf = .ok t) :
    t.leaves = [t] := by
  unfold Token.leaf at h
  split at h
  · cases h
  · split at h
    · split at h
      · cases h
        rfl
      · cases h
    · cases h
      rfl

namespace Accounted

variable {w w' : List Token} {labels labels' : List String}
  {leaves leaves' front back : List ParseTree} {token : Token}

theorem nil : Accounted [] [] [] := ⟨[], .nil, .nil⟩

theorem leaf {t : ParseTree} (hk : token.kind.carriesLexeme = true)
    (ht : token.leaf = .ok t) : Accounted [token] [] t.leaves := by
  rw [leaves_of_leaf ht]
  refine ⟨[t], ?_, .of_values [t]⟩
  have hf : [token].filter (·.kind.carriesLexeme) = [token] := List.filter_cons_of_pos hk
  rw [Denote, hf]
  exact .cons ht .nil

/-- A token without a lexeme is no leaf. -/
theorem bare (hk : token.kind.carriesLexeme = false) : Accounted [token] [] [] := by
  refine ⟨[], ?_, .nil⟩
  have hf : [token].filter (·.kind.carriesLexeme) = [] :=
    List.filter_cons_of_neg (Bool.not_eq_true _ ▸ hk)
  rw [Denote, hf]
  exact .nil

theorem append (h : Accounted w labels leaves) (h' : Accounted w' labels' leaves') :
    Accounted (w ++ w') (labels ++ labels') (leaves ++ leaves') := by
  obtain ⟨values, hv, hl⟩ := h
  obtain ⟨values', hv', hl'⟩ := h'
  refine ⟨values ++ values', ?_, hl.append hl'⟩
  rw [Denote, List.filter_append]
  exact List.rel_append hv hv'

theorem insert (h : Accounted w labels (front ++ back)) (label : String) :
    Accounted w (label :: labels) (front ++ .symbol label :: back) := by
  obtain ⟨values, hv, hl⟩ := h
  exact ⟨values, hv, hl.insert label⟩

end Accounted

theorem leaderLabels_append (w w' : List Token) :
    leaderLabels (w ++ w') = leaderLabels w ++ leaderLabels w' := List.filterMap_append

theorem leaderLabels_cons_leader {f : Form} {leader : Token} (known : f ∈ Form.all)
    (leads : leader.kind = f.leader) (w : List Token) :
    leaderLabels (leader :: w) = f.label :: leaderLabels w := by
  rw [leaderLabels, List.filterMap_cons, Form.ofLeader?_eq_some_iff.2 ⟨known, leads.symm⟩]
  rfl

theorem leaderLabels_cons_other {token : Token} (h : Form.ofLeader? token.kind = none)
    (w : List Token) : leaderLabels (token :: w) = leaderLabels w := by
  rw [leaderLabels, List.filterMap_cons, h]
  rfl

theorem length_leaderLabels (w : List Token) :
    (leaderLabels w).length = w.countP fun token => (Form.ofLeader? token.kind).isSome := by
  rw [leaderLabels, List.length_filterMap_eq_countP]
  simp only [Option.isSome_map]

/-! ### The leaves of phrases -/

namespace Phrase
open Descent

mutual

theorem Expression.accounted : {w : List Token} → {t : ParseTree} → Expression w t →
    Accounted w (leaderLabels w) t.leaves
  | _, _, .number token kind spelled denotes => by
    rw [leaderLabels_cons_other (by rw [kind]; rfl)]
    exact .leaf (by rw [kind]; rfl) (by rw [leaf_number kind spelled, denotes])
  | _, _, .identifier token kind spelled => by
    rw [leaderLabels_cons_other (by rw [kind]; rfl)]
    exact .leaf (by rw [kind]; rfl) (leaf_identifier kind spelled)
  | _, _, .parenthesized opening closing opens body closes => by
    have ho : Accounted [opening] [] [] := .bare (by rw [opens]; rfl)
    have hc : Accounted [closing] [] [] := .bare (by rw [closes]; rfl)
    have hb := ho.append (body.accounted.append hc)
    rw [leaderLabels_cons_other (by rw [opens]; rfl), leaderLabels_append,
      leaderLabels_cons_other (by rw [closes]; rfl)]
    rw [List.append_nil (Tree.leaves _)] at hb
    exact hb

theorem Body.accounted : {w : List Token} → {t : ParseTree} → Body w t →
    Accounted w (leaderLabels w) t.leaves
  | _, _, .form f leader known leads operands => by
    have hb : leader.kind.carriesLexeme = false := leads ▸ Form.carriesLexeme_leader known
    rw [leaderLabels_cons_leader known leads]
    -- The label stands in front of all the leaves of the operands.
    exact Accounted.insert (.append (.bare hb) operands.accounted) f.label
  | _, _, .application items => items.accounted

theorem Operands.accounted : {ops : List Operand} → {w : List Token} → {ts : List ParseTree} →
    Operands ops w ts → Accounted w (leaderLabels w) (Tree.leavesAll ts)
  | _, _, _, .nil => .nil
  | _, _, _, .expression first rest => by
    rw [leaderLabels_append]
    exact first.accounted.append rest.accounted
  | _, _, _, .identifier token kind spelled rest => by
    have ht := Accounted.leaf (by rw [kind]; rfl) (leaf_identifier kind spelled)
    rw [leaderLabels_cons_other (by rw [kind]; rfl)]
    exact ht.append rest.accounted

theorem Items.accounted : {w : List Token} → {ts : List ParseTree} → Items w ts →
    Accounted w (leaderLabels w) (Tree.leavesAll ts)
  | _, _, .nil => .nil
  | _, _, .cons first rest => by
    rw [leaderLabels_append]
    exact first.accounted.append rest.accounted

end

end Phrase

end LispReader
