import LispReader.Grammar.Table

/-! Conflicts.

Two productions clash if they stand at different places of a list, expand the same nonterminal and
are both chosen on some kind. A list in which no places clash makes a table. Any other list is
refused for the earliest production that clashes with one before it, on the least kind on which it
does: `Conflict.exists_names`. -/
namespace LispReader

/-! ### Order -/

/-- The first element stands in front of the second one in the list. -/
def ListedBefore {α : Type} [DecidableEq α] (order : List α) (a b : α) : Prop :=
  order.idxOf a < order.idxOf b

instance {α : Type} [DecidableEq α] (order : List α) (a b : α) :
    Decidable (ListedBefore order a b) := inferInstanceAs (Decidable (_ < _))

theorem Kind.pairwise_all : all.Pairwise (ListedBefore all) := by decide

theorem Nonterminal.pairwise_all : all.Pairwise (ListedBefore all) := by decide

theorem KindSet.pairwise_members (s : KindSet) : s.members.Pairwise (ListedBefore Kind.all) := by
  rw [s.members_eq]
  exact Kind.pairwise_all.filter _

/-! ### Lists without clashes -/

namespace Table

theorem conflictWith?_eq_none {earlier : List Production} {p : Production}
    (h : ∀ q ∈ earlier, q.Disjoint p) : conflictWith? earlier p = none := by
  refine List.findSome?_eq_none_iff.2 fun kind hk => ?_
  rw [Option.map_eq_none_iff, List.find?_eq_none]
  intro q hq hc
  obtain ⟨hl, hkq⟩ := of_decide_eq_true hc
  exact h q hq hl kind hk hkq

theorem conflict?_eq_none {earlier rules : List Production}
    (h : (earlier ++ rules).Pairwise Production.Disjoint) : conflict? earlier rules = none := by
  induction rules generalizing earlier with
  | nil => rfl
  | cons p rest ih =>
    have hp : conflictWith? earlier p = none := conflictWith?_eq_none fun q hq =>
      (List.pairwise_append.1 h).2.2 q hq p List.mem_cons_self
    rw [conflict?, hp, Option.none_or]
    exact ih (by simpa using h)

/-- Productions without conflicts make a table. -/
theorem ofProductions_of_pairwise {rules : List Production}
    (h : rules.Pairwise Production.Disjoint) : ofProductions rules = .ok ⟨rules, h⟩ := by
  have hn : conflict? [] rules = none := conflict?_eq_none h
  unfold ofProductions
  split
  · next hc => cases hn.symm.trans hc
  · rfl

theorem rules_of_ofProductions {rules : List Production} {t : Table}
    (h : ofProductions rules = .ok t) : t.rules = rules := by
  unfold ofProductions at h
  split at h
  · cases h
  · cases h
    rfl

theorem conflict?_of_ofProductions {rules : List Production} {c : Conflict}
    (h : ofProductions rules = .error c) : conflict? [] rules = some c := by
  unfold ofProductions at h
  split at h
  · next hc =>
    cases h
    exact hc
  · cases h

/-! ### The first conflict -/

/-- A production meets one of the earlier ones on this kind, and on no kind before it. -/
structure Meets (earlier : List Production) (p : Production) (c : Conflict) : Prop where
  mem_first : c.kind ∈ p.first
  exists_owner : ∃ owner ∈ earlier, owner.Covers p.lhs c.kind ∧ c.owner = owner.id
  intruder : c.intruder = p.id
  lhs : c.lhs = p.lhs
  least : ∀ kind ∈ p.first, ListedBefore Kind.all kind c.kind →
    ∀ q ∈ earlier, ¬ q.Covers p.lhs kind

theorem meets_of_conflictWith? {earlier : List Production} {p : Production} {c : Conflict}
    (h : conflictWith? earlier p = some c) : Meets earlier p c := by
  obtain ⟨before, kind, behind, hm, hk, hb⟩ := List.findSome?_eq_some_iff.1 h
  obtain ⟨owner, ho, rfl⟩ := Option.map_eq_some_iff.1 hk
  have hpair := p.first.pairwise_members
  rw [hm] at hpair
  refine ⟨?_, ⟨owner, List.mem_of_find?_eq_some ho, by simpa using List.find?_some ho, rfl⟩,
    rfl, rfl, ?_⟩
  · show kind ∈ p.first.members
    rw [hm]
    exact List.mem_append_cons_self
  · intro k hkp hlt q hq hc
    have hkm : k ∈ before ++ kind :: behind := hm ▸ hkp
    rcases List.mem_append.1 hkm with hbefore | hcons
    · -- The search went on at the kinds before, so no earlier production covers them.
      have hn := hb k hbefore
      rw [Option.map_eq_none_iff, List.find?_eq_none] at hn
      exact hn q hq (decide_eq_true hc)
    rcases List.mem_cons.1 hcons with rfl | hbehind
    · exact Nat.lt_irrefl _ hlt
    · have hgt := (List.pairwise_cons.1 (List.pairwise_append.1 hpair).2.1).1 k hbehind
      exact Nat.lt_asymm hlt hgt

/-- The list is refused for the production behind its longest part without conflicts. -/
theorem exists_of_conflict? {earlier rules : List Production} {c : Conflict}
    (he : earlier.Pairwise Production.Disjoint) (h : conflict? earlier rules = some c) :
    ∃ front p back, rules = front ++ p :: back ∧
      (earlier ++ front).Pairwise Production.Disjoint ∧ Meets (earlier ++ front) p c := by
  induction rules generalizing earlier with
  | nil => cases h
  | cons p rest ih =>
    rw [conflict?] at h
    cases hw : conflictWith? earlier p with
    | some c' =>
      rw [hw] at h
      cases h
      refine ⟨[], p, rest, rfl, ?_, ?_⟩
      · rwa [List.append_nil]
      · rw [List.append_nil]
        exact meets_of_conflictWith? hw
    | none =>
      rw [hw, Option.none_or] at h
      have hn : conflict? earlier [p] = none := by rw [conflict?, hw]; rfl
      obtain ⟨front, q, back, hr, hd, hm⟩ := ih (pairwise_of_conflict?_eq_none he hn) h
      rw [List.append_assoc] at hd hm
      exact ⟨p :: front, q, back, by rw [hr]; rfl, hd, hm⟩

/-! ### Places of a list -/

/-- At these places of the list stand two productions of the same nonterminal that are both chosen
on this kind. -/
structure Clash (rules : List Production) (i j : Nat) (kind : Kind) (p q : Production) : Prop where
  left : rules[i]? = some p
  right : rules[j]? = some q
  lhs : p.lhs = q.lhs
  mem_left : kind ∈ p.first
  mem_right : kind ∈ q.first

section

variable {rules front back : List Production} {i j : Nat} {kind : Kind} {p q : Production}

theorem Clash.symm (h : Clash rules i j kind p q) : Clash rules j i kind q p :=
  ⟨h.right, h.left, h.lhs.symm, h.mem_right, h.mem_left⟩

/-- A part without conflicts in front has no clash in it. -/
theorem Clash.length_le (h : Clash (front ++ back) i j kind p q) (hij : i < j)
    (hd : front.Pairwise Production.Disjoint) : front.length ≤ j := by
  apply Nat.le_of_not_lt
  intro hj
  have hi : front[i]? = some p := by
    rw [← h.left, List.getElem?_append_left (by omega)]
  have hj' : front[j]? = some q := by
    rw [← h.right, List.getElem?_append_left hj]
  obtain ⟨_, rfl⟩ := List.getElem?_eq_some_iff.1 hi
  obtain ⟨_, rfl⟩ := List.getElem?_eq_some_iff.1 hj'
  exact List.pairwise_iff_getElem.1 hd i j _ _ hij h.lhs kind h.mem_right h.mem_left

theorem Clash.not_lt (h : Clash rules i j kind p q)
    (hd : rules.Pairwise Production.Disjoint) : ¬ i < j := by
  intro hij
  obtain ⟨hj, -⟩ := List.getElem?_eq_some_iff.1 h.right
  rw [← List.append_nil rules] at h
  exact absurd (h.length_le hij hd) (Nat.not_le_of_lt hj)

/-- In a list without conflicts no two places clash. -/
theorem Clash.eq (h : Clash rules i j kind p q) (hd : rules.Pairwise Production.Disjoint) :
    i = j :=
  Nat.le_antisymm (Nat.le_of_not_lt (h.symm.not_lt hd)) (Nat.le_of_not_lt (h.not_lt hd))

end

end Table

/-! ### The conflict that is told -/

open Table (Clash)

/-- The conflict is that of the productions at these places. The second place is the earliest one
whose production clashes with one before it, and the kind is the least one on which it does. -/
structure Conflict.Names (c : Conflict) (rules : List Production) (i j : Nat)
    (p q : Production) : Prop where
  lt : i < j
  clash : Clash rules i j c.kind p q
  owner : c.owner = p.id
  intruder : c.intruder = q.id
  lhs : c.lhs = q.lhs
  earliest : ∀ i' j' kind p' q', i' < j' → Clash rules i' j' kind p' q' → j ≤ j'
  least : ∀ i' kind p', i' < j → Clash rules i' j kind p' q →
    ¬ ListedBefore Kind.all kind c.kind
  message : c.message =
    s!"productions {Numeral.write p.id} and {Numeral.write q.id} both expand " ++
      s!"{q.lhs.name} on {c.kind.name}"

theorem Conflict.exists_names {rules : List Production} {c : Conflict}
    (h : Table.ofProductions rules = .error c) : ∃ i j p q, c.Names rules i j p q := by
  obtain ⟨front, q, back, rfl, hd, hm⟩ :=
    Table.exists_of_conflict? List.Pairwise.nil (Table.conflict?_of_ofProductions h)
  rw [List.nil_append] at hd hm
  obtain ⟨p, hp, ⟨hl, hk⟩, hid⟩ := hm.exists_owner
  obtain ⟨i, hi, hget⟩ := List.getElem_of_mem hp
  have hleft : (front ++ q :: back)[i]? = some p := by
    rw [List.getElem?_append_left hi, List.getElem?_eq_some_iff]
    exact ⟨hi, hget⟩
  have hright : (front ++ q :: back)[front.length]? = some q := by
    rw [List.getElem?_append_right (Nat.le_refl _), Nat.sub_self]
    rfl
  refine ⟨i, front.length, p, q, hi, ⟨hleft, hright, hl, hk, hm.mem_first⟩, hid, hm.intruder,
    hm.lhs, ?_, ?_, ?_⟩
  · intro i' j' kind p' q' hlt hc
    exact hc.length_le hlt hd
  · intro i' kind p' hlt hc hb
    have hp' : front[i']? = some p' := by
      rw [← List.getElem?_append_left hlt]
      exact hc.left
    exact hm.least kind hc.mem_right hb p' (List.mem_of_getElem? hp') ⟨hc.lhs, hc.mem_left⟩
  · rw [← hid, ← hm.intruder, ← hm.lhs]
    rfl

end LispReader
