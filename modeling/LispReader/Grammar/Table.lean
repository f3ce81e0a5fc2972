import LispReader.Grammar.Production

/-! Parse tables.

A table is a list of productions of which no two cover the same cell, a cell being a nonterminal
and the kind of the next token. So a cell is covered by one production or by none. -/
namespace LispReader

/-- Two productions that cover a cell: the one that came first and the one that came later. -/
structure Conflict where
  owner : Int
  intruder : Int
  lhs : Nonterminal
  kind : Kind
  deriving DecidableEq, Repr

def Conflict.message (c : Conflict) : String :=
  s!"productions {Numeral.write c.owner} and {Numeral.write c.intruder} both expand " ++
    s!"{c.lhs.name} on {c.kind.name}"

structure Table where
  rules : List Production
  disjoint : rules.Pairwise Production.Disjoint

namespace Table

/-! ### Construction -/

/-- The first kind on which a production meets one of the earlier ones. -/
def conflictWith? (earlier : List Production) (p : Production) : Option Conflict :=
  p.first.members.findSome? fun kind =>
    (earlier.find? (·.Covers p.lhs kind)).map fun owner => ⟨owner.id, p.id, p.lhs, kind⟩

/-- The conflict of the first production that meets one before it. -/
def conflict? (earlier : List Production) : List Production → Option Conflict
  | [] => none
  | p :: rest => (conflictWith? earlier p).or (conflict? (earlier ++ [p]) rest)

theorem disjoint_of_conflictWith?_eq_none {earlier : List Production} {p : Production}
    (h : conflictWith? earlier p = none) : ∀ q ∈ earlier, q.Disjoint p := by
  intro q hq hl kind hk hkq
  have := List.findSome?_eq_none_iff.1 h kind hk
  simp only [Option.map_eq_none_iff, List.find?_eq_none, decide_eq_true_eq] at this
  exact this q hq ⟨hl, hkq⟩

theorem pairwise_of_conflict?_eq_none {earlier rules : List Production}
    (he : earlier.Pairwise Production.Disjoint) (h : conflict? earlier rules = none) :
    (earlier ++ rules).Pairwise Production.Disjoint := by
  induction rules generalizing earlier with
  | nil => simpa using he
  | cons p rest ih =>
    obtain ⟨hp, hr⟩ := Option.or_eq_none_iff.1 h
    have : (earlier ++ [p]).Pairwise Production.Disjoint :=
      List.pairwise_append.2 ⟨he, List.pairwise_singleton _ _, fun q hq r hr =>
        List.mem_singleton.1 hr ▸ disjoint_of_conflictWith?_eq_none hp q hq⟩
    simpa using ih this hr

/-- The table of the given productions, or their first conflict: of the earliest production that
meets one before it, on the first kind in the order of kinds. -/
def ofProductions (rules : List Production) : Except Conflict Table :=
  match h : conflict? [] rules with
  | some conflict => .error conflict
  | none => .ok ⟨rules, by simpa using pairwise_of_conflict?_eq_none List.Pairwise.nil h⟩

/-! ### Look-up -/

/-- The production that covers a cell. -/
def lookup (t : Table) (nt : Nonterminal) (kind : Kind) : Option Production :=
  t.rules.find? (·.Covers nt kind)

/-- The kinds in front of which a nonterminal can be expanded. -/
def expected (t : Table) (nt : Nonterminal) : List Kind :=
  Kind.all.filter fun kind => (t.lookup nt kind).isSome

/-- The last production with a given number. -/
def production? (t : Table) (id : Int) : Option Production := t.rules.reverse.find? (·.id = id)

/-- One production for each number: the last one, at the place of the first one. -/
def productions (t : Table) : List Production :=
  (t.rules.map (·.id)).eraseDups.filterMap t.production?

/-- The covered cells, each with the number of its production, ordered by nonterminal and then
by kind. -/
def rows (t : Table) : List (Nonterminal × Kind × Int) :=
  Nonterminal.all.flatMap fun nt => Kind.all.filterMap fun kind =>
    (t.lookup nt kind).map fun p => (nt, kind, p.id)

/-- The number of covered cells. -/
def size (t : Table) : Nat := t.rows.length

theorem lookup_eq_some_iff {t : Table} {nt : Nonterminal} {kind : Kind} {p : Production} :
    t.lookup nt kind = some p ↔ p ∈ t.rules ∧ p.Covers nt kind := by
  obtain ⟨rules, hd⟩ := t
  simp only [lookup]
  induction rules with
  | nil => simp
  | cons q rest ih =>
    obtain ⟨hq, hd⟩ := List.pairwise_cons.1 hd
    simp only [List.find?_cons, List.mem_cons]
    by_cases hc : q.Covers nt kind
    · simp only [hc, decide_true, Option.some.injEq]
      constructor
      · rintro rfl
        exact ⟨.inl rfl, hc⟩
      · rintro ⟨rfl | hp, hpc⟩
        · rfl
        · exact absurd ⟨hc, hpc⟩ (Production.disjoint_iff.1 (hq p hp) nt kind)
    · simp only [hc, decide_false, ih hd]
      constructor
      · rintro ⟨hp, hpc⟩
        exact ⟨.inr hp, hpc⟩
      · rintro ⟨rfl | hp, hpc⟩
        · exact absurd hpc hc
        · exact ⟨hp, hpc⟩

end Table

end LispReader
