import Mathlib.Algebra.Ring.Nat
import Mathlib.Data.List.Nodup
import LispReader.Proofs.Conflicts

/-! Cells of a table.

In a table each cell is covered once or not at all, so a look-up finds all that the list of its
productions has for the cell (`Table.filter_covers`). What else a table answers about its cells can
then be read off the list as well: `Table.ofProductions_exact`. -/
namespace LispReader

/-! ### Lists -/

/-- If no two elements have a property, the first one that has it is the only one. -/
theorem filter_eq_toList_find? {α : Type} {q : α → Bool} {l : List α}
    (h : l.Pairwise fun a b => ¬ (q a = true ∧ q b = true)) : l.filter q = (l.find? q).toList := by
  induction l with
  | nil => rfl
  | cons a l ih =>
    obtain ⟨ha, hl⟩ := List.pairwise_cons.1 h
    by_cases hq : q a = true
    · have hn : l.filter q = [] := List.filter_eq_nil_iff.2 fun b hb hqb => ha b hb ⟨hq, hqb⟩
      rw [List.filter_cons_of_pos hq, hn, List.find?_cons_of_pos hq]
      rfl
    · rw [List.filter_cons_of_neg hq, List.find?_cons_of_neg hq, ih hl]

theorem eraseDups_of_nodup {α : Type} [DecidableEq α] {l : List α} (h : l.Nodup) :
    l.eraseDups = l := by
  induction l with
  | nil => rfl
  | cons a l ih =>
    obtain ⟨ha, hl⟩ := List.nodup_cons.1 h
    have hf : l.filter (fun b => !b == a) = l := by
      apply List.filter_eq_self.2
      intro b hb
      simpa using ne_of_mem_of_not_mem hb ha
    rw [List.eraseDups_cons, hf, ih hl]

/-! ### Covered cells -/

namespace Production

/-- The cells that a production covers. -/
def cells (p : Production) : List (Nonterminal × Kind) := p.first.members.map (p.lhs, ·)

theorem mem_cells {p : Production} {nt : Nonterminal} {kind : Kind} :
    (nt, kind) ∈ p.cells ↔ p.Covers nt kind := by
  simp only [cells, List.mem_map, Prod.mk.injEq, Covers]
  constructor
  · rintro ⟨k, hk, hl, rfl⟩
    exact ⟨hl, hk⟩
  · rintro ⟨hl, hk⟩
    exact ⟨kind, hk, hl, rfl⟩

theorem length_cells (p : Production) : p.cells.length = p.first.size := List.length_map _

end Production

namespace Table

/-- A look-up finds all productions that cover the cell. -/
theorem filter_covers (t : Table) (nt : Nonterminal) (kind : Kind) :
    t.rules.filter (·.Covers nt kind) = (t.lookup nt kind).toList := by
  apply filter_eq_toList_find?
  apply t.disjoint.imp
  intro p q hd
  simpa using Production.disjoint_iff.1 hd nt kind

theorem mem_expected {t : Table} {nt : Nonterminal} {kind : Kind} :
    kind ∈ t.expected nt ↔ t.lookup nt kind ≠ none := by
  rw [expected, List.mem_filter, Option.isSome_iff_ne_none]
  exact and_iff_right kind.mem_all

theorem pairwise_expected (t : Table) (nt : Nonterminal) :
    (t.expected nt).Pairwise (ListedBefore Kind.all) := Kind.pairwise_all.filter _

theorem mem_rows {t : Table} {nt : Nonterminal} {kind : Kind} {id : Int} :
    (nt, kind, id) ∈ t.rows ↔ ∃ p, t.lookup nt kind = some p ∧ p.id = id := by
  simp only [rows, List.mem_flatMap, List.mem_filterMap, Nonterminal.mem_all, Kind.mem_all,
    true_and, Option.map_eq_some_iff]
  constructor
  · rintro ⟨nt', kind', p, hp, he⟩
    cases he
    exact ⟨p, hp, rfl⟩
  · rintro ⟨p, hp, rfl⟩
    exact ⟨nt, kind, p, hp, rfl⟩

/-- The order of rows: by nonterminal, and then by kind. -/
def RowBefore : Nonterminal × Kind × Int → Nonterminal × Kind × Int → Prop
  | (nt, kind, _), (nt', kind', _) =>
    ListedBefore Nonterminal.all nt nt' ∨ nt = nt' ∧ ListedBefore Kind.all kind kind'

theorem pairwise_rows (t : Table) : t.rows.Pairwise RowBefore := by
  rw [rows, List.pairwise_flatMap]
  constructor
  · intro nt _
    rw [List.pairwise_filterMap]
    apply Kind.pairwise_all.imp
    intro kind kind' hlt row hrow row' hrow'
    obtain ⟨p, -, rfl⟩ := Option.map_eq_some_iff.1 hrow
    obtain ⟨p', -, rfl⟩ := Option.map_eq_some_iff.1 hrow'
    exact .inr ⟨rfl, hlt⟩
  · apply Nonterminal.pairwise_all.imp
    intro nt nt' hlt row hrow row' hrow'
    obtain ⟨kind, -, hk⟩ := List.mem_filterMap.1 hrow
    obtain ⟨kind', -, hk'⟩ := List.mem_filterMap.1 hrow'
    obtain ⟨p, -, rfl⟩ := Option.map_eq_some_iff.1 hk
    obtain ⟨p', -, rfl⟩ := Option.map_eq_some_iff.1 hk'
    exact .inl hlt

/-! ### Size -/

/-- No cell is covered twice. -/
theorem nodup_cells (t : Table) : (t.rules.flatMap Production.cells).Nodup := by
  rw [List.nodup_flatMap]
  constructor
  · intro p _
    exact p.first.nodup_members.map fun _ _ h => (Prod.mk.inj h).2
  · apply t.disjoint.imp
    intro p q hd cell hp hq
    have hpc := Production.mem_cells.1 hp
    have hqc := Production.mem_cells.1 hq
    exact Production.disjoint_iff.1 hd cell.1 cell.2 ⟨hpc, hqc⟩

theorem nodup_rowCells (t : Table) : (t.rows.map fun row => (row.1, row.2.1)).Nodup := by
  rw [List.Nodup, List.pairwise_map]
  apply t.pairwise_rows.imp
  intro row row' h he
  obtain ⟨hn, hk⟩ := Prod.mk.inj he
  rcases h with hlt | ⟨-, hlt⟩
  · rw [hn] at hlt
    exact Nat.lt_irrefl _ hlt
  · rw [hk] at hlt
    exact Nat.lt_irrefl _ hlt

/-- The cells of the rows are those that the productions cover. -/
theorem perm_rowCells (t : Table) :
    (t.rows.map fun row => (row.1, row.2.1)).Perm (t.rules.flatMap Production.cells) := by
  rw [List.perm_ext_iff_of_nodup t.nodup_rowCells t.nodup_cells]
  intro (nt, kind)
  constructor
  · intro h
    obtain ⟨⟨nt', kind', id⟩, hrow, he⟩ := List.mem_map.1 h
    cases he
    obtain ⟨p, hp, -⟩ := mem_rows.1 hrow
    obtain ⟨hm, hc⟩ := lookup_eq_some_iff.1 hp
    exact List.mem_flatMap.2 ⟨p, hm, Production.mem_cells.2 hc⟩
  · intro h
    obtain ⟨p, hm, hc⟩ := List.mem_flatMap.1 h
    have hp := lookup_eq_some_iff.2 ⟨hm, Production.mem_cells.1 hc⟩
    exact List.mem_map.2 ⟨(nt, kind, p.id), mem_rows.2 ⟨p, hp, rfl⟩, rfl⟩

theorem size_eq_sum (t : Table) : t.size = (t.rules.map (·.first.size)).sum := by
  have hl := t.perm_rowCells.length_eq
  rw [List.length_map, List.length_flatMap] at hl
  simp only [Production.length_cells] at hl
  exact hl

/-! ### Numbers -/

/-- With a number of its own, a production is found by it. -/
theorem production?_id {t : Table} (h : (t.rules.map (·.id)).Nodup) {p : Production}
    (hp : p ∈ t.rules) : t.production? p.id = some p := by
  rw [production?]
  cases hf : t.rules.reverse.find? (·.id = p.id) with
  | none =>
    have hn := List.find?_eq_none.1 hf p (List.mem_reverse.2 hp)
    exact absurd (decide_eq_true rfl) hn
  | some q =>
    have hq : q ∈ t.rules := List.mem_reverse.1 (List.mem_of_find?_eq_some hf)
    have hid : q.id = p.id := by simpa using List.find?_some hf
    rw [List.inj_on_of_nodup_map h hq hp hid]

theorem productions_eq_rules {t : Table} (h : (t.rules.map (·.id)).Nodup) :
    t.productions = t.rules := by
  have hf : ∀ p ∈ t.rules, (t.production? ∘ (·.id)) p = some p := fun p => production?_id h
  rw [productions, eraseDups_of_nodup h, List.filterMap_map, List.filterMap_congr hf,
    List.filterMap_some]

/-! ### Answers -/

/-- The answers that the table of a list of productions gives. -/
structure Answers (t : Table) (rules : List Production) : Prop where
  /-- A look-up gives the only production of the list that covers the cell. -/
  lookup : ∀ nt kind p, t.lookup nt kind = some p ↔ rules.filter (·.Covers nt kind) = [p]
  lookup_none : ∀ nt kind, t.lookup nt kind = none ↔ ∀ p ∈ rules, ¬ p.Covers nt kind
  mem_expected : ∀ nt kind, kind ∈ t.expected nt ↔ t.lookup nt kind ≠ none
  expected : ∀ nt, (t.expected nt).Pairwise (ListedBefore Kind.all)
  mem_rows : ∀ nt kind id, (nt, kind, id) ∈ t.rows ↔ ∃ p, t.lookup nt kind = some p ∧ p.id = id
  rows : t.rows.Pairwise RowBefore
  size : t.size = (rules.map (·.first.size)).sum
  /-- If all numbers differ, the productions that the table lists make it again. -/
  rebuilt : (rules.map (·.id)).Nodup → ofProductions t.productions = .ok t

theorem answers (t : Table) : t.Answers t.rules where
  lookup nt kind p := by
    rw [filter_covers]
    exact Option.toList_eq_singleton_iff.symm
  lookup_none nt kind := by
    rw [← Option.toList_eq_nil_iff, ← filter_covers, List.filter_eq_nil_iff]
    simp only [decide_eq_true_eq]
  mem_expected _ _ := Table.mem_expected
  expected := t.pairwise_expected
  mem_rows _ _ _ := Table.mem_rows
  rows := t.pairwise_rows
  size := t.size_eq_sum
  rebuilt h := by
    rw [productions_eq_rules h]
    exact ofProductions_of_pairwise t.disjoint

/-- A list of productions is refused just if two of its places clash, and then for the earliest
clash. Otherwise its table answers from the list. -/
theorem ofProductions_exact (rules : List Production) :
    ((∃ c, ofProductions rules = .error c) ↔
        ∃ i j kind p q, i ≠ j ∧ Clash rules i j kind p q) ∧
      match ofProductions rules with
      | .error c => ∃ i j p q, c.Names rules i j p q
      | .ok t => t.Answers rules := by
  cases h : ofProductions rules with
  | error c =>
    obtain ⟨i, j, p, q, hn⟩ := Conflict.exists_names h
    have hc : ∃ i j kind p q, i ≠ j ∧ Clash rules i j kind p q :=
      ⟨i, j, c.kind, p, q, Nat.ne_of_lt hn.lt, hn.clash⟩
    exact ⟨⟨fun _ => hc, fun _ => ⟨c, rfl⟩⟩, i, j, p, q, hn⟩
  | ok t =>
    obtain rfl := rules_of_ofProductions h
    refine ⟨⟨nofun, ?_⟩, t.answers⟩
    rintro ⟨i, j, kind, p, q, hij, hc⟩
    exact absurd (hc.eq t.disjoint) hij

example : conflict? []
    [{ id := 1, lhs := .expression, rhs := [], first := .ofList [.plus, .number] },
      { id := 2, lhs := .parenBody, rhs := [], first := .ofList [.plus] },
      { id := 3, lhs := .expression, rhs := [], first := .ofList [.plus, .number, .minus] }] =
    some ⟨1, 3, .expression, .number⟩ := by decide

end Table

end LispReader
