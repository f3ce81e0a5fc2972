import LispReader.Kind.Set
import LispReader.Grammar.Symbol

/-! Productions, each with the set of kinds on which it is chosen. -/
namespace LispReader

/-- A variadic production stands for its right-hand side followed by any number of repetitions
of its symbols; no finite right-hand side says this, so that side is never expanded. -/
structure Production where
  id : Int
  lhs : Nonterminal
  rhs : List Symbol
  first : KindSet
  variadic : Bool := false
  deriving DecidableEq

namespace Production

/-- The production is chosen for this nonterminal in front of this kind. -/
def Covers (p : Production) (nt : Nonterminal) (kind : Kind) : Prop := p.lhs = nt ∧ kind ∈ p.first

instance (p : Production) (nt : Nonterminal) (kind : Kind) : Decidable (p.Covers nt kind) :=
  inferInstanceAs (Decidable (_ ∧ _))

/-- No nonterminal and kind are covered by both productions. -/
def Disjoint (p q : Production) : Prop := p.lhs = q.lhs → ∀ kind ∈ q.first.members, kind ∉ p.first

instance (p q : Production) : Decidable (p.Disjoint q) := inferInstanceAs (Decidable (_ → _))

theorem disjoint_iff {p q : Production} :
    p.Disjoint q ↔ ∀ nt kind, ¬ (p.Covers nt kind ∧ q.Covers nt kind) := by
  constructor
  · rintro h nt kind ⟨⟨rfl, hp⟩, hq, hk⟩
    exact h hq.symm kind hk hp
  · intro h hl kind hq hp
    exact h q.lhs kind ⟨⟨hl, hp⟩, rfl, hq⟩

def text (p : Production) : String :=
  let symbols := p.rhs.map Symbol.text
  let body := " ".intercalate symbols
  let repeated := if p.variadic then " " ++ " ".intercalate (symbols.map (· ++ "*")) else ""
  s!"{p.lhs.name} -> {body}{repeated}"

end Production

end LispReader
