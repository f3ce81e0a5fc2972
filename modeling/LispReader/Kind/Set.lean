import LispReader.Kind

/-! Sets of token kinds, listed in the order of the kinds and without repetition. -/
namespace LispReader

/-- A set of kinds. Its list of members is determined by its elements. -/
structure KindSet where
  members : List Kind
  members_eq : members = Kind.all.filter (· ∈ members)
  deriving DecidableEq

namespace KindSet

instance : Membership Kind KindSet := ⟨fun s k => k ∈ s.members⟩

instance (k : Kind) (s : KindSet) : Decidable (k ∈ s) := inferInstanceAs (Decidable (k ∈ s.members))

theorem mem_members {k : Kind} {s : KindSet} : k ∈ s.members ↔ k ∈ s := Iff.rfl

/-- The kinds of a list. -/
def ofList (kinds : List Kind) : KindSet where
  members := Kind.all.filter (· ∈ kinds)
  members_eq := by
    apply List.filter_congr
    simp

@[simp] theorem mem_ofList {k : Kind} {kinds : List Kind} : k ∈ ofList kinds ↔ k ∈ kinds := by
  simp [← mem_members, ofList]

theorem ext {s t : KindSet} (h : ∀ k, k ∈ s ↔ k ∈ t) : s = t := by
  cases s with | mk ms hs
  cases t with | mk mt ht
  congr 1
  rw [hs, ht]
  exact List.filter_congr fun k _ => decide_eq_decide.2 (h k)

theorem nodup_members (s : KindSet) : s.members.Nodup := by
  rw [s.members_eq]
  exact Kind.nodup_all.filter _

/-- The number of kinds in the set. -/
def size (s : KindSet) : Nat := s.members.length

end KindSet

end LispReader
