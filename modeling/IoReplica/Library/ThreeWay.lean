import Mathlib.Data.Finset.SymmDiff

/-! Three-way merges of sets: each side is read as what it changed of a common base. -/
namespace ThreeWay
variable {α : Type} [DecidableEq α] {b l r : Finset α}

/-- The set two sides of one base agree on: what both hold, and what either added. -/
def merge (b l r : Finset α) : Finset α := (l ∩ r) ∪ (l \ b) ∪ (r \ b)

theorem mem_merge {x : α} :
    x ∈ merge b l r ↔ (x ∈ l ∧ x ∈ r) ∨ (x ∈ l ∧ x ∉ b) ∨ (x ∈ r ∧ x ∉ b) := by
  simp only [merge, Finset.mem_union, Finset.mem_inter, Finset.mem_sdiff, or_assoc]

/-- What a merge changed of its base is what either side changed of it. -/
theorem symmDiff_merge (b l r : Finset α) :
    symmDiff (merge b l r) b = symmDiff l b ∪ symmDiff r b := by
  ext x
  simp only [Finset.mem_symmDiff, mem_merge, Finset.mem_union]
  tauto

/-- Sets that changed the same of a base are the same. -/
theorem eq_of_symmDiff (h : symmDiff l b = symmDiff r b) : l = r := symmDiff_left_injective b h

theorem merge_comm (b l r : Finset α) : merge b l r = merge b r l := by
  apply eq_of_symmDiff (b := b)
  rw [symmDiff_merge, symmDiff_merge, Finset.union_comm]

theorem merge_assoc (b l m r : Finset α) :
    merge b (merge b l m) r = merge b l (merge b m r) := by
  apply eq_of_symmDiff (b := b)
  simp only [symmDiff_merge, Finset.union_assoc]

@[simp] theorem merge_idem (b l : Finset α) : merge b l l = l := by
  apply eq_of_symmDiff (b := b)
  rw [symmDiff_merge, Finset.union_self]

/-- The base changed nothing of itself. -/
@[simp] theorem merge_base (b r : Finset α) : merge b b r = r := by
  apply eq_of_symmDiff (b := b)
  rw [symmDiff_merge, symmDiff_self, Finset.bot_eq_empty, Finset.empty_union]

end ThreeWay
