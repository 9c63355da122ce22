import Mathlib.Algebra.BigOperators.Group.Finset.Basic
import Mathlib.Algebra.Order.BigOperators.Group.Finset

/-!
# Reference counts

Holders refer to resources: `uses i a` is the number of references of the holder `i` to the resource
`a`. A resource may also be set aside for a holder that does not refer to it yet. The reference count of
a resource is the number of all these references (`count`). Each lemma says how the counts change when
references come and go; `alone` and `idle` read off the count who uses a resource.
-/

set_option autoImplicit false

namespace MemoryManagement.Library.RefCount

variable {ι α : Type} {H : Finset ι} {u u' : ι → α → ℕ} {a : α} {i : ι}

theorem uses_le_sum (hi : i ∈ H) : u i a ≤ ∑ j ∈ H, u j a :=
  Finset.single_le_sum (f := fun j => u j a) (fun _ _ => Nat.zero_le _) hi

variable [DecidableEq α] {P : Finset α}

/-- The references of all holders to a resource, and one if it is set aside. -/
def count (holders : Finset ι) (uses : ι → α → ℕ) (aside : Finset α) (a : α) : ℕ :=
  ∑ i ∈ holders, uses i a + if a ∈ aside then 1 else 0

theorem count_congr (h : ∀ i ∈ H, u' i a = u i a) : count H u' P a = count H u P a := by
  rw [count, count, Finset.sum_congr rfl h]

theorem uses_le_count (hi : i ∈ H) : u i a ≤ count H u P a :=
  Nat.le_trans (uses_le_sum hi) (Nat.le_add_right _ _)

/-- Nobody refers to a resource without references. -/
theorem idle (h : count H u P a = 0) : (∀ i ∈ H, u i a = 0) ∧ a ∉ P := by
  rw [count] at h
  constructor
  · intro i hi
    have hle : u i a ≤ ∑ j ∈ H, u j a := uses_le_sum hi
    omega
  · intro ha
    rw [if_pos ha] at h
    omega

/-- A resource that nobody refers to. -/
theorem count_eq_zero (h : ∀ i ∈ H, u i a = 0) (ha : a ∉ P) : count H u P a = 0 := by
  rw [count, if_neg ha, Nat.add_zero]
  exact Finset.sum_eq_zero h

theorem count_le {k : ℕ} (h : ∀ i ∈ H, u i a ≤ k) : count H u P a ≤ H.card * k + 1 := by
  have hsum : ∑ i ∈ H, u i a ≤ ∑ _ ∈ H, k := Finset.sum_le_sum h
  rw [Finset.sum_const_nat fun _ _ => rfl] at hsum
  rw [count]
  split <;> omega

/-! ## Resources that are set aside -/

theorem count_setAside {b : α} (hb : b ∉ P) (a : α) :
    count H u (insert b P) a = count H u P a + if a = b then 1 else 0 := by
  rw [count, count]
  by_cases hab : a = b
  · subst hab
    simp [hb]
  · simp [hab]

theorem count_erase {b : α} (hb : b ∈ P) (a : α) :
    count H u (P.erase b) a + (if a = b then 1 else 0) = count H u P a := by
  conv_rhs => rw [← Finset.insert_erase hb]
  exact (count_setAside (Finset.notMem_erase b P) a).symm

/-! ## Holders that change -/

variable [DecidableEq ι]

/-- The references of one holder change. -/
theorem count_change (hi : i ∈ H) (h : ∀ j ∈ H, j ≠ i → u' j a = u j a) :
    count H u' P a + u i a = count H u P a + u' i a := by
  have hrest : ∑ j ∈ H.erase i, u' j a = ∑ j ∈ H.erase i, u j a := by
    apply Finset.sum_congr rfl
    intro j hj
    obtain ⟨hne, hmem⟩ := Finset.mem_erase.1 hj
    exact h j hmem hne
  have hnew := Finset.add_sum_erase H (fun j => u' j a) hi
  have hold := Finset.add_sum_erase H (fun j => u j a) hi
  rw [count, count]
  omega

/-- A holder comes in. -/
theorem count_insert (hi : i ∉ H) (h : ∀ j ∈ H, u' j a = u j a) :
    count (insert i H) u' P a = count H u P a + u' i a := by
  rw [count, count, Finset.sum_insert hi, Finset.sum_congr rfl h]
  omega

/-- A holder leaves. -/
theorem count_leave (hi : i ∈ H) : count (H.erase i) u P a + u i a = count H u P a := by
  have h := Finset.add_sum_erase H (fun j => u j a) hi
  rw [count, count]
  omega

/-- A holder with all the references to a resource is alone with it. -/
theorem alone (hi : i ∈ H) (h : count H u P a ≤ u i a) : (∀ j ∈ H, j ≠ i → u j a = 0) ∧ a ∉ P := by
  have hsum := Finset.add_sum_erase H (fun j => u j a) hi
  rw [count] at h
  constructor
  · intro j hj hne
    have hle : u j a ≤ ∑ j ∈ H.erase i, u j a := uses_le_sum (Finset.mem_erase.2 ⟨hne, hj⟩)
    omega
  · intro ha
    rw [if_pos ha] at h
    omega

/-- A resource that one holder alone uses. -/
theorem count_of_alone (hi : i ∈ H) (h : ∀ j ∈ H, j ≠ i → u j a = 0) (ha : a ∉ P) :
    count H u P a = u i a := by
  have hsum := Finset.add_sum_erase H (fun j => u j a) hi
  have hrest : ∑ j ∈ H.erase i, u j a = 0 := by
    apply Finset.sum_eq_zero
    intro j hj
    obtain ⟨hne, hmem⟩ := Finset.mem_erase.1 hj
    exact h j hmem hne
  rw [count, if_neg ha]
  omega

end MemoryManagement.Library.RefCount
