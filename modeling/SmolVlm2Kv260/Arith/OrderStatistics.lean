import Mathlib.Data.List.Sort

/-!
# Order statistics

The elements of a list by rank, and how many elements of the list are at most as large as the
one of a given rank.
-/

set_option autoImplicit false

namespace OrderStatistics

variable {α : Type*} [LinearOrder α]

/-! ### Sorted lists -/

/-- In a sorted list the elements up to position `i` are at most as large as the one at `i`;
it remains to count those after it. -/
theorem countP_le_getElem {l : List α} (hl : l.SortedLE) {i : ℕ} (hi : i < l.length) :
  l.countP (· ≤ l[i]) = i + 1 + (l.drop (i + 1)).countP (· ≤ l[i])
  := by
  have first_le : ∀ x ∈ l.take (i + 1), decide (x ≤ l[i]) = true := by
    intro x hx
    obtain ⟨j, hj, rfl⟩ := List.mem_take_iff_getElem.mp hx
    apply decide_eq_true
    apply hl.getElem_le_getElem_of_le
    omega
  have length_first : (l.take (i + 1)).length = i + 1 := by
    rw [List.length_take]
    omega
  calc
    l.countP (· ≤ l[i])
      = (l.take (i + 1)).countP (· ≤ l[i]) + (l.drop (i + 1)).countP (· ≤ l[i]) := by
        rw [← List.countP_append, List.take_append_drop]
    _ = i + 1 + (l.drop (i + 1)).countP (· ≤ l[i]) := by
        rw [List.countP_eq_length.mpr first_le, length_first]

/-- No element after position `i` is as small as the one at `i` when the next one is larger. -/
theorem countP_drop_eq_zero_iff {l : List α} (hl : l.SortedLE) {i : ℕ} (hi : i + 1 < l.length) :
  (l.drop (i + 1)).countP (· ≤ l[i]) = 0 ↔ l[i] < l[i + 1]
  := by
  rw [List.countP_eq_zero]
  constructor
  · intro h
    have next_mem : l[i + 1] ∈ l.drop (i + 1) :=
      List.mem_drop_iff_getElem.mpr ⟨0, by omega, rfl⟩
    simpa using h _ next_mem
  · intro h x hx
    obtain ⟨j, hj, rfl⟩ := List.mem_drop_iff_getElem.mp hx
    have next_le : l[i + 1] ≤ l[i + 1 + j] :=
      hl.getElem_le_getElem_of_le (Nat.le_add_right (i + 1) j)
    simpa using lt_of_lt_of_le h next_le

/-! ### Elements by rank -/

/-- The element of rank `i`: with the ranks counted from zero, the `i`-th smallest. -/
def ranked (l : List α) (i : Fin l.length) : α :=
  (l.insertionSort (· ≤ ·)).get (i.cast (List.length_insertionSort (· ≤ ·) l).symm)

/-- Elements of a list are counted in any order. -/
theorem countP_insertionSort (l : List α) (p : α → Bool) :
  (l.insertionSort (· ≤ ·)).countP p = l.countP p
  := (List.perm_insertionSort (· ≤ ·) l).countP_eq p

/-- More than `i` elements are at most as large as the one of rank `i`. -/
theorem rank_lt_countP (l : List α) (i : Fin l.length) :
  i.val < l.countP (· ≤ ranked l i)
  := by
  rw [← countP_insertionSort]
  have counted := countP_le_getElem (List.sortedLE_insertionSort (l := l))
    (i.cast (List.length_insertionSort (· ≤ ·) l).symm).isLt
  apply lt_of_lt_of_le (Nat.lt_succ_self i)
  apply le_of_le_of_eq (Nat.le_add_right _ _) counted.symm

/-- Exactly the elements of ranks up to `i` are at most as large as the one of rank `i`, when
the element of the next rank is larger. -/
theorem countP_le_ranked_iff (l : List α) {i : ℕ} (hi : i + 1 < l.length) :
  l.countP (· ≤ ranked l ⟨i, Nat.lt_of_succ_lt hi⟩) ≤ i + 1
    ↔ ranked l ⟨i, Nat.lt_of_succ_lt hi⟩ < ranked l ⟨i + 1, hi⟩
  := by
  have hs : i + 1 < (l.insertionSort (· ≤ ·)).length := by
    rwa [List.length_insertionSort]
  have counted := countP_le_getElem (List.sortedLE_insertionSort (l := l))
    (Nat.lt_of_succ_lt hs)
  have none_after := countP_drop_eq_zero_iff (List.sortedLE_insertionSort (l := l)) hs
  rw [← countP_insertionSort]
  change (l.insertionSort (· ≤ ·)).countP (· ≤ (l.insertionSort (· ≤ ·))[i]) ≤ i + 1 ↔
    (l.insertionSort (· ≤ ·))[i] < (l.insertionSort (· ≤ ·))[i + 1]
  rw [counted, ← none_after]
  omega

end OrderStatistics
