import Mathlib.Algebra.Order.Ring.Rat
import Mathlib.Data.List.Sort
import Mathlib.Tactic.Linarith

/-!
# Quantiles of a list

A `p`-quantile of a list splits it by counting: a share of at least `p` of the elements is at most
the quantile, and a share of at least `1 - p` is at least it. In a sorted list the element at index
`i` is a quantile for every `p` whose rank `p * n` lies between `i` and `i + 1`.

* **`isQuantile_getElem`**: elements of a sorted list as quantiles.
* **`insertionSort_eq_of_perm`**: sorting forgets the order.
-/

namespace Quantile

variable {α : Type*} [LinearOrder α]

/-- At least `p * n` elements are `≤ v` and at least `(1 - p) * n` elements are `≥ v`. -/
def IsQuantile (l : List α) (p : ℚ) (v : α) : Prop :=
  p * l.length ≤ l.countP (· ≤ v) ∧ (1 - p) * l.length ≤ l.countP (v ≤ ·)

/-- Being a quantile does not depend on the order of the samples. -/
theorem IsQuantile.perm {l l' : List α} {p : ℚ} {v : α} (h : IsQuantile l p v) (hperm : l.Perm l') :
    IsQuantile l' p v := by
  unfold IsQuantile
  rw [← hperm.length_eq, ← hperm.countP_eq, ← hperm.countP_eq]
  exact h

/-- Up to index `i` a sorted list stays below its element there. -/
theorem lt_countP_le_getElem {l : List α} (hl : l.Pairwise (· ≤ ·)) {i : ℕ} (hi : i < l.length) :
    i < l.countP (· ≤ l[i]) := by
  have hfront : (l.take (i + 1)).countP (· ≤ l[i]) = i + 1 := by
    rw [List.countP_eq_length.mpr, List.length_take, Nat.min_eq_left hi]
    intro a ha
    obtain ⟨j, hj, rfl⟩ := List.mem_take_iff_getElem.mp ha
    exact decide_eq_true (hl.sortedLE.getElem_le_getElem_of_le (by omega))
  have hle := (List.take_sublist (i + 1) l).countP_le (p := (· ≤ l[i]))
  omega

/-- From index `i` on it stays above. -/
theorem sub_le_countP_getElem_le {l : List α} (hl : l.Pairwise (· ≤ ·)) {i : ℕ}
    (hi : i < l.length) : l.length - i ≤ l.countP (l[i] ≤ ·) := by
  have hback : (l.drop i).countP (l[i] ≤ ·) = l.length - i := by
    rw [List.countP_eq_length.mpr, List.length_drop]
    intro a ha
    obtain ⟨j, hj, rfl⟩ := List.mem_drop_iff_getElem.mp ha
    exact decide_eq_true (hl.sortedLE.getElem_le_getElem_of_le (by omega))
  have hle := (List.drop_sublist i l).countP_le (p := (l[i] ≤ ·))
  omega

/-- **Elements of a sorted list are quantiles.** -/
theorem isQuantile_getElem {l : List α} (hl : l.Pairwise (· ≤ ·)) {i : ℕ} (hi : i < l.length)
    {p : ℚ} (hlow : (i : ℚ) ≤ p * l.length) (hhigh : p * l.length ≤ i + 1) :
    IsQuantile l p l[i] := by
  have hbelow : ((i + 1 : ℕ) : ℚ) ≤ (l.countP (· ≤ l[i]) : ℕ) :=
    Nat.cast_le.mpr (lt_countP_le_getElem hl hi)
  have habove : ((l.length : ℕ) : ℚ) ≤ ((l.countP (l[i] ≤ ·) + i : ℕ) : ℚ) := by
    have hcount := sub_le_countP_getElem_le hl hi
    exact Nat.cast_le.mpr (by omega)
  push_cast at hbelow habove
  constructor
  · linarith
  · linarith

/-- **Sorting forgets the order.** -/
theorem insertionSort_eq_of_perm {l l' : List α} (h : l.Perm l') :
    l.insertionSort (· ≤ ·) = l'.insertionSort (· ≤ ·) := by
  have hperm : (l.insertionSort (· ≤ ·)).Perm (l'.insertionSort (· ≤ ·)) :=
    (List.perm_insertionSort (· ≤ ·) l).trans (h.trans (List.perm_insertionSort (· ≤ ·) l').symm)
  exact hperm.eq_of_pairwise' (List.pairwise_insertionSort _ l) (List.pairwise_insertionSort _ l')

end Quantile
