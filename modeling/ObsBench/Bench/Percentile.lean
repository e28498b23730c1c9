import Mathlib.Data.List.GetD
import ObsBench.Bench.Iteration
import ObsBench.Lib.Quantile

/-!
# Percentiles

`get_percentile` sorts a copy of its list and reads one element of it. The truncated index is the
rank of a quantile also where it falls on an integer and at the end of the list.

* **`percentileIndex_bounds`**: the index against the rank `p * n`.
* **`getPercentile_quantile`**: what `get_percentile` returns, and what the rows make of it.
-/

namespace ObsBench

universe u

/-! ## The index -/

theorem percentileIndex_eq (size : ℕ) (p : ℚ) :
    percentileIndex size p = min (size * p).floor.toNat (size - 1) := by
  unfold percentileIndex
  show (if (size * p).floor.toNat ≥ size then size - 1 else (size * p).floor.toNat) = _
  split <;> omega

theorem percentileIndex_lt {size : ℕ} (hsize : 0 < size) (p : ℚ) :
    percentileIndex size p < size := by
  rw [percentileIndex_eq]
  omega

theorem percentileIndex_mono (size : ℕ) {p q : ℚ} (h : p ≤ q) :
    percentileIndex size p ≤ percentileIndex size q := by
  have hfloor : (size * p).floor ≤ (size * q).floor :=
    Rat.floor_monotone (mul_le_mul_of_nonneg_left h (Nat.cast_nonneg size))
  rw [percentileIndex_eq, percentileIndex_eq]
  omega

/-- The index stays within one of the rank; the clamp only acts at `p = 1`. -/
theorem percentileIndex_bounds {size : ℕ} (hsize : 0 < size) {p : ℚ} (hp : 0 ≤ p) (hp' : p ≤ 1) :
    (percentileIndex size p : ℚ) ≤ p * size ∧ p * size ≤ percentileIndex size p + 1 := by
  have hrank : 0 ≤ (size : ℚ) * p := mul_nonneg (Nat.cast_nonneg _) hp
  have hrank' : (size : ℚ) * p ≤ size := mul_le_of_le_one_right (Nat.cast_nonneg _) hp'
  have hnonneg : 0 ≤ (size * p : ℚ).floor := Rat.le_floor_iff.mpr hrank
  have hfloor : (((size * p).floor.toNat : ℕ) : ℚ) = (((size * p).floor : ℤ) : ℚ) := by
    rw [← Int.cast_natCast, Int.toNat_of_nonneg hnonneg]
  have hle := Rat.floor_le (size * p)
  have hlt := Rat.lt_floor_add_one (size * p)
  rw [percentileIndex_eq, mul_comm p]
  push_cast at hlt
  rcases le_or_gt (size * p).floor.toNat (size - 1) with hinside | hclamp
  · rw [min_eq_left hinside, hfloor]
    exact ⟨hle, hlt.le⟩
  · -- the rank is the whole size
    have hall : (size : ℚ) ≤ ((size * p).floor.toNat : ℕ) := Nat.cast_le.mpr (by omega)
    rw [min_eq_right hclamp.le, Nat.cast_sub hsize, Nat.cast_one]
    constructor <;> linarith

/-! ## The element -/

/-- `get_percentile` reads the sorted list at its index. -/
theorem getPercentile_eq {α : Type u} [LinearOrder α] [Zero α] {latencies : List α}
    (hne : latencies ≠ []) (p : ℚ) :
    ∃ h : percentileIndex latencies.length p < (latencies.insertionSort (· ≤ ·)).length,
      getPercentile latencies p =
        (latencies.insertionSort (· ≤ ·))[percentileIndex latencies.length p] := by
  have hlt : percentileIndex latencies.length p < (latencies.insertionSort (· ≤ ·)).length := by
    rw [List.length_insertionSort]
    exact percentileIndex_lt (List.length_pos_iff.mpr hne) p
  refine ⟨hlt, ?_⟩
  unfold getPercentile
  rw [if_neg (by simpa using hne)]
  exact List.getD_eq_getElem _ _ hlt

theorem getPercentile_perm {α : Type u} [LinearOrder α] [Zero α] {latencies latencies' : List α}
    (h : latencies.Perm latencies') (p : ℚ) :
    getPercentile latencies p = getPercentile latencies' p := by
  unfold getPercentile
  rw [h.isEmpty_eq, Quantile.insertionSort_eq_of_perm h, h.length_eq]

theorem getPercentile_mono {α : Type u} [LinearOrder α] [Zero α] (latencies : List α) {p q : ℚ}
    (h : p ≤ q) : getPercentile latencies p ≤ getPercentile latencies q := by
  by_cases hne : latencies = []
  · rw [hne]
    exact le_rfl
  · obtain ⟨_, hp⟩ := getPercentile_eq hne p
    obtain ⟨_, hq⟩ := getPercentile_eq hne q
    rw [hp, hq]
    exact (List.pairwise_insertionSort (· ≤ ·) latencies).sortedLE.getElem_le_getElem_of_le
      (percentileIndex_mono _ h)

/-- `get_percentile` returns a quantile of the samples. -/
theorem isQuantile_getPercentile {α : Type u} [LinearOrder α] [Zero α] {latencies : List α}
    (hne : latencies ≠ []) {p : ℚ} (hp : 0 ≤ p) (hp' : p ≤ 1) :
    Quantile.IsQuantile latencies p (getPercentile latencies p) := by
  obtain ⟨hlt, heq⟩ := getPercentile_eq hne p
  obtain ⟨hlow, hhigh⟩ := percentileIndex_bounds (List.length_pos_iff.mpr hne) hp hp'
  rw [heq]
  have hsorted := List.pairwise_insertionSort (· ≤ ·) latencies
  refine (Quantile.isQuantile_getElem hsorted hlt ?_ ?_).perm (List.perm_insertionSort _ latencies)
  · rw [List.length_insertionSort]
    exact hlow
  · rw [List.length_insertionSort]
    exact hhigh

/-! ## The rows -/

variable {δ : Type}

/-- The percentiles a row reports. -/
def DataFrameRow.percentiles (row : DataFrameRow δ) : δ × δ × δ :=
  (row.latP50, row.latP90, row.latP99)

/-- The percentiles of an iteration are those of the latencies its threads recorded, however they
were merged. -/
theorem percentiles_of_run [Double δ] {numThreads loopCount : ℕ} {α : Type}
    {operations : ℕ → Operation α} {bucket : Bucket} {carry : α} {events : List (Event δ)}
    {s : IterationState α δ}
    (h : Transition.Run (IterationStep numThreads loopCount operations)
      (.start loopCount bucket carry) events s) (type : Bytes) (objectSize : ℕ) (seconds : δ) :
    (s.row type numThreads objectSize loopCount seconds).percentiles =
      (appendRow [] type numThreads objectSize loopCount seconds
        (s.traceVector numThreads).flatten (s.traceVector numThreads)).1.percentiles := by
  have hgroup := (accounts_of_run h).group
  show (getPercentile _ _, getPercentile _ _, getPercentile _ _) =
    (getPercentile _ _, getPercentile _ _, getPercentile _ _)
  rw [getPercentile_perm hgroup, getPercentile_perm hgroup, getPercentile_perm hgroup]

/-- **Percentiles.** On a non-empty list of any linear order and for `p` in `[0, 1]`, the index is
in range, the result is an element of the list and a `p`-quantile of it, the order of the list does
not matter, and the result grows with `p`. So the three percentiles of a row, which are those of its
latencies at 1/2, 9/10 and 99/100, are ordered, and two iterations whose threads recorded the same
latencies report the same ones, in whatever order the threads merged. -/
theorem getPercentile_quantile :
    (∀ (α : Type u) [LinearOrder α] [Zero α] (latencies : List α), latencies ≠ [] →
      ∀ p : ℚ, 0 ≤ p → p ≤ 1 →
        percentileIndex latencies.length p < (latencies.insertionSort (· ≤ ·)).length ∧
        getPercentile latencies p ∈ latencies ∧
        Quantile.IsQuantile latencies p (getPercentile latencies p) ∧
        (∀ latencies', latencies'.Perm latencies →
          getPercentile latencies' p = getPercentile latencies p) ∧
        ∀ q, p ≤ q → getPercentile latencies p ≤ getPercentile latencies q) ∧
    (∀ (δ : Type) [Double δ] (rows : List (DataFrameRow δ)) type threads objectSize loopCount
      seconds latencies traceLatencies,
      let row :=
        (appendRow rows type threads objectSize loopCount seconds latencies traceLatencies).1
      (row.latP50 = getPercentile latencies (1 / 2) ∧
        row.latP90 = getPercentile latencies (9 / 10) ∧
        row.latP99 = getPercentile latencies (99 / 100)) ∧
      row.latP50 ≤ row.latP90 ∧ row.latP90 ≤ row.latP99) ∧
    ∀ (α δ : Type) [Double δ] (operations operations' : ℕ → Operation α) (bucket bucket' : Bucket)
      (carry carry' : α) (numThreads loopCount : ℕ) (events events' : List (Event δ))
      (s s' : IterationState α δ),
      Transition.Run (IterationStep numThreads loopCount operations)
        (.start loopCount bucket carry) events s →
      Transition.Run (IterationStep numThreads loopCount operations')
        (.start loopCount bucket' carry') events' s' →
      s.traceVector numThreads = s'.traceVector numThreads → ∀ type objectSize seconds,
      (s.row type numThreads objectSize loopCount seconds).percentiles =
        (s'.row type numThreads objectSize loopCount seconds).percentiles := by
  refine ⟨?_, ?_, ?_⟩
  · intro α _ _ latencies hne p hp hp'
    obtain ⟨hlt, heq⟩ := getPercentile_eq hne p
    refine ⟨hlt, ?_, isQuantile_getPercentile hne hp hp', fun l hl => getPercentile_perm hl p,
      fun q hq => getPercentile_mono latencies hq⟩
    rw [heq]
    exact (List.mem_insertionSort (· ≤ ·)).mp (List.getElem_mem hlt)
  · -- from column to column `p` grows
    intro δ _ rows type threads objectSize loopCount seconds latencies traceLatencies
    refine ⟨⟨rfl, rfl, rfl⟩, ?_⟩
    show getPercentile latencies (1 / 2) ≤ getPercentile latencies (9 / 10) ∧
      getPercentile latencies (9 / 10) ≤ getPercentile latencies (99 / 100)
    exact ⟨getPercentile_mono latencies (by norm_num), getPercentile_mono latencies (by norm_num)⟩
  · -- what a run reports depends on what its threads recorded
    intro α δ _ operations operations' bucket bucket' carry carry' numThreads loopCount events
      events' s s' hrun hrun' htrace type objectSize seconds
    rw [percentiles_of_run hrun, percentiles_of_run hrun', htrace]

/-- The median of an even number of samples is the upper one of the middle two. -/
theorem getPercentile_quantile_four :
    getPercentile [4, 1, 3, (2 : ℚ)] (1 / 2) = 3 ∧
      Quantile.IsQuantile [4, 1, 3, (2 : ℚ)] (1 / 2) 3 := by
  have hvalue : getPercentile [4, 1, 3, (2 : ℚ)] (1 / 2) = 3 := by decide +kernel
  have hquantile := (getPercentile_quantile.1 ℚ [4, 1, 3, 2] (by simp) (1 / 2) (by norm_num)
    (by norm_num)).2.2.1
  rw [hvalue] at hquantile
  exact ⟨hvalue, hquantile⟩

end ObsBench
