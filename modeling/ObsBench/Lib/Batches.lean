import Mathlib.Data.List.Basic

/-!
# Batches

A loop that collects items and sends them off when enough are pending, or when the list ends,
cuts its list into batches. `fill` is that loop without the sending.

* **`batches_cons`**: the batches of a list are its first `size` items and the batches of the
  rest. Every fact about them follows from this one.
* **`flatten_batches`**, **`length_of_mem_batches`**: nothing is lost or repeated, and no batch
  is empty or too long.
* **`length_batches`**, **`getElem?_batches`**: how many batches there are, and where batch `b`
  stands in the list.
-/

namespace Batches

variable {α : Type*}

/-- The batches that are closed when `pending` items are collected and `l` is to come. -/
def fill (size : ℕ) : List α → List α → List (List α)
  | _, [] => []
  | pending, a :: rest =>
    if pending.length + 1 = size ∨ rest = [] then (pending ++ [a]) :: fill size [] rest
    else fill size (pending ++ [a]) rest

def batches (size : ℕ) (l : List α) : List (List α) := fill size [] l

@[simp] theorem batches_nil (size : ℕ) : batches size ([] : List α) = [] := rfl

/-- While a batch is being filled, the pending items and the next ones make it up. Induction on
the items to come. -/
theorem fill_eq {size : ℕ} {pending l : List α} (hpending : pending.length < size) (hl : l ≠ []) :
    fill size pending l =
      (pending ++ l).take size :: batches size ((pending ++ l).drop size) := by
  induction l generalizing pending with
  | nil => exact absurd rfl hl
  | cons a rest ih =>
    have hsplit : pending ++ a :: rest = (pending ++ [a]) ++ rest := by simp
    by_cases hfull : pending.length + 1 = size
    · -- the batch is full
      have hlen : (pending ++ [a]).length = size := by simpa using hfull
      rw [fill, if_pos (.inl hfull), hsplit, List.take_left' hlen, List.drop_left' hlen]
      rfl
    · by_cases hend : rest = []
      · -- the list ends
        have hlen : (pending ++ [a]).length ≤ size := by
          rw [List.length_append, List.length_singleton]
          omega
        rw [fill, if_pos (.inr hend), hend, List.take_of_length_le hlen,
          List.drop_eq_nil_of_le hlen]
        rfl
      · -- the batch goes on
        have hlen : (pending ++ [a]).length < size := by
          rw [List.length_append, List.length_singleton]
          omega
        rw [fill, if_neg (by simp [hfull, hend]), ih hlen hend, hsplit]

/-- **The first batch and the rest.** -/
theorem batches_cons {size : ℕ} (hsize : 0 < size) {l : List α} (hl : l ≠ []) :
    batches size l = l.take size :: batches size (l.drop size) :=
  fill_eq hsize hl

/-- Induction over a list by dropping a batch at a time. -/
theorem drop_induction {size : ℕ} (hsize : 0 < size) {motive : List α → Prop} (nil : motive [])
    (drop : ∀ l, l ≠ [] → motive (l.drop size) → motive l) (l : List α) : motive l := by
  induction hn : l.length using Nat.strongRecOn generalizing l with
  | ind n ih =>
    by_cases hl : l = []
    · rw [hl]
      exact nil
    · have hpos := List.length_pos_iff.mpr hl
      exact drop l hl (ih (l.drop size).length (by rw [List.length_drop]; omega) _ rfl)

theorem flatten_batches {size : ℕ} (hsize : 0 < size) (l : List α) :
    (batches size l).flatten = l := by
  induction l using drop_induction hsize with
  | nil => rw [batches_nil, List.flatten_nil]
  | drop l hl ih => rw [batches_cons hsize hl, List.flatten_cons, ih, List.take_append_drop]

/-- No batch is empty, and none is longer than `size`. -/
theorem length_of_mem_batches {size : ℕ} (hsize : 0 < size) {l batch : List α}
    (h : batch ∈ batches size l) : 0 < batch.length ∧ batch.length ≤ size := by
  induction l using drop_induction hsize with
  | nil => simp at h
  | drop l hl ih =>
    rw [batches_cons hsize hl, List.mem_cons] at h
    rcases h with rfl | hrest
    · have hpos := List.length_pos_iff.mpr hl
      rw [List.length_take]
      omega
    · exact ih hrest

/-- The number of batches is the length divided by `size`, rounded up. -/
theorem length_batches {size : ℕ} (hsize : 0 < size) (l : List α) :
    (batches size l).length = (l.length + size - 1) / size := by
  induction l using drop_induction hsize with
  | nil =>
    symm
    apply Nat.div_eq_of_lt
    rw [List.length_nil]
    omega
  | drop l hl ih =>
    have hpos := List.length_pos_iff.mpr hl
    rw [batches_cons hsize hl, List.length_cons, ih, List.length_drop]
    by_cases hlong : size ≤ l.length
    · rw [show l.length + size - 1 = l.length - size + size - 1 + size by omega,
        Nat.add_div_right _ hsize]
    · -- a single batch
      rw [show l.length - size + size - 1 = size - 1 by omega,
        show l.length + size - 1 = l.length - 1 + size by omega, Nat.add_div_right _ hsize,
        Nat.div_eq_of_lt (by omega), Nat.div_eq_of_lt (by omega)]

/-- Batch `b` is what stands behind the first `b` batches, up to a batch's size. -/
theorem getElem?_batches {size : ℕ} (hsize : 0 < size) (l : List α) (b : ℕ) :
    (batches size l)[b]? =
      if size * b < l.length then some ((l.drop (size * b)).take size) else none := by
  induction l using drop_induction hsize generalizing b with
  | nil => rfl
  | drop l hl ih =>
    have hpos := List.length_pos_iff.mpr hl
    rw [batches_cons hsize hl]
    cases b with
    | zero => rw [List.getElem?_cons_zero, Nat.mul_zero, if_pos hpos, List.drop_zero]
    | succ b =>
      have hiff : size * b < (l.drop size).length ↔ size * (b + 1) < l.length := by
        rw [List.length_drop, Nat.mul_succ]
        omega
      rw [List.getElem?_cons_succ, ih, List.drop_drop, if_congr hiff rfl rfl, Nat.mul_succ,
        Nat.add_comm size]

/-- Every batch but the last one is full. -/
theorem length_of_getElem?_batches {size : ℕ} (hsize : 0 < size) {l batch : List α} {b : ℕ}
    (h : (batches size l)[b]? = some batch) (hb : b + 1 < (batches size l).length) :
    batch.length = size := by
  have hnext : size * (b + 1) < l.length := by
    have hsome := List.getElem?_eq_getElem hb
    rw [getElem?_batches hsize] at hsome
    by_contra hle
    rw [if_neg hle] at hsome
    exact absurd hsome (Option.some_ne_none _).symm
  rw [Nat.mul_succ] at hnext
  rw [getElem?_batches hsize, if_pos (by omega), Option.some.injEq] at h
  rw [← h, List.length_take, List.length_drop]
  omega

/-- What the first `k` batches hold. -/
theorem flatten_take_batches {size : ℕ} (hsize : 0 < size) (l : List α) (k : ℕ) :
    ((batches size l).take k).flatten = l.take (size * k) := by
  induction l using drop_induction hsize generalizing k with
  | nil => rw [batches_nil, List.take_nil, List.take_nil, List.flatten_nil]
  | drop l hl ih =>
    cases k with
    | zero => rfl
    | succ k =>
      rw [batches_cons hsize hl, List.take_succ_cons, List.flatten_cons, ih, Nat.mul_succ,
        Nat.add_comm (size * k), List.take_add]

end Batches
