import Mathlib.Data.Nat.Digits.Lemmas

/-!
# Decimal numerals

A numeral is its list of digits, most significant first. `digits` is the numeral a printer
writes for a number, `value` is what a reader makes of any list of digits.
-/

namespace Decimal

/-- The canonical numeral of `n`: no leading zero, and a single `0` for zero. -/
def digits (n : ℕ) : List ℕ :=
  if n = 0 then [0] else (Nat.digits 10 n).reverse

/-- The value a left-to-right reader gives to a list of digits. -/
def value (ds : List ℕ) : ℕ :=
  ds.foldl (fun v d => 10 * v + d) 0

/-- Reading the digits from the front is reading them in base ten from the back. -/
theorem value_reverse (ds : List ℕ) : value ds.reverse = Nat.ofDigits 10 ds := by
  induction ds with
  | nil => rfl
  | cons d ds ih =>
    rw [Nat.ofDigits_cons, ← ih]
    simp [value, List.foldl_append, add_comm]

@[simp] theorem value_digits (n : ℕ) : value (digits n) = n := by
  unfold digits
  split
  · next h => simp [value, h]
  · rw [value_reverse, Nat.ofDigits_digits]

theorem digits_injective : Function.Injective digits :=
  Function.LeftInverse.injective value_digits

theorem digits_ne_nil (n : ℕ) : digits n ≠ [] := by
  unfold digits
  split
  · simp
  · next h => simpa [Nat.digits_eq_nil_iff_eq_zero] using h

theorem lt_of_mem_digits {n d : ℕ} (h : d ∈ digits n) : d < 10 := by
  unfold digits at h
  split at h
  · have : d = 0 := by simpa using h
    omega
  · exact Nat.digits_lt_base (by omega) (List.mem_reverse.mp h)

end Decimal
