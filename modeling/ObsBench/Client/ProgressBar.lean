import Mathlib.Data.Rat.Floor
import Mathlib.Tactic.Ring
import ObsBench.Client.Error

/-!
# `print_progress`

The bar shows a part of a whole, both counts of keys. Nobody keeps the part below the whole or the
whole above zero: the division by zero and the conversions to `int` may be undefined, and the bar
may be longer than its frame. A `double` is read as the rational it stands for.

* **`ProgressCall.Defined.exists_bar`**, **`printProgress_of_not_defined`**: the calls that are
  defined.
* **`inRange_iff`**: the calls that stay in range.
-/

namespace ObsBench

/-- `(int)x`: the fraction is dropped, and what does not fit an `int` is undefined. -/
def intOfDouble (x : ℚ) : Except Failure ℤ :=
  let n := if 0 ≤ x then ⌊x⌋ else ⌈x⌉
  if -2 ^ 31 ≤ n ∧ n < 2 ^ 31 then .ok n else .error .undefinedBehaviour

/-- `PBSTR`. -/
def pbstr : Bytes := text "||||||||||||||||||||||||||||||||||||||||||||||||||||||||||||"

/-- `PBWIDTH`. -/
def pbwidth : ℤ := 60

/-- The arguments `print_progress` hands to `printf`. -/
structure ProgressBar where
  val : ℤ
  lpad : ℤ
  rpad : ℤ
  ends : Bool

/-- `print_progress`, up to the `printf`. -/
def printProgress (iter maxIter : ℕ) (forceEnd : Bool) : Except Failure ProgressBar := do
  -- the quotient is infinite or no number, and there is no `int` for it
  if maxIter = 0 then .error .undefinedBehaviour
  else
    let percentage : ℚ := iter / maxIter
    let ends := decide (iter = maxIter) || forceEnd
    let val ← intOfDouble (percentage * 100)
    let lpad ← intOfDouble (percentage * pbwidth)
    return { val, lpad, rpad := pbwidth - lpad, ends }

/-- A field width of `printf`; a negative one pads on the right. -/
def padTo (width : ℤ) (s : Bytes) : Bytes :=
  let spaces := List.replicate (width.natAbs - s.length) (byte ' ')
  if width < 0 then s ++ spaces else spaces ++ s

/-- A precision of `printf` for `%s`; a negative one counts as missing. -/
def cutTo (precision : ℤ) (s : Bytes) : Bytes :=
  if precision < 0 then s else s.take precision.toNat

/-- What stands between the brackets: `%.*s%*s` for `lpad, PBSTR, rpad, ""`. -/
def ProgressBar.bar (b : ProgressBar) : Bytes := cutTo b.lpad pbstr ++ padTo b.rpad []

/-- The bytes `print_progress` writes. -/
def ProgressBar.line (b : ProgressBar) : Bytes :=
  text "\r" ++ padTo 3 (formatInt b.val).bytes ++ text "% [" ++ b.bar ++ text "]" ++
    if b.ends then text "\n" else []

structure ProgressBar.Fits (b : ProgressBar) : Prop where
  val_nonneg : 0 ≤ b.val
  val_le : b.val ≤ 100
  lpad_nonneg : 0 ≤ b.lpad
  lpad_le : b.lpad ≤ 60
  rpad_nonneg : 0 ≤ b.rpad
  width : b.lpad + b.rpad = 60

/-- A non-negative double is cut to an int if its whole part fits into one. -/
theorem intOfDouble_of_nonneg {x : ℚ} (h : 0 ≤ x) :
    intOfDouble x = if ⌊x⌋ < 2 ^ 31 then .ok ⌊x⌋ else .error .undefinedBehaviour := by
  have hfloor : 0 ≤ ⌊x⌋ := Int.floor_nonneg.mpr h
  unfold intOfDouble
  simp only [if_pos h]
  congr 1
  rw [eq_iff_iff]
  constructor
  · intro hrange
    exact hrange.2
  · intro hlt
    exact ⟨by omega, hlt⟩

/-- In exact arithmetic the truncated multiple of the percentage is an integer division. -/
theorem intOfDouble_percentage (iter maxIter c : ℕ) :
    intOfDouble ((iter : ℚ) / maxIter * c) =
      if iter * c / maxIter < 2 ^ 31 then .ok ((iter * c / maxIter : ℕ) : ℤ)
      else .error .undefinedBehaviour := by
  have hquot : (iter : ℚ) / maxIter * c = ((iter * c : ℕ) : ℚ) / (maxIter : ℕ) := by
    push_cast
    ring
  have hfloor : ⌊((iter * c : ℕ) : ℚ) / (maxIter : ℕ)⌋ = ((iter * c / maxIter : ℕ) : ℤ) := by
    rw [Rat.floor_natCast_div_natCast, Int.natCast_div]
  have hnonneg : (0 : ℚ) ≤ ((iter * c : ℕ) : ℚ) / (maxIter : ℕ) := by positivity
  rw [hquot, intOfDouble_of_nonneg hnonneg, hfloor]
  congr 1
  rw [eq_iff_iff]
  omega

/-- What `print_progress` makes of a count that is not zero. The padding never overflows when the
percentage does not. -/
theorem printProgress_eq {maxIter : ℕ} (h : 0 < maxIter) (iter : ℕ) (forceEnd : Bool) :
    printProgress iter maxIter forceEnd =
      if iter * 100 / maxIter < 2 ^ 31 then
        .ok { val := (iter * 100 / maxIter : ℕ)
              lpad := (iter * 60 / maxIter : ℕ)
              rpad := pbwidth - (iter * 60 / maxIter : ℕ)
              ends := decide (iter = maxIter) || forceEnd }
      else .error .undefinedBehaviour := by
  have hval : intOfDouble ((iter : ℚ) / maxIter * 100) = _ :=
    intOfDouble_percentage iter maxIter 100
  have hlpad : intOfDouble ((iter : ℚ) / maxIter * pbwidth) = _ :=
    intOfDouble_percentage iter maxIter 60
  have hle : iter * 60 / maxIter ≤ iter * 100 / maxIter := Nat.div_le_div_right (by omega)
  rw [printProgress, if_neg (Nat.pos_iff_ne_zero.mp h)]
  simp only [hval, hlpad]
  by_cases hfits : iter * 100 / maxIter < 2 ^ 31
  · rw [if_pos hfits, if_pos hfits, if_pos (lt_of_le_of_lt hle hfits)]
    rfl
  · rw [if_neg hfits, if_neg hfits]
    rfl

/-- One call of `print_progress`; the list callback leaves `force_end` at its default. -/
structure ProgressCall where
  iter : ℕ
  maxIter : ℕ

/-- The two conversions to `int` are defined. -/
def ProgressCall.Defined (call : ProgressCall) : Prop := 100 * call.iter < 2 ^ 31 * call.maxIter

/-- A call that is defined prints a bar. -/
theorem ProgressCall.Defined.exists_bar {call : ProgressCall} (h : call.Defined) :
    ∃ b, printProgress call.iter call.maxIter false = .ok b := by
  unfold ProgressCall.Defined at h
  have hpos : 0 < call.maxIter := by omega
  rw [printProgress_eq hpos, if_pos ((Nat.div_lt_iff_lt_mul hpos).mpr (by omega))]
  exact ⟨_, rfl⟩

/-- All other calls divide by zero or convert a number that is too large. -/
theorem printProgress_of_not_defined {call : ProgressCall} (h : ¬ call.Defined) :
    printProgress call.iter call.maxIter false = .error .undefinedBehaviour := by
  unfold ProgressCall.Defined at h
  rcases Nat.eq_zero_or_pos call.maxIter with hzero | hpos
  · rw [printProgress, if_pos hzero]
  · rw [printProgress_eq hpos, if_neg (mt (Nat.div_lt_iff_lt_mul hpos).mp (by omega))]

/-- The call divides by no zero, converts in range, and shows a bar that fits. -/
def ProgressCall.InRange (call : ProgressCall) : Prop :=
  ∃ b, printProgress call.iter call.maxIter false = .ok b ∧ b.Fits

/-- **The calls that stay in range**: less than one percent above the count. -/
theorem inRange_iff (call : ProgressCall) :
    call.InRange ↔ 100 * call.iter < 101 * call.maxIter := by
  obtain ⟨iter, maxIter⟩ := call
  show (∃ b, printProgress iter maxIter false = .ok b ∧ b.Fits) ↔ 100 * iter < 101 * maxIter
  rcases Nat.eq_zero_or_pos maxIter with hzero | hpos
  · -- a count of zero is divided by
    rw [hzero]
    constructor
    · intro h
      obtain ⟨b, hb, -⟩ := h
      exact absurd hb (by simp [printProgress])
    · intro h
      omega
  · -- the percentage is a truncated quotient
    have hpercent : iter * 100 / maxIter ≤ 100 ↔ 100 * iter < 101 * maxIter := by
      rw [← Nat.lt_succ_iff, Nat.div_lt_iff_lt_mul hpos]
      omega
    rw [printProgress_eq hpos, ← hpercent]
    constructor
    · intro h
      obtain ⟨b, hb, hfits⟩ := h
      split at hb
      · have hval := hfits.val_le
        rw [← Except.ok.inj hb] at hval
        exact Int.ofNat_le.mp hval
      · exact absurd hb (by simp)
    · intro h
      -- a sixty-first character takes more than 101 percent
      have hlpad : iter * 60 / maxIter ≤ 60 := by
        rw [← Nat.lt_succ_iff, Nat.div_lt_iff_lt_mul hpos]
        have := hpercent.mp h
        omega
      refine ⟨_, if_pos (lt_of_le_of_lt h (by decide)), ?_⟩
      exact {
        val_nonneg := Int.natCast_nonneg _
        val_le := Int.ofNat_le.mpr h
        lpad_nonneg := Int.natCast_nonneg _
        lpad_le := Int.ofNat_le.mpr hlpad
        rpad_nonneg := Int.sub_nonneg.mpr (Int.ofNat_le.mpr hlpad)
        width := add_sub_cancel _ _ }

end ObsBench
