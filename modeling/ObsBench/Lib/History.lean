import Mathlib.Data.Finmap

/-!
# Histories of a map

A map is written to by anybody, and its history is the list of the writes. What a key holds depends
on what it held before and on the writes to this key alone, so it can be followed key by key.

* **`lookup_applyAll`**: what a key holds after a history.
-/

namespace History

variable {K V : Type*}

inductive Write (K V : Type*) where
  | put (key : K) (value : V)
  | erase (key : K)

/-! ## Writes between numbered moments -/

/-- What is written from moment `n` up to moment `m`, if `writes t` is written at moment `t`. -/
def between (writes : ℕ → List (Write K V)) (n m : ℕ) : List (Write K V) :=
  (List.range' n (m - n)).flatMap writes

theorem between_self (writes : ℕ → List (Write K V)) (n : ℕ) : between writes n n = [] := by
  rw [between, Nat.sub_self]
  rfl

/-- The writes of a stretch are those of its first gap and those of the rest. -/
theorem between_of_lt (writes : ℕ → List (Write K V)) {n m : ℕ} (h : n < m) :
    between writes n m = writes n ++ between writes (n + 1) m := by
  obtain ⟨d, rfl⟩ := Nat.exists_eq_add_of_lt h
  rw [between, between, show n + d + 1 - n = d + 1 by omega,
    show n + d + 1 - (n + 1) = d by omega, List.range'_succ, List.flatMap_cons]

/-! ## What a key holds -/

variable [DecidableEq K]

def Write.apply (m : Finmap fun _ : K => V) : Write K V → Finmap fun _ : K => V
  | .put key value => m.insert key value
  | .erase key => m.erase key

def applyAll (m : Finmap fun _ : K => V) (writes : List (Write K V)) : Finmap fun _ : K => V :=
  writes.foldl Write.apply m

/-- What `k` holds after a write, from what it held before. -/
def Write.on (k : K) (held : Option V) : Write K V → Option V
  | .put key value => if key = k then some value else held
  | .erase key => if key = k then none else held

/-- What `k` holds after a history, from what it held before. -/
def after (k : K) (held : Option V) (writes : List (Write K V)) : Option V :=
  writes.foldl (Write.on k) held

/-- A write is seen by each key for itself. -/
theorem lookup_apply (m : Finmap fun _ : K => V) (w : Write K V) (k : K) :
    (w.apply m).lookup k = w.on k (m.lookup k) := by
  cases w with
  | put key value =>
    by_cases hkey : key = k
    · rw [Write.apply, Write.on, if_pos hkey, hkey, Finmap.lookup_insert]
    · rw [Write.apply, Write.on, if_neg hkey, Finmap.lookup_insert_of_ne _ (Ne.symm hkey)]
  | erase key =>
    by_cases hkey : key = k
    · rw [Write.apply, Write.on, if_pos hkey, hkey, Finmap.lookup_erase]
    · rw [Write.apply, Write.on, if_neg hkey, Finmap.lookup_erase_ne (Ne.symm hkey)]

/-- **What a key holds after a history.** -/
theorem lookup_applyAll (m : Finmap fun _ : K => V) (writes : List (Write K V)) (k : K) :
    (applyAll m writes).lookup k = after k (m.lookup k) writes := by
  induction writes generalizing m with
  | nil => rfl
  | cons w rest ih =>
    rw [applyAll, List.foldl_cons, ← applyAll, ih, lookup_apply]
    rfl

/-- Later writes work on what the earlier ones left. -/
theorem after_append (k : K) (held : Option V) (front back : List (Write K V)) :
    after k held (front ++ back) = after k (after k held front) back :=
  List.foldl_append

end History
