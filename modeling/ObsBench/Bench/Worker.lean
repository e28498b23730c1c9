import ObsBench.Client.UploadService

/-!
# Benchmark workers

A worker thread makes `loop_count` operations one after the other and tries each of them up to
three times: a caught exception repeats the attempt, the third one is thrown on and leaves the
thread. The two benchmarks share this loop. They differ in what an attempt does and in what it
hands on to the next operation: nothing for `put_object`, `next_start_pos` for `append_object`.

The loop variable `j` is an `int`, `loop_count` a `size_t`, and the vector of the latencies is
reserved before the first operation. So a thread may throw before it has done anything, and one with
too many operations overflows `j`. Time is outside the model: the latency of an attempt is a
parameter, a value of any type `δ`. So is memory, which is always enough.

* **`workerRun`**: a worker step by step, with others acting between its attempts.
* **`workerRun_ends`**: it makes at most three attempts for each operation.
-/

namespace ObsBench

/-- The locals of a worker thread, and what has ended it early, if anything has. Until then `j` is
an `int`. -/
structure WorkerState (α δ : Type) where
  j : ℕ := 0
  retryCount : ℕ := 0
  carry : α
  threadLocalLatencies : List δ := []
  escaped : Option Failure := none
  j_lt : escaped = none → j < 2 ^ 31

variable {α δ : Type}

/-- A thread at its first operation. `reserve` throws if `loop_count` is more than the `max_size` of
a vector whose elements take eight bytes. -/
def WorkerState.start (loopCount : ℕ) (carry : α) : WorkerState α δ where
  carry
  escaped := if loopCount ≤ 2 ^ 60 - 1 then none else some (.exception .lengthError)
  j_lt _ := Nat.two_pow_pos 31

section Start

/-! A new thread has done nothing; what may have escaped from it is what `reserve` throws. -/

variable (loopCount : ℕ) (carry : α)

@[simp] theorem WorkerState.j_start : (start loopCount carry : WorkerState α δ).j = 0 := rfl

@[simp] theorem WorkerState.retryCount_start :
    (start loopCount carry : WorkerState α δ).retryCount = 0 := rfl

@[simp] theorem WorkerState.carry_start :
    (start loopCount carry : WorkerState α δ).carry = carry := rfl

@[simp] theorem WorkerState.latencies_start :
    (start loopCount carry : WorkerState α δ).threadLocalLatencies = [] := rfl

end Start

/-- The attempt returned: its latency is recorded, and `break` ends the retries. Behind the last
operation that an `int` counts, `++j` overflows. -/
def WorkerState.succeed (w : WorkerState α δ) (carry : α) (latMs : δ) : WorkerState α δ where
  j := w.j + 1
  retryCount := 0
  carry
  threadLocalLatencies := w.threadLocalLatencies ++ [latMs]
  escaped := if w.j + 1 < 2 ^ 31 then w.escaped else some .undefinedBehaviour
  j_lt h := by
    by_contra hlt
    rw [if_neg hlt] at h
    exact Option.some_ne_none _ h

/-- Something leaves the thread. -/
def WorkerState.leave (w : WorkerState α δ) (failure : Failure) : WorkerState α δ :=
  { w with
    escaped := some failure
    j_lt := nofun }

/-- The attempt did not return. The handler catches exceptions and throws the third one on, so
the retries never run out by themselves; nothing else is caught. -/
def WorkerState.fail (w : WorkerState α δ) : Failure → WorkerState α δ
  | .exception e =>
    if w.retryCount = 2 then w.leave (.exception e)
    else { w with retryCount := w.retryCount + 1 }
  | failure => w.leave failure

section Exceptions

/-! A caught exception counts the retry, or ends the thread, and changes nothing else. -/

variable (w : WorkerState α δ) (e : Exception)

theorem WorkerState.fail_exception :
    w.fail (.exception e) =
      if w.retryCount = 2 then w.leave (.exception e)
      else { w with retryCount := w.retryCount + 1 } := rfl

@[simp] theorem WorkerState.j_fail_exception : (w.fail (.exception e)).j = w.j := by
  rw [fail_exception]
  split <;> rfl

@[simp] theorem WorkerState.carry_fail_exception : (w.fail (.exception e)).carry = w.carry := by
  rw [fail_exception]
  split <;> rfl

@[simp] theorem WorkerState.latencies_fail_exception :
    (w.fail (.exception e)).threadLocalLatencies = w.threadLocalLatencies := by
  rw [fail_exception]
  split <;> rfl

/-- A failure never sets the retry counter back. -/
theorem WorkerState.retryCount_fail_ne_zero : (w.fail (.exception e)).retryCount ≠ 0 := by
  rw [fail_exception]
  split
  · next hlast =>
    show w.retryCount ≠ 0
    omega
  · exact Nat.succ_ne_zero _

theorem WorkerState.retryCount_fail_le : (w.fail (.exception e)).retryCount ≤ w.retryCount + 1 := by
  rw [fail_exception]
  split
  · exact Nat.le_succ _
  · exact le_rfl

end Exceptions

/-- A failure neither moves on to the next operation nor records a latency. -/
theorem WorkerState.fail_keeps (w : WorkerState α δ) (failure : Failure) :
    (w.fail failure).j = w.j ∧
      (w.fail failure).threadLocalLatencies = w.threadLocalLatencies := by
  cases failure with
  | exception e => exact ⟨w.j_fail_exception e, w.latencies_fail_exception e⟩
  | abort => exact ⟨rfl, rfl⟩
  | undefinedBehaviour => exact ⟨rfl, rfl⟩

/-- The body of the retry loop, around the result of one attempt. -/
def WorkerState.attempt (w : WorkerState α δ) (result : Except Failure α) (latMs : δ) :
    WorkerState α δ :=
  match result with
  | .ok carry => w.succeed carry latMs
  | .error failure => w.fail failure

@[simp] theorem WorkerState.attempt_ok (w : WorkerState α δ) (carry : α) (latMs : δ) :
    w.attempt (.ok carry) latMs = w.succeed carry latMs := rfl

@[simp] theorem WorkerState.attempt_error (w : WorkerState α δ) (failure : Failure) (latMs : δ) :
    w.attempt (.error failure) latMs = w.fail failure := rfl

def WorkerState.running (w : WorkerState α δ) (loopCount : ℕ) : Bool :=
  w.escaped.isNone && w.j < loopCount

def WorkerState.finished (w : WorkerState α δ) (loopCount : ℕ) : Bool :=
  w.escaped.isNone && !(w.j < loopCount)

/-- What attempt `retryCount` at operation `j` does, given what the worker carries. -/
abbrev Operation (α : Type) := ℕ → ℕ → α → Bucket → Bucket × Except Failure α

/-- The attempts of a `put_object` worker, which has a key for each operation. -/
def putObjectAttempt (calls : ℕ → ℕ → PutCall) (keys : ℕ → CString) (data : StdString) :
    Operation Unit :=
  fun j retryCount _ B =>
    putObject (calls j retryCount) B (.ofString (keys j).bytes) data.view

def appendObjectAttempt (calls : ℕ → ℕ → AppendCall) (key : CString) (data : StdString) :
    Operation UInt64 :=
  fun j retryCount nextStartPos B =>
    appendObject (calls j retryCount) B (.ofString key.bytes) data.view nextStartPos

def workerStep (loopCount : ℕ) (operation : Operation α) (latency : ℕ → ℕ → δ) (B : Bucket)
    (w : WorkerState α δ) : Bucket × WorkerState α δ :=
  if w.running loopCount then
    let (B', result) := operation w.j w.retryCount w.carry B
    (B', w.attempt result (latency w.j w.retryCount))
  else (B, w)

/-- The first `n` attempts of a worker that starts with `carry`. Before each of them the others
change the bucket: `others n` is what they do before attempt `n`. -/
def workerRun (loopCount : ℕ) (operation : Operation α) (latency : ℕ → ℕ → δ)
    (others : ℕ → Bucket → Bucket) (B : Bucket) (carry : α) : ℕ → Bucket × WorkerState α δ
  | 0 => (B, .start loopCount carry)
  | n + 1 =>
    let (B, w) := workerRun loopCount operation latency others B carry n
    workerStep loopCount operation latency (others n B) w

/-! ## Steps and runs -/

section Runs

variable {loopCount : ℕ} {operation : Operation α} {latency : ℕ → ℕ → δ}
  {others : ℕ → Bucket → Bucket} {B : Bucket} {carry : α}

/-- An invariant of a worker holds in every state it reaches. It has to survive what the others
do and an attempt of a running worker. -/
theorem workerRun_invariant (Inv : Bucket → WorkerState α δ → Prop)
    (init : Inv B (.start loopCount carry))
    (frame : ∀ n B w, Inv B w → Inv (others n B) w)
    (step : ∀ B w, Inv B w → w.running loopCount →
      Inv (operation w.j w.retryCount w.carry B).1
        (w.attempt (operation w.j w.retryCount w.carry B).2 (latency w.j w.retryCount)))
    (n : ℕ) :
    Inv (workerRun loopCount operation latency others B carry n).1
      (workerRun loopCount operation latency others B carry n).2 := by
  induction n with
  | zero => exact init
  | succ n ih =>
    have hframe := frame n _ _ ih
    simp only [workerRun, workerStep]
    split
    · next hrunning => exact step _ _ hframe hrunning
    · exact hframe

theorem WorkerState.running_iff {w : WorkerState α δ} :
    w.running loopCount ↔ w.escaped = none ∧ w.j < loopCount := by
  simp [running]

theorem WorkerState.finished_iff {w : WorkerState α δ} :
    w.finished loopCount ↔ w.escaped = none ∧ loopCount ≤ w.j := by
  simp [finished]

/-- A worker that finishes has been asked for no more operations than an `int` counts. -/
theorem WorkerState.loopCount_lt {w : WorkerState α δ} (h : w.finished loopCount) :
    loopCount < 2 ^ 31 := by
  obtain ⟨hnone, hj⟩ := finished_iff.mp h
  exact lt_of_le_of_lt hj (w.j_lt hnone)

/-- The counters stay inside the loops: `j` up to `loop_count`, `retry_count` up to 2. -/
theorem workerRun_bounds (n : ℕ) :
    (workerRun loopCount operation latency others B carry n).2.j ≤ loopCount ∧
      (workerRun loopCount operation latency others B carry n).2.retryCount ≤ 2 := by
  refine workerRun_invariant (fun _ w => w.j ≤ loopCount ∧ w.retryCount ≤ 2)
    ⟨Nat.zero_le _, Nat.zero_le _⟩ (fun _ _ _ h => h) (fun B w h hrunning => ?_) n
  obtain ⟨-, hj⟩ := WorkerState.running_iff.mp hrunning
  cases (operation w.j w.retryCount w.carry B).2 with
  | ok carry => exact ⟨hj, Nat.zero_le _⟩
  | error failure =>
    cases failure with
    | exception e =>
      rw [WorkerState.attempt_error, WorkerState.fail_exception]
      split
      · exact h
      · next hlast =>
        show w.j ≤ loopCount ∧ w.retryCount + 1 ≤ 2
        omega
    | abort => exact h
    | undefinedBehaviour => exact h

/-- An attempt that leaves the worker running counts up: its retries, or its operations. -/
theorem WorkerState.attempt_counts {w : WorkerState α δ} (result : Except Failure α) (latMs : δ)
    (hretry : w.retryCount ≤ 2) (h : (w.attempt result latMs).running loopCount) :
    3 * w.j + w.retryCount <
      3 * (w.attempt result latMs).j + (w.attempt result latMs).retryCount := by
  cases result with
  | ok carry =>
    simp only [attempt, succeed]
    omega
  | error failure =>
    cases failure with
    | exception e =>
      rw [attempt_error, fail_exception] at h ⊢
      split at h
      · -- the third exception has left the thread
        simp [running, leave] at h
      · next hlast =>
        rw [if_neg hlast]
        show 3 * w.j + w.retryCount < 3 * w.j + (w.retryCount + 1)
        omega
    | abort => simp [attempt, fail, leave, running] at h
    | undefinedBehaviour => simp [attempt, fail, leave, running] at h

/-- While a worker runs, every step was an attempt of its own. -/
theorem le_of_workerRun_running (n : ℕ)
    (h : (workerRun loopCount operation latency others B carry n).2.running loopCount) :
    n ≤ 3 * (workerRun loopCount operation latency others B carry n).2.j +
      (workerRun loopCount operation latency others B carry n).2.retryCount := by
  induction n with
  | zero => exact Nat.zero_le _
  | succ n ih =>
    have hretry : (workerRun loopCount operation latency others B carry n).2.retryCount ≤ 2 :=
      (workerRun_bounds n).2
    simp only [workerRun, workerStep] at h ⊢
    split at h
    · next hrunning =>
      have hcount := WorkerState.attempt_counts _ _ hretry h
      have hn := ih hrunning
      simp only [hrunning, if_true]
      omega
    · next hstopped => exact absurd h hstopped

/-- **A worker ends.** After three attempts for each operation it has finished, or something
escaped from it. -/
theorem workerRun_ends :
    (workerRun loopCount operation latency others B carry (3 * loopCount)).2.running loopCount
      = false := by
  by_contra hrunning
  rw [Bool.not_eq_false] at hrunning
  have hle := le_of_workerRun_running _ hrunning
  have hj := (WorkerState.running_iff.mp hrunning).2
  have hretry : (workerRun loopCount operation latency others B carry (3 * loopCount)).2.retryCount
      ≤ 2 := (workerRun_bounds (3 * loopCount)).2
  omega

end Runs

end ObsBench
