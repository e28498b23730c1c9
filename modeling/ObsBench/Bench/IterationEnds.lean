import Mathlib.Algebra.BigOperators.Group.Finset.Basic
import Mathlib.Algebra.Order.BigOperators.Group.Finset
import ObsBench.Bench.Benchmark

/-!
# How iterations end

The attempts and merge sections of an iteration come in any order. Whatever the order, there are
boundedly many of them, and as long as no thread has ended with an exception and some thread is
not joined, one of the threads can go on. So an iteration ends, with all threads joined or with a
thread that ends the process.

An append worker starts at position 0. If its object is not empty then, every attempt is refused,
and the iteration is one of those that end the process.

* **`iteration_ends`**: the bound, and that nothing gets stuck before.
* **`stale_append_fails`**: an append iteration on an object with contents.
-/

namespace ObsBench

variable {α δ : Type}

/-! ## A bound on the steps of a thread -/

/-- The steps a thread has taken, at most: attempts, the one that ended it, its merge section. -/
def WorkerState.spent (w : WorkerState α δ) (merged : Bool) : ℕ :=
  3 * w.j + w.retryCount + (if w.escaped.isSome then 1 else 0) + (if merged then 1 else 0)

/-- The counters of a thread: only a thread with an operation left retries it, and only one that has
none left and has not ended merges. -/
structure WorkerState.Within (loopCount : ℕ) (w : WorkerState α δ) (merged : Bool) : Prop where
  retry : w.retryCount ≤ 2
  bound : w.j ≤ loopCount
  retrying : w.retryCount ≠ 0 → w.j < loopCount
  merged : merged = true → w.j = loopCount ∧ w.escaped = none

section Counters

variable {loopCount : ℕ} {w : WorkerState α δ} {merged : Bool}

/-- A thread takes at most three steps for each operation and one more. -/
theorem WorkerState.Within.spent_le (h : w.Within loopCount merged) :
    w.spent merged ≤ 3 * loopCount + 1 := by
  obtain ⟨hretry, hbound, hretrying, hmerged⟩ := h
  -- an operation that is retried is not done yet
  have hattempts : 3 * w.j + w.retryCount ≤ 3 * loopCount := by
    by_cases hzero : w.retryCount = 0
    · omega
    · have hlt := hretrying hzero
      omega
  unfold spent
  cases merged with
  | true => simpa [(hmerged rfl).2] using hattempts
  | false =>
    split <;> simp <;> omega

/-- An attempt of a running thread keeps its counters in bounds and counts as a step. -/
theorem WorkerState.Within.attempt (h : w.Within loopCount merged)
    (hrunning : w.running loopCount) (result : Except Failure α) (latMs : δ) :
    (w.attempt result latMs).Within loopCount merged ∧
      w.spent merged < (w.attempt result latMs).spent merged := by
  obtain ⟨hretry, hbound, hretrying, hmerged⟩ := h
  obtain ⟨hnone, hj⟩ := running_iff.mp hrunning
  have hfalse : merged = false := by
    by_contra hne
    have hlast := (hmerged (by simpa using hne)).1
    omega
  subst hfalse
  -- whatever ends the thread is the one step more
  have hended : ∀ failure : Failure, (w.leave failure).Within loopCount false ∧
      w.spent false < (w.leave failure).spent false := by
    intro failure
    exact ⟨⟨hretry, hbound, fun _ => hj, nofun⟩, by simp [spent, leave, hnone]⟩
  cases result with
  | ok carry =>
    refine ⟨⟨Nat.zero_le _, hj, fun hne => absurd rfl hne, nofun⟩, ?_⟩
    simp only [spent, attempt_ok, succeed, hnone]
    simp
    omega
  | error failure =>
    cases failure with
    | exception e =>
      rw [attempt_error, fail_exception]
      split
      · exact hended _
      · next hlast =>
        refine ⟨⟨by show w.retryCount + 1 ≤ 2; omega, hbound, fun _ => hj, nofun⟩, ?_⟩
        simp only [spent, hnone]
        omega
    | abort => exact hended _
    | undefinedBehaviour => exact hended _

end Counters

/-! ## The whole iteration -/

section Iterations

variable {numThreads loopCount : ℕ} {operations : ℕ → Operation α} {bucket : Bucket} {carry : α}
  {events : List (Event δ)} {s : IterationState α δ}

/-- All threads of the iteration keep their counters in bounds. -/
def IterationState.Within (loopCount : ℕ) (s : IterationState α δ) : Prop :=
  ∀ i, (s.workers i).Within loopCount (s.merged i)

def IterationState.spent (numThreads : ℕ) (s : IterationState α δ) : ℕ :=
  ∑ i ∈ Finset.range numThreads, (s.workers i).spent (s.merged i)

/-- When one thread has spent more and the others the same, the iteration has spent more. -/
theorem IterationState.spent_lt {s' : IterationState α δ} {i : ℕ} (hi : i < numThreads)
    (hthread : (s.workers i).spent (s.merged i) < (s'.workers i).spent (s'.merged i))
    (hothers : ∀ k, k ≠ i → s'.workers k = s.workers k ∧ s'.merged k = s.merged k) :
    s.spent numThreads < s'.spent numThreads := by
  refine Finset.sum_lt_sum (fun k _ => ?_) ⟨i, Finset.mem_range.mpr hi, hthread⟩
  by_cases hk : k = i
  · rw [hk]
    exact hthread.le
  · rw [(hothers k hk).1, (hothers k hk).2]

/-- A step moves one thread on and leaves the counters of the others. -/
theorem IterationState.Within.step {s' : IterationState α δ} {e : Event δ} (h : s.Within loopCount)
    (hstep : IterationStep numThreads loopCount operations s e s') :
    s'.Within loopCount ∧ s.spent numThreads < s'.spent numThreads := by
  cases hstep with
  | @attempt i w latMs hi halive hw hrunning =>
    subst hw
    set result := (operations i (s.workers i).j (s.workers i).retryCount (s.workers i).carry
      s.bucket).2 with hresult
    obtain ⟨hwithin, hspent⟩ := (h i).attempt hrunning result latMs
    have hself : (s.attempt operations i latMs).workers i = (s.workers i).attempt result latMs :=
      Function.update_self ..
    have hothers : ∀ k, k ≠ i → (s.attempt operations i latMs).workers k = s.workers k :=
      fun k hk => Function.update_of_ne hk ..
    refine ⟨fun k => ?_, spent_lt hi (by rwa [hself]) fun k hk => ⟨hothers k hk, rfl⟩⟩
    by_cases hk : k = i
    · rw [hk, hself]
      exact hwithin
    · rw [hothers k hk]
      exact h k
  | @merge i hi halive hfinished hmerged =>
    -- the counters stay, and the merge section is spent
    obtain ⟨hnone, hj⟩ := WorkerState.finished_iff.mp hfinished
    have hself : (s.merge i).merged i = true := Function.update_self ..
    have hworker : (s.merge i).workers i =
        { s.workers i with threadLocalLatencies := [] } := Function.update_self ..
    have hothers : ∀ k, k ≠ i → (s.merge i).workers k = s.workers k ∧
        (s.merge i).merged k = s.merged k :=
      fun k hk => ⟨Function.update_of_ne hk .., Function.update_of_ne hk ..⟩
    refine ⟨fun k => ?_, spent_lt hi ?_ hothers⟩
    · by_cases hk : k = i
      · obtain ⟨hretry, hbound, hretrying, -⟩ := h i
        rw [hk, hself, hworker]
        exact ⟨hretry, hbound, hretrying, fun _ => ⟨le_antisymm hbound hj, hnone⟩⟩
      · rw [(hothers k hk).1, (hothers k hk).2]
        exact h k
    · rw [hself, hworker, hmerged]
      simp [WorkerState.spent]

/-- In every reachable state there are no more events than the threads have spent steps. -/
theorem spent_of_run
    (h : Transition.Run (IterationStep numThreads loopCount operations)
      (.start loopCount bucket carry) events s) :
    s.Within loopCount ∧ events.length ≤ s.spent numThreads := by
  obtain ⟨hwithin, hlength⟩ := h.length_le (·.Within loopCount) (·.spent numThreads)
    (fun i => ⟨Nat.zero_le _, Nat.zero_le _, by simp [IterationState.start],
      by simp [IterationState.start]⟩)
    fun _ _ _ hinv hstep => hinv.step hstep
  exact ⟨hwithin, le_trans (Nat.le_add_right _ _) hlength⟩

/-- While all threads live and some thread is not joined, that thread can go on: it has an operation
left, or it can merge. -/
theorem IterationState.Alive.exists_step [Double δ] (halive : s.Alive)
    (hjoined : ¬ s.Joined numThreads) :
    ∃ e s', IterationStep numThreads loopCount operations s e s' := by
  obtain ⟨i, hi⟩ := not_forall.mp hjoined
  obtain ⟨hi, hmerged⟩ := Classical.not_imp.mp hi
  by_cases hj : (s.workers i).j < loopCount
  · exact ⟨_, _, .attempt 0 hi halive rfl (WorkerState.running_iff.mpr ⟨halive i, hj⟩)⟩
  · refine ⟨_, _, .merge hi halive (WorkerState.finished_iff.mpr ⟨halive i, ?_⟩) ?_⟩
    · omega
    · simpa using hmerged

/-- **An iteration ends.** In every order of attempts and merge sections there are at most
`3 * loopCount` attempts and one merge section for each thread. And in every state that is reached,
either all threads are joined, or something has escaped from a thread, which ends the process, or
some thread can go on. -/
theorem iteration_ends [Double δ]
    (h : Transition.Run (IterationStep numThreads loopCount operations)
      (.start loopCount bucket carry) events s) :
    events.length ≤ numThreads * (3 * loopCount + 1) ∧
      (s.Joined numThreads ∨ (∃ i, (s.workers i).escaped ≠ none) ∨
        ∃ e s', IterationStep numThreads loopCount operations s e s') := by
  obtain ⟨hwithin, hlength⟩ := spent_of_run h
  constructor
  · have hsum : s.spent numThreads ≤ ∑ _i ∈ Finset.range numThreads, (3 * loopCount + 1) :=
      Finset.sum_le_sum fun i _ => (hwithin i).spent_le
    rw [Finset.sum_const_nat fun _ _ => rfl, Finset.card_range] at hsum
    exact hlength.trans hsum
  · by_cases hjoined : s.Joined numThreads
    · exact .inl hjoined
    · by_cases halive : s.Alive
      · exact .inr (.inr (halive.exists_step hjoined))
      · exact .inr (.inl (not_forall.mp halive))

end Iterations

/-- Two threads and one retry, on the way to a bound of eight steps. -/
theorem iteration_ends_pair :
    ∃ events, ∃ s : IterationState Unit ℚ, Transition.Run (IterationStep 2 1 fun i =>
        putObjectAttempt (fun j r => .ofFate (firstUnheard i j r)) (fun _ => decimal i) blockAB)
        (.start 1 ∅ ()) events s ∧
      .attempt 0 0 0 false 3 ∈ events ∧ s.Joined 2 ∧ events.length ≤ 2 * (3 * 1 + 1) := by
  obtain ⟨s, hrun, hjoined⟩ := run_putObject_pair (fun i _ => decimal i) blockAB ∅ 3 5 (7 : ℚ)
  exact ⟨_, s, hrun, List.mem_cons_self .., hjoined, (iteration_ends hrun).1⟩

/-! ## Appends to an object that is there -/

section Stale

variable {cfg : Config} {calls : ℕ → ℕ → ℕ → AppendCall} {fate : ℕ → ℕ → ℕ → Fate}
  {bucket : Bucket} {events : List (Event δ)} {s s' : IterationState UInt64 δ}

/-- **What a step is for one thread**: an attempt of its own, or something that leaves its place in
the loops and, unless another thread makes an attempt, the bucket. -/
theorem IterationStep.cases_of_thread {numThreads loopCount : ℕ} {operations : ℕ → Operation α}
    {s s' : IterationState α δ} {e : Event δ}
    (h : IterationStep numThreads loopCount operations s e s') (i : ℕ) :
    (∃ latMs, s' = s.attempt operations i latMs) ∨
    ((s'.workers i).j = (s.workers i).j ∧ (s'.workers i).carry = (s.workers i).carry ∧
      (s'.bucket = s.bucket ∨ ∃ i' j r carry, i' ≠ i ∧
        s'.bucket = (operations i' j r carry s.bucket).1)) := by
  cases h with
  | @attempt i' w latMs hi halive hw hrunning =>
    by_cases hk : i = i'
    · subst hk
      exact .inl ⟨latMs, rfl⟩
    · have hworker : (s.attempt operations i' latMs).workers i = s.workers i :=
        Function.update_of_ne hk ..
      rw [hworker]
      exact .inr ⟨rfl, rfl, .inr ⟨i', _, _, _, Ne.symm hk, rfl⟩⟩
  | @merge i' hi halive hfinished hmerged =>
    right
    by_cases hk : i = i'
    · subst hk
      simp [IterationState.merge]
    · have hworker : (s.merge i').workers i = s.workers i := Function.update_of_ne hk ..
      rw [hworker]
      exact ⟨rfl, rfl, .inl rfl⟩

/-- What one append attempt of thread `i` does. -/
theorem appendObjectOperations_outcome (hcalls : ∀ i j r, (calls i j r).Meets (fate i j r))
    (i j r : ℕ) (carry : UInt64) (B : Bucket) :
    AppendOutcome B (cfg.appendKey i) cfg.data.bytes carry (fate i j r)
      (appendObjectOperations cfg calls i j r carry B).1
      (appendObjectOperations cfg calls i j r carry B).2 := by
  have hout := appendObject_outcome (StringView.reads_ofString (cfg.appendKey i)) (hcalls i j r) B
    cfg.data.readable_view carry
  rw [StdString.chars_view] at hout
  exact hout

/-- At a position the service refuses nothing happens. -/
theorem AppendOutcome.of_ne {B B' : Bucket} {key : CString} {body : Bytes} {startPos : UInt64}
    {fate : Fate} {result : Except Failure UInt64}
    (h : AppendOutcome B key body startPos fate B' result)
    (hpos : startPos.toNat ≠ (B.content key).length) :
    ∃ e, B' = B ∧ result = .error (.exception e) := by
  cases h with
  | applied happly | appliedButError happly | lost happly => exact absurd happly hpos
  | refused _ e => exact ⟨e, rfl, rfl⟩

/-- Thread `i` is still at its first operation and its object is as it was. -/
structure Stuck (cfg : Config) (bucket : Bucket) (i : ℕ) (s : IterationState UInt64 δ) : Prop where
  first : (s.workers i).j = 0
  position : (s.workers i).carry = 0
  object : s.bucket.lookup (cfg.appendKey i) = bucket.lookup (cfg.appendKey i)

/-- Thread `i` stays stuck: its append is refused, and nobody else writes its key. -/
theorem Stuck.step {i : ℕ} {e : Event δ} (hcalls : ∀ i j r, (calls i j r).Meets (fate i j r))
    (hstale : bucket.content (cfg.appendKey i) ≠ []) (h : Stuck cfg bucket i s)
    (hstep : IterationStep cfg.numThreads cfg.loopCount (appendObjectOperations cfg calls) s e s') :
    Stuck cfg bucket i s' := by
  obtain ⟨hfirst, hposition, hobject⟩ := h
  rcases hstep.cases_of_thread i with ⟨latMs, rfl⟩ | ⟨hj, hcarry, hbucket⟩
  · -- position 0 is not where the object ends, so the attempt is refused
    have hpos : (s.workers i).carry.toNat ≠ (s.bucket.content (cfg.appendKey i)).length := by
      rw [hposition, Bucket.content_congr hobject]
      exact fun hzero => hstale (List.eq_nil_of_length_eq_zero hzero.symm)
    obtain ⟨e, hbucket, herror⟩ := (appendObjectOperations_outcome hcalls i _ _ _ _).of_ne hpos
    rw [IterationState.attempt_eq (Prod.ext hbucket herror)]
    exact ⟨by simpa using hfirst, by simpa using hposition, hobject⟩
  · refine ⟨hj.trans hfirst, hcarry.trans hposition, ?_⟩
    rcases hbucket with hsame | ⟨i', j, r, carry, hne, hattempt⟩
    · rw [hsame, hobject]
    · -- another thread appends to another object
      have hkey : cfg.appendKey i ≠ cfg.appendKey i' := by
        intro heq
        obtain ⟨-, -, -, hi⟩ := appendObjectKey_inj heq
        exact hne (Int.ofNat.inj hi).symm
      rw [hattempt, (appendObjectOperations_outcome hcalls i' j r carry s.bucket).frame hkey,
        hobject]

theorem stuck_of_run (hcalls : ∀ i j r, (calls i j r).Meets (fate i j r)) {i : ℕ}
    (hstale : bucket.content (cfg.appendKey i) ≠ [])
    (h : Transition.Run (IterationStep cfg.numThreads cfg.loopCount
      (appendObjectOperations cfg calls)) (.start cfg.loopCount bucket 0) events s) :
    Stuck cfg bucket i s :=
  h.invariant (fun _ s => Stuck cfg bucket i s) ⟨rfl, rfl, rfl⟩ fun _ _ _ _ hinv hstep =>
    hinv.step hcalls hstale hstep

/-- A thread whose object was there before never finishes its first operation. -/
theorem not_joined_of_stale (hcalls : ∀ i j r, (calls i j r).Meets (fate i j r)) {i : ℕ}
    (hi : i < cfg.numThreads) (hloop : 0 < cfg.loopCount)
    (hstale : bucket.content (cfg.appendKey i) ≠ [])
    (h : Transition.Run (IterationStep cfg.numThreads cfg.loopCount
      (appendObjectOperations cfg calls)) (.start cfg.loopCount bucket 0) events s) :
    ¬ s.Joined cfg.numThreads := by
  intro hjoined
  have hj := (WorkerState.finished_iff.mp ((accounts_of_run h).merged i (hjoined i hi))).2
  rw [(stuck_of_run hcalls hstale h).first] at hj
  omega

/-- **Appending to an object that is there fails.** If the object of some thread is not empty when
an append iteration starts, then whatever the service does the object stays as it is and the
threads are never all joined: when no thread can go on, something has escaped from one. -/
theorem stale_append_fails [Double δ] (hcalls : ∀ i j r, (calls i j r).Meets (fate i j r)) {i : ℕ}
    (hi : i < cfg.numThreads) (hloop : 0 < cfg.loopCount)
    (hstale : bucket.content (cfg.appendKey i) ≠ [])
    (h : Transition.Run (IterationStep cfg.numThreads cfg.loopCount
      (appendObjectOperations cfg calls)) (.start cfg.loopCount bucket 0) events s) :
    s.bucket.lookup (cfg.appendKey i) = bucket.lookup (cfg.appendKey i) ∧
      ¬ s.Joined cfg.numThreads ∧
      ((¬ ∃ e s', IterationStep cfg.numThreads cfg.loopCount (appendObjectOperations cfg calls)
        s e s') → ∃ k, (s.workers k).escaped ≠ none) := by
  have hjoined := not_joined_of_stale hcalls hi hloop hstale h
  refine ⟨(stuck_of_run hcalls hstale h).object, hjoined, fun hstopped => ?_⟩
  by_contra hnone
  have halive : s.Alive := fun k => by_contra fun hk => hnone ⟨k, hk⟩
  exact hstopped (halive.exists_step hjoined)

/-- What an earlier process has left. -/
def stale : Bucket := Finmap.insert (tiny.appendKey 0) (text "x") ∅

theorem stale_append_fails_once :
    ∃ events, ∃ s : IterationState UInt64 ℚ,
      Transition.Run (IterationStep tiny.numThreads tiny.loopCount
        (appendObjectOperations tiny fun _ _ _ => .ofFate .applied)) (.start 1 stale 0) events s ∧
      s.bucket.lookup (tiny.appendKey 0) = some (text "x") ∧ ¬ s.Joined tiny.numThreads := by
  have hlookup : stale.lookup (tiny.appendKey 0) = some (text "x") := Finmap.lookup_insert _
  have hstale : stale.content (tiny.appendKey 0) ≠ [] := by
    rw [Bucket.content, hlookup]
    decide
  have hrun : Transition.Run (IterationStep tiny.numThreads tiny.loopCount
      (appendObjectOperations tiny fun _ _ _ => .ofFate .applied))
      (.start tiny.loopCount stale 0) _ _ :=
    .single (.attempt (1 : ℚ) two_pos (.start (by decide) stale 0) rfl rfl)
  obtain ⟨hobject, hjoined, -⟩ := stale_append_fails (i := 0)
    (fun _ _ _ => AppendCall.ofFate_meets .applied) two_pos one_pos hstale hrun
  exact ⟨_, _, hrun, hobject.trans hlookup, hjoined⟩

end Stale

end ObsBench
