import Mathlib.Data.List.Perm.Basic
import Mathlib.Logic.Function.Basic
import ObsBench.Bench.Tracer
import ObsBench.Bench.Worker
import ObsBench.Lib.Transition

/-!
# Benchmark iterations

An iteration starts its workers, waits for all of them, and appends one row to the tracer.
The workers share the bucket and, under a mutex, the vectors the latencies are merged into; an
iteration is a transition system whose steps are single attempts and single merge sections, in
any order. An exception that leaves a thread ends the process, so nothing follows it.

* **`Accounts`**: what the shared vectors hold, in terms of the attempts made so far.
* **`reported_row_accounts`**: a row that is appended accounts for every operation once.
-/

namespace ObsBench

variable {α δ : Type}

/-- The shared state of an iteration. `merged` marks the threads that left their merge section,
after which they end. -/
structure IterationState (α δ : Type) where
  bucket : Bucket
  workers : ℕ → WorkerState α δ
  merged : ℕ → Bool
  groupLatencies : List δ
  traceLatencies : ℕ → List δ

def IterationState.start (loopCount : ℕ) (bucket : Bucket) (carry : α) : IterationState α δ where
  bucket
  workers _ := .start loopCount carry
  merged _ := false
  groupLatencies := []
  traceLatencies _ := []

/-- Thread `i` makes its next attempt, which takes `latMs` milliseconds. -/
def IterationState.attempt (operations : ℕ → Operation α) (s : IterationState α δ) (i : ℕ)
    (latMs : δ) : IterationState α δ :=
  let w := s.workers i
  let (bucket, result) := operations i w.j w.retryCount w.carry s.bucket
  { s with
    bucket
    workers := Function.update s.workers i (w.attempt result latMs) }

/-- Thread `i` is in its merge section: its latencies are copied to the group and then moved. -/
def IterationState.merge (s : IterationState α δ) (i : ℕ) : IterationState α δ :=
  let w := s.workers i
  { s with
    workers := Function.update s.workers i { w with threadLocalLatencies := [] }
    merged := Function.update s.merged i true
    groupLatencies := s.groupLatencies ++ w.threadLocalLatencies
    traceLatencies := Function.update s.traceLatencies i w.threadLocalLatencies }

/-- What happens in an iteration: an attempt, with its place in the worker's loops, its success
and its latency, or a merge section. -/
inductive Event (δ : Type) where
  | attempt (i j retryCount : ℕ) (succeeded : Bool) (latMs : δ)
  | merge (i : ℕ)

def IterationState.Alive (s : IterationState α δ) : Prop := ∀ i, (s.workers i).escaped = none

inductive IterationStep (numThreads loopCount : ℕ) (operations : ℕ → Operation α) :
    IterationState α δ → Event δ → IterationState α δ → Prop where
  | attempt {s : IterationState α δ} {i : ℕ} {w : WorkerState α δ} (latMs : δ) (hi : i < numThreads)
      (halive : s.Alive) (hw : s.workers i = w) (hrunning : w.running loopCount) :
      IterationStep numThreads loopCount operations s
        (.attempt i w.j w.retryCount (operations i w.j w.retryCount w.carry s.bucket).2.isOk latMs)
        (s.attempt operations i latMs)
  | merge {s : IterationState α δ} {i : ℕ} (hi : i < numThreads) (halive : s.Alive)
      (hfinished : (s.workers i).finished loopCount) (hmerged : s.merged i = false) :
      IterationStep numThreads loopCount operations s (.merge i) (s.merge i)

def IterationState.Joined (numThreads : ℕ) (s : IterationState α δ) : Prop :=
  ∀ i < numThreads, s.merged i

/-- `trace_latencies`, which has one vector for each thread. -/
def IterationState.traceVector (numThreads : ℕ) (s : IterationState α δ) : List (List δ) :=
  (List.range numThreads).map s.traceLatencies

/-- The row a joined iteration appends. -/
def IterationState.row [Double δ] (s : IterationState α δ) (type : Bytes)
    (numThreads objectSize loopCount : ℕ) (seconds : δ) : DataFrameRow δ :=
  (appendRow [] type numThreads objectSize loopCount seconds s.groupLatencies
    (s.traceVector numThreads)).1

/-! ## Accounting -/

/-- The latencies of the successful attempts of thread `i` at operation `j`, in order. -/
def successes (i j : ℕ) : List (Event δ) → List δ :=
  List.filterMap fun
    | .attempt i' j' _ true latMs => if i' = i ∧ j' = j then some latMs else none
    | _ => none

theorem successes_append_success (i j r : ℕ) (latMs : δ) (events : List (Event δ)) :
    successes i j (events ++ [.attempt i j r true latMs]) = successes i j events ++ [latMs] := by
  simp [successes]

theorem successes_append_other {i j i' j' : ℕ} (h : ¬ (i' = i ∧ j' = j)) (r : ℕ) (latMs : δ)
    (events : List (Event δ)) :
    successes i j (events ++ [.attempt i' j' r true latMs]) = successes i j events := by
  simp [successes, h]

theorem successes_append_failure (i j i' j' r : ℕ) (latMs : δ) (events : List (Event δ)) :
    successes i j (events ++ [.attempt i' j' r false latMs]) = successes i j events := by
  simp [successes]

theorem successes_append_merge (i j i' : ℕ) (events : List (Event δ)) :
    successes i j (events ++ [.merge i']) = successes i j events := by
  simp [successes]

/-- The latencies of thread `i`, wherever they are kept. -/
def IterationState.recorded (s : IterationState α δ) (i : ℕ) : List δ :=
  if s.merged i then s.traceLatencies i else (s.workers i).threadLocalLatencies

/-- The books of an iteration: a thread has one latency for each operation it has done, that of
its only successful attempt; the group holds what the merged threads recorded; and an operation
that failed three times has ended its thread. -/
structure Accounts (numThreads loopCount : ℕ) (events : List (Event δ)) (s : IterationState α δ) :
    Prop where
  length : ∀ i, (s.recorded i).length = (s.workers i).j
  once : ∀ i j latMs, (s.recorded i)[j]? = some latMs → successes i j events = [latMs]
  later : ∀ i j, (s.workers i).j ≤ j → successes i j events = []
  bound : ∀ i, (s.workers i).j ≤ loopCount
  merged : ∀ i, s.merged i → (s.workers i).finished loopCount
  unmerged : ∀ i, s.merged i = false → s.traceLatencies i = []
  group : s.groupLatencies.Perm (s.traceVector numThreads).flatten
  failed : ∀ i j latMs, .attempt i j 2 false latMs ∈ events → (s.workers i).escaped ≠ none

/-- The books of a fresh iteration are empty and right. -/
theorem accounts_start (numThreads loopCount : ℕ) (bucket : Bucket) (carry : α) :
    Accounts numThreads loopCount [] (.start loopCount bucket carry : IterationState α δ) := by
  refine ⟨fun i => rfl, ?_, fun i j _ => rfl, fun i => Nat.zero_le _, ?_, fun i _ => rfl, ?_, ?_⟩
  · intro i j latMs h
    simp [IterationState.recorded, IterationState.start] at h
  · intro i h
    simp [IterationState.start] at h
  · simp [IterationState.start, IterationState.traceVector]
  · intro i j latMs h
    simp at h

/-- What an attempt of thread `i` changes: the bucket and the thread itself. -/
def IterationState.set (s : IterationState α δ) (i : ℕ) (bucket : Bucket) (w : WorkerState α δ) :
    IterationState α δ :=
  { s with bucket, workers := Function.update s.workers i w }

theorem IterationState.attempt_eq {operations : ℕ → Operation α} {s : IterationState α δ} {i : ℕ}
    {bucket : Bucket} {result : Except Failure α}
    (h : operations i (s.workers i).j (s.workers i).retryCount (s.workers i).carry s.bucket =
      (bucket, result)) (latMs : δ) :
    s.attempt operations i latMs = s.set i bucket ((s.workers i).attempt result latMs) := by
  rw [attempt, h, set]

section Accounting

variable {numThreads loopCount : ℕ} {events : List (Event δ)} {s : IterationState α δ} {i : ℕ}
  {w : WorkerState α δ} {bucket : Bucket}

@[simp] theorem IterationState.workers_set_self : (s.set i bucket w).workers i = w :=
  Function.update_self ..

theorem IterationState.workers_set_of_ne {k : ℕ} (hk : k ≠ i) :
    (s.set i bucket w).workers k = s.workers k :=
  Function.update_of_ne hk ..

/-- A thread that has not merged has recorded what its worker holds. -/
theorem IterationState.recorded_set_self (hmerged : s.merged i = false) :
    (s.set i bucket w).recorded i = w.threadLocalLatencies := by
  unfold recorded
  rw [show (s.set i bucket w).merged i = false from hmerged, workers_set_self]
  rfl

theorem IterationState.recorded_set_of_ne {k : ℕ} (hk : k ≠ i) :
    (s.set i bucket w).recorded k = s.recorded k := by
  unfold recorded
  rw [workers_set_of_ne hk]
  rfl

/-- A thread with an attempt to make has not merged, so its latencies are its own. -/
theorem Accounts.recorded_running (h : Accounts numThreads loopCount events s)
    (hrunning : (s.workers i).running loopCount) :
    s.merged i = false ∧ s.recorded i = (s.workers i).threadLocalLatencies := by
  have hmerged : s.merged i = false := by
    by_contra hne
    have hfinished := WorkerState.finished_iff.mp (h.merged i (Bool.not_eq_false _ ▸ hne))
    exact absurd (WorkerState.running_iff.mp hrunning).2 (not_lt.mpr hfinished.2)
  exact ⟨hmerged, by rw [IterationState.recorded, hmerged]; rfl⟩

/-- A thread that has merged is not the one that attempts, so it stays finished. -/
theorem Accounts.merged_set (h : Accounts numThreads loopCount events s)
    (hmerged : s.merged i = false) (k : ℕ) (hk : (s.set i bucket w).merged k) :
    ((s.set i bucket w).workers k).finished loopCount := by
  have hne : k ≠ i := by
    rintro rfl
    rw [show (s.set k bucket w).merged k = false from hmerged] at hk
    exact absurd hk Bool.false_ne_true
  rw [IterationState.workers_set_of_ne hne]
  exact h.merged k hk

/-- A successful attempt at operation `j` enters its latency in place `j` of the thread's own
vector: the thread has `j + 1` entries then, the new one is operation `j`'s only success, and the
other threads' books are untouched. -/
theorem Accounts.attempt_ok (h : Accounts numThreads loopCount events s) (halive : s.Alive)
    (hw : s.workers i = w) (hrunning : w.running loopCount) (carry : α) (latMs : δ) :
    Accounts numThreads loopCount (events ++ [.attempt i w.j w.retryCount true latMs])
      (s.set i bucket (w.succeed carry latMs)) := by
  obtain ⟨hmerged, hown⟩ := h.recorded_running (hw ▸ hrunning)
  have hrecorded :
      (s.set i bucket (w.succeed carry latMs)).recorded i = s.recorded i ++ [latMs] := by
    rw [IterationState.recorded_set_self hmerged, hown, hw]
    rfl
  have hlength : (s.recorded i).length = w.j := by rw [h.length i, hw]
  have hlater : successes i w.j events = [] := h.later i w.j (by rw [hw])
  refine ⟨fun k => ?_, fun k j lat hget => ?_, fun k j hle => ?_, fun k => ?_,
    h.merged_set hmerged, h.unmerged, h.group, fun k j lat hmem => ?_⟩
  · -- length: both sides grow for thread `i` alone
    by_cases hk : k = i
    · rw [hk, hrecorded, IterationState.workers_set_self, List.length_append, hlength]
      rfl
    · rw [IterationState.workers_set_of_ne hk, IterationState.recorded_set_of_ne hk]
      exact h.length k
  · -- once
    by_cases hk : k = i
    · rw [hk, hrecorded] at hget
      rw [hk]
      by_cases hlast : j = w.j
      · -- the new latency is the only success of its operation
        rw [hlast, ← hlength, List.getElem?_concat_length, Option.some.injEq] at hget
        rw [hlast, successes_append_success, hlater, hget, List.nil_append]
      · have hbefore : j < (s.recorded i).length := by
          have := (List.getElem?_eq_some_iff.mp hget).1
          rw [List.length_append, List.length_singleton] at this
          omega
        rw [List.getElem?_append_left hbefore] at hget
        rw [successes_append_other (by omega)]
        exact h.once i j lat hget
    · rw [IterationState.recorded_set_of_ne hk] at hget
      rw [successes_append_other (fun heq => hk heq.1.symm)]
      exact h.once k j lat hget
  · -- later: operation `w.j` is done now
    by_cases hk : k = i
    · rw [hk, IterationState.workers_set_self] at hle
      have hlt : w.j < j := hle
      rw [hk, successes_append_other (by omega)]
      exact h.later i j (by rw [hw]; omega)
    · rw [IterationState.workers_set_of_ne hk] at hle
      rw [successes_append_other (fun heq => hk heq.1.symm)]
      exact h.later k j hle
  · -- bound
    by_cases hk : k = i
    · rw [hk, IterationState.workers_set_self]
      exact (WorkerState.running_iff.mp hrunning).2
    · rw [IterationState.workers_set_of_ne hk]
      exact h.bound k
  · -- failed: no thread had ended before
    have hold : .attempt k j 2 false lat ∈ events := by simpa using hmem
    exact absurd (halive k) (h.failed k j lat hold)

/-- A failed attempt leaves the books alone; a third one ends the thread. -/
theorem Accounts.attempt_error (h : Accounts numThreads loopCount events s) (halive : s.Alive)
    (hw : s.workers i = w) (hrunning : w.running loopCount) (failure : Failure) (latMs : δ) :
    Accounts numThreads loopCount (events ++ [.attempt i w.j w.retryCount false latMs])
      (s.set i bucket (w.fail failure)) := by
  obtain ⟨hmerged, hown⟩ := h.recorded_running (hw ▸ hrunning)
  obtain ⟨hj, hlatencies⟩ := w.fail_keeps failure
  have hsame : ∀ k, ((s.set i bucket (w.fail failure)).workers k).j = (s.workers k).j ∧
      (s.set i bucket (w.fail failure)).recorded k = s.recorded k := by
    intro k
    by_cases hk : k = i
    · rw [hk, IterationState.workers_set_self, IterationState.recorded_set_self hmerged, hown, hw]
      exact ⟨hj, hlatencies⟩
    · rw [IterationState.workers_set_of_ne hk, IterationState.recorded_set_of_ne hk]
      exact ⟨rfl, rfl⟩
  refine ⟨fun k => ?_, fun k j lat hget => ?_, fun k j hle => ?_, fun k => ?_,
    h.merged_set hmerged, h.unmerged, h.group, fun k j lat hmem => ?_⟩
  · -- length
    rw [(hsame k).1, (hsame k).2]
    exact h.length k
  · -- once and later: a failure is no success
    rw [successes_append_failure]
    exact h.once k j lat ((hsame k).2 ▸ hget)
  · rw [successes_append_failure]
    exact h.later k j ((hsame k).1 ▸ hle)
  · -- bound
    rw [(hsame k).1]
    exact h.bound k
  · -- failed
    rcases List.mem_append.mp hmem with hold | hnew
    · exact absurd (halive k) (h.failed k j lat hold)
    · -- this attempt was the third one
      simp only [List.mem_singleton, Event.attempt.injEq, true_and] at hnew
      obtain ⟨rfl, rfl, hlast, rfl⟩ := hnew
      rw [IterationState.workers_set_self]
      cases failure with
      | exception e =>
        rw [WorkerState.fail_exception, if_pos hlast.symm]
        exact Option.some_ne_none _
      | abort => exact Option.some_ne_none _
      | undefinedBehaviour => exact Option.some_ne_none _

/-- A vector that was empty so far is put in its place: the others keep theirs. -/
theorem flatten_map_update_perm {β : Type*} {f : ℕ → List β} {i n : ℕ} (hi : i < n)
    (hempty : f i = []) (l : List β) :
    (((List.range n).map (Function.update f i l)).flatten).Perm
      (((List.range n).map f).flatten ++ l) := by
  induction n with
  | zero => omega
  | succ n ih =>
    rw [List.range_succ, List.map_append, List.map_append, List.flatten_append,
      List.flatten_append, List.map_singleton, List.map_singleton, List.flatten_singleton,
      List.flatten_singleton]
    rcases Nat.lt_succ_iff_lt_or_eq.mp hi with hlt | rfl
    · -- place `i` lies below `n`: the new vector passes behind that of `n`
      have hswap : (((List.range n).map f).flatten ++ l ++ f n).Perm
          (((List.range n).map f).flatten ++ f n ++ l) := by
        rw [List.append_assoc, List.append_assoc]
        exact List.perm_append_comm.append_left _
      rw [Function.update_of_ne (Nat.ne_of_gt hlt)]
      exact ((ih hlt).append_right (f n)).trans hswap
    · -- place `i` is the last one, and it was empty
      have hbelow : (List.range i).map (Function.update f i l) = (List.range i).map f := by
        apply List.map_congr_left
        intro k hk
        rw [Function.update_of_ne (Nat.ne_of_lt (List.mem_range.mp hk))]
      rw [hbelow, Function.update_self, hempty, List.append_nil]

/-- A merge section moves the thread's vector to its place in the trace and copies it to the
group. What the thread has recorded stays the same list, read from the trace from now on. -/
theorem Accounts.merge (h : Accounts numThreads loopCount events s) (hi : i < numThreads)
    (halive : s.Alive)
    (hfinished : (s.workers i).finished loopCount) (hmerged : s.merged i = false) :
    Accounts numThreads loopCount (events ++ [.merge i]) (s.merge i) := by
  have hsame : ∀ k, ((s.merge i).workers k).j = (s.workers k).j ∧
      ((s.merge i).workers k).escaped = (s.workers k).escaped ∧
      (s.merge i).recorded k = s.recorded k := by
    intro k
    by_cases hk : k = i
    · rw [hk]
      simp [IterationState.merge, IterationState.recorded, hmerged]
    · simp [IterationState.merge, IterationState.recorded, Function.update_of_ne hk]
  have hfin : ∀ k, ((s.merge i).workers k).finished loopCount = (s.workers k).finished loopCount :=
    fun k => by rw [WorkerState.finished, WorkerState.finished, (hsame k).1, (hsame k).2.1]
  refine ⟨fun k => ?_, fun k j lat hget => ?_, fun k j hle => ?_, fun k => ?_, fun k hk => ?_,
    fun k hk => ?_, ?_, fun k j lat hmem => ?_⟩
  · -- length, once, later and bound speak of `j` and of what is recorded
    rw [(hsame k).1, (hsame k).2.2]
    exact h.length k
  · rw [successes_append_merge]
    exact h.once k j lat ((hsame k).2.2 ▸ hget)
  · rw [successes_append_merge]
    exact h.later k j ((hsame k).1 ▸ hle)
  · rw [(hsame k).1]
    exact h.bound k
  · -- merged
    rw [hfin]
    by_cases hki : k = i
    · rw [hki]
      exact hfinished
    · exact h.merged k (by simpa [IterationState.merge, Function.update_of_ne hki] using hk)
  · -- unmerged: the vectors of the others are untouched
    have hki : k ≠ i := by
      rintro rfl
      simp [IterationState.merge] at hk
    simp only [IterationState.merge, Function.update_of_ne hki] at hk ⊢
    exact h.unmerged k hk
  · -- group: what is copied to it is what is moved to the place of thread `i`
    have hmoved : (s.traceVector numThreads).flatten ++ (s.workers i).threadLocalLatencies =
        ((List.range numThreads).map s.traceLatencies).flatten ++
          (s.workers i).threadLocalLatencies := rfl
    have hgroup := h.group.append_right (s.workers i).threadLocalLatencies
    rw [hmoved] at hgroup
    exact hgroup.trans (flatten_map_update_perm hi (h.unmerged i hmerged) _).symm
  · -- failed
    have hold : .attempt k j 2 false lat ∈ events := by simpa using hmem
    exact absurd (halive k) (h.failed k j lat hold)

end Accounting

/-- The books are right in every reachable state. -/
theorem accounts_of_run {numThreads loopCount : ℕ} {operations : ℕ → Operation α} {bucket : Bucket}
    {carry : α} {events : List (Event δ)} {s : IterationState α δ}
    (h : Transition.Run (IterationStep numThreads loopCount operations)
      (.start loopCount bucket carry) events s) : Accounts numThreads loopCount events s := by
  refine h.invariant _ (accounts_start numThreads loopCount bucket carry) ?_
  intro events s e s' hinv hstep
  cases hstep with
  | @attempt i w latMs hi halive hw hrunning =>
    subst hw
    set w := s.workers i with hw
    have hattempt : s.attempt operations i latMs =
        s.set i (operations i w.j w.retryCount w.carry s.bucket).1
          (w.attempt (operations i w.j w.retryCount w.carry s.bucket).2 latMs) := rfl
    rw [hattempt]
    cases (operations i w.j w.retryCount w.carry s.bucket).2 with
    | ok carry => exact hinv.attempt_ok halive rfl hrunning carry latMs
    | error failure => exact hinv.attempt_error halive rfl hrunning failure latMs
  | merge hi halive hfinished hmerged => exact hinv.merge hi halive hfinished hmerged

/-- **A reported row accounts for every operation exactly once.** When all threads are joined,
the row counts one sample for each operation of each thread; a thread's vector has in place `j`
the latency of its one successful attempt at operation `j`; and the group is made of all of
them. If some operation failed all of its attempts, the threads are never all joined. -/
theorem reported_row_accounts [Double δ] {numThreads loopCount : ℕ} {operations : ℕ → Operation α}
    {bucket : Bucket} {carry : α} {events : List (Event δ)} {s : IterationState α δ}
    (h : Transition.Run (IterationStep numThreads loopCount operations)
      (.start loopCount bucket carry) events s) :
    (s.Joined numThreads → ∀ type objectSize seconds, ∃ row,
      s.row type numThreads objectSize loopCount seconds = row ∧
      row.totalOps = numThreads * loopCount ∧ row.traceLatencies.length = numThreads ∧
      (∀ i < numThreads, ∃ lats, row.traceLatencies[i]? = some lats ∧ lats.length = loopCount ∧
        ∀ j < loopCount, ∃ latMs, lats[j]? = some latMs ∧ successes i j events = [latMs]) ∧
      row.latencies.Perm row.traceLatencies.flatten) ∧
    (∀ i j, (∀ r < 3, ∃ latMs, .attempt i j r false latMs ∈ events) → i < numThreads →
      ¬ s.Joined numThreads) := by
  have hbooks := accounts_of_run h
  constructor
  · intro hjoined type objectSize seconds
    -- a joined thread has finished, so what it merged has one entry for each operation
    have htrace : ∀ i < numThreads, s.traceLatencies i = s.recorded i ∧
        (s.traceLatencies i).length = loopCount := by
      intro i hi
      have hmerged := hjoined i hi
      have hrecorded : s.recorded i = s.traceLatencies i := by
        rw [IterationState.recorded, if_pos hmerged]
      have hj : (s.workers i).j = loopCount :=
        le_antisymm (hbooks.bound i) (WorkerState.finished_iff.mp (hbooks.merged i hmerged)).2
      exact ⟨hrecorded.symm, by rw [← hrecorded, hbooks.length i, hj]⟩
    refine ⟨_, rfl, ?_, by simp [IterationState.row, appendRow, IterationState.traceVector], ?_,
      hbooks.group⟩
    · have hlengths : ((List.range numThreads).map s.traceLatencies).map List.length =
          List.replicate numThreads loopCount := by
        rw [List.map_map, List.eq_replicate_iff]
        refine ⟨by simp, fun len hlen => ?_⟩
        obtain ⟨i, hi, rfl⟩ := List.mem_map.mp hlen
        exact (htrace i (List.mem_range.mp hi)).2
      show s.groupLatencies.length = _
      rw [hbooks.group.length_eq, IterationState.traceVector, List.length_flatten, hlengths]
      simp
    · intro i hi
      refine ⟨s.traceLatencies i, ?_, (htrace i hi).2, fun j hj => ?_⟩
      · simp [IterationState.row, appendRow, IterationState.traceVector, hi]
      · have hlt : j < (s.traceLatencies i).length := by rw [(htrace i hi).2]; exact hj
        refine ⟨_, List.getElem?_eq_getElem hlt, hbooks.once i j _ ?_⟩
        rw [← (htrace i hi).1]
        exact List.getElem?_eq_getElem hlt
  · -- the third failure has ended the thread, and an ended thread never merges
    intro i j hthree hi hjoined
    obtain ⟨latMs, hmem⟩ := hthree 2 (by omega)
    exact hbooks.failed i j latMs hmem
      (WorkerState.finished_iff.mp (hbooks.merged i (hjoined i hi))).1

/-! ## A run with a retry -/

section Steps

variable {numThreads loopCount : ℕ} {operations : ℕ → Operation α} {s : IterationState α δ}

theorem IterationState.Alive.start (hloop : loopCount < 2 ^ 60) (bucket : Bucket) (carry : α) :
    (IterationState.start loopCount bucket carry : IterationState α δ).Alive :=
  fun _ => if_pos (by omega)

theorem IterationState.Alive.set (h : s.Alive) {i : ℕ} {w : WorkerState α δ}
    (hw : w.escaped = none) (bucket : Bucket) : (s.set i bucket w).Alive := by
  intro k
  by_cases hk : k = i
  · rw [hk, workers_set_self, hw]
  · rw [workers_set_of_ne hk]
    exact h k

theorem IterationState.Alive.merge (h : s.Alive) (i : ℕ) : (s.merge i).Alive := by
  intro k
  by_cases hk : k = i
  · rw [hk]
    simpa [IterationState.merge] using h i
  · simpa [IterationState.merge, Function.update_of_ne hk] using h k

/-- An attempt of thread `i` whose outcome is known. -/
theorem IterationStep.of_attempt {i : ℕ} {w : WorkerState α δ} {bucket : Bucket}
    {result : Except Failure α} (hi : i < numThreads) (halive : s.Alive) (hw : s.workers i = w)
    (hrunning : w.running loopCount)
    (h : operations i w.j w.retryCount w.carry s.bucket = (bucket, result)) (latMs : δ) :
    IterationStep numThreads loopCount operations s
      (.attempt i w.j w.retryCount result.isOk latMs)
      (s.set i bucket (w.attempt result latMs)) := by
  have hstep : IterationStep numThreads loopCount operations s _ _ :=
    .attempt latMs hi halive hw hrunning
  subst hw
  rwa [IterationState.attempt_eq h, h] at hstep

/-- Two threads with one operation each. The first attempt of thread 0 fails, and it is repeated
behind the operation of thread 1, which merges first. -/
def pairEvents (latMs latMs' latMs'' : δ) : List (Event δ) :=
  [.attempt 0 0 0 false latMs, .attempt 1 0 0 true latMs', .attempt 0 0 1 true latMs'', .merge 1,
    .merge 0]

/-- Two threads with one operation each: thread 0 fails, thread 1 succeeds, thread 0 retries and
both merge. -/
theorem run_pair {bucket bucket₁ bucket₂ bucket₃ : Bucket} {carry next next' : α} {e : Exception}
    (hfirst : operations 0 0 0 carry bucket = (bucket₁, .error (.exception e)))
    (hother : operations 1 0 0 carry bucket₁ = (bucket₂, .ok next))
    (hretry : operations 0 0 1 carry bucket₂ = (bucket₃, .ok next')) (latMs latMs' latMs'' : δ) :
    ∃ s, Transition.Run (IterationStep 2 1 operations) (.start 1 bucket carry)
      (pairEvents latMs latMs' latMs'') s ∧ s.Joined 2 ∧ s.bucket = bucket₃ := by
  set w : WorkerState α δ := .start 1 carry with hw
  set w' : WorkerState α δ := w.fail (.exception e) with hw'
  set s₀ : IterationState α δ := .start 1 bucket carry with hs₀
  set s₁ := s₀.set 0 bucket₁ w' with hs₁
  set s₂ := s₁.set 1 bucket₂ (w.succeed next latMs') with hs₂
  set s₃ := s₂.set 0 bucket₃ (w'.succeed next' latMs'') with hs₃
  have halive₀ : s₀.Alive := .start (by omega) bucket carry
  have halive₁ : s₁.Alive := halive₀.set rfl bucket₁
  have halive₂ : s₂.Alive := halive₁.set rfl bucket₂
  have halive₃ : s₃.Alive := halive₂.set rfl bucket₃
  have hworker₂ : s₂.workers 0 = w' := by
    rw [hs₂, IterationState.workers_set_of_ne zero_ne_one, hs₁, IterationState.workers_set_self]
  have hworker₃ : s₃.workers 1 = w.succeed next latMs' := by
    rw [hs₃, IterationState.workers_set_of_ne one_ne_zero, hs₂, IterationState.workers_set_self]
  have hstep₁ : IterationStep 2 1 operations s₀ (.attempt 0 0 0 false latMs) s₁ :=
    .of_attempt two_pos halive₀ rfl rfl hfirst latMs
  have hstep₂ : IterationStep 2 1 operations s₁ (.attempt 1 0 0 true latMs') s₂ :=
    .of_attempt one_lt_two halive₁ (IterationState.workers_set_of_ne one_ne_zero) rfl hother latMs'
  have hstep₃ : IterationStep 2 1 operations s₂ (.attempt 0 0 1 true latMs'') s₃ :=
    .of_attempt two_pos halive₂ hworker₂ rfl hretry latMs''
  -- both operations are done, so the threads merge
  have hmerge₁ : IterationStep 2 1 operations s₃ (.merge 1) (s₃.merge 1) :=
    .merge one_lt_two halive₃ (by rw [hworker₃]; rfl) rfl
  have hmerge₀ : IterationStep 2 1 operations (s₃.merge 1) (.merge 0) ((s₃.merge 1).merge 0) :=
    .merge two_pos (halive₃.merge 1) rfl rfl
  refine ⟨_, ((((Transition.Run.start.step hstep₁).step hstep₂).step hstep₃).step hmerge₁).step
    hmerge₀, fun i hi => ?_, rfl⟩
  interval_cases i <;> rfl

end Steps

/-- The client gets an error for the first put of thread 0, which took effect. -/
def firstUnheard (i _j r : ℕ) : Fate := if i = 0 ∧ r = 0 then .appliedButError else .applied

/-- The run of `run_pair` for uploads of which the first is applied but not heard of. -/
theorem run_putObject_pair (keys : ℕ → ℕ → CString) (data : StdString) (bucket : Bucket)
    (latMs latMs' latMs'' : δ) :
    ∃ s, Transition.Run (IterationStep 2 1 fun i =>
        putObjectAttempt (fun j r => .ofFate (firstUnheard i j r)) (keys i) data)
      (.start 1 bucket ()) (pairEvents latMs latMs' latMs'') s ∧ s.Joined 2 := by
  set operations : ℕ → Operation Unit := fun i =>
    putObjectAttempt (fun j r => .ofFate (firstUnheard i j r)) (keys i) data
  have happlied : ∀ i r B, firstUnheard i 0 r = .applied →
      ∃ B', operations i 0 r () B = (B', .ok ()) := by
    intro i r B hfate
    have hmeets : (PutCall.ofFate (firstUnheard i 0 r)).Meets .applied :=
      hfate ▸ PutCall.ofFate_meets _
    exact ⟨_, putObject_applied (StringView.reads_ofString _) hmeets B data.readable_view⟩
  obtain ⟨e, hfirst⟩ : ∃ e, operations 0 0 0 () bucket = (_, .error (.exception e)) :=
    putObject_error (StringView.reads_ofString (keys 0 0))
      (PutCall.ofFate_meets (firstUnheard 0 0 0)) (by decide) bucket data.readable_view
  obtain ⟨B₂, hother⟩ := happlied 1 0 _ rfl
  obtain ⟨B₃, hretry⟩ := happlied 0 1 B₂ rfl
  obtain ⟨s, hrun, hjoined, -⟩ := run_pair hfirst hother hretry latMs latMs' latMs''
  exact ⟨s, hrun, hjoined⟩

/-- The first operation of thread 0 is reported with the latency of its second attempt. -/
theorem reported_row_accounts_pair :
    ∃ s : IterationState Unit ℚ, Transition.Run (IterationStep 2 1 fun i =>
        putObjectAttempt (fun j r => .ofFate (firstUnheard i j r)) (fun _ => decimal i)
          ⟨text "ab", by decide⟩) (.start 1 ∅ ()) (pairEvents 3 5 7) s ∧
      ∃ row, s.row (text "put_object") 2 2 1 1 = row ∧ row.totalOps = 2 * 1 ∧
        row.latencies.Perm row.traceLatencies.flatten ∧
        ∃ lats, row.traceLatencies[0]? = some lats ∧ lats[0]? = some 7 := by
  obtain ⟨s, hrun, hjoined⟩ := run_putObject_pair (fun i _ => decimal i) ⟨text "ab", by decide⟩ ∅
    3 5 (7 : ℚ)
  obtain ⟨row, hrow, htotal, -, htrace, hperm⟩ :=
    (reported_row_accounts hrun).1 hjoined (text "put_object") 2 1
  obtain ⟨lats, hlats, -, hentries⟩ := htrace 0 two_pos
  obtain ⟨latMs, hentry, honce⟩ := hentries 0 one_pos
  obtain rfl : 7 = latMs := (List.singleton_inj.mp honce)
  exact ⟨s, hrun, row, hrow, htotal, hperm, lats, hlats, hentry⟩

end ObsBench
