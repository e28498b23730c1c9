import ObsBench.Bench.Iteration
import ObsBench.Bench.Keys
import ObsBench.Bench.WorkerService
import ObsBench.Client.Deletion

/-!
# The two benchmarks

An iteration of either benchmark generates its data and its keys, runs its workers, and, in a
build without `DEBUG`, deletes the keys it wrote. The clean-up matters for the next iteration of
the same configuration, whose append workers start at position 0.

* **`lookup_of_run`**: an iteration changes only the keys of the threads that made an attempt.
* **`iteration_restores`**: a completed iteration leaves the bucket as it was.
* **`iterations_leave_no_residue`**: so does any sequence of them.
-/

namespace ObsBench

/-- The arguments of a benchmark, and the loop count it gets for them. The object size comes
from `state.range`, an `int64_t`, and the loop count is a `size_t`. So is the number of threads an
`int64_t`, but an `int` counts them before the first worker starts. -/
structure Config where
  objectSize : ℕ
  numThreads : ℕ
  loopCount : ℕ
  objectSize_lt : objectSize < 2 ^ 63
  numThreads_lt : numThreads < 2 ^ 31
  loopCount_lt : loopCount < 2 ^ 64

/-- `generate_data`: the character `a`, `size` times. -/
def generateData (size : ℕ) (h : size < 2 ^ 64) : StdString where
  bytes := List.replicate size letterA.val
  length_lt := by rwa [List.length_replicate]

def Config.data (cfg : Config) : StdString :=
  generateData cfg.objectSize (lt_trans cfg.objectSize_lt (by decide))

/-- One benchmark with its arguments. -/
inductive Benchmark where
  | putObject (cfg : Config)
  | appendObject (cfg : Config)

def Benchmark.cfg : Benchmark → Config
  | .putObject cfg => cfg
  | .appendObject cfg => cfg

/-- The key grid of the `put_object` benchmark, and the keys of the `append_object` benchmark. -/
def Config.putKey (cfg : Config) (i j : ℕ) : CString :=
  putObjectKey (cstr "put_object") cfg.objectSize cfg.numThreads i j

def Config.appendKey (cfg : Config) (i : ℕ) : CString :=
  appendObjectKey (cstr "append_object") cfg.objectSize cfg.numThreads i

def Benchmark.row : Benchmark → ℕ → List CString
  | .putObject cfg, i => (List.range cfg.loopCount).map (cfg.putKey i)
  | .appendObject cfg, i => [cfg.appendKey i]

/-- The keys the clean-up deletes: `group_keys`, and `keys`. -/
def Benchmark.keys : Benchmark → List CString
  | .putObject cfg => (List.range cfg.numThreads).flatMap (Benchmark.putObject cfg).row
  | .appendObject cfg => (List.range cfg.numThreads).map cfg.appendKey

/-- What the threads of the `put_object` benchmark do; `calls i j r` is attempt `r` of thread `i`
at operation `j`. -/
def putObjectOperations (cfg : Config) (calls : ℕ → ℕ → ℕ → PutCall) : ℕ → Operation Unit :=
  fun i => putObjectAttempt (calls i) (cfg.putKey i) cfg.data

def appendObjectOperations (cfg : Config) (calls : ℕ → ℕ → ℕ → AppendCall) :
    ℕ → Operation UInt64 :=
  fun i => appendObjectAttempt (calls i) (cfg.appendKey i) cfg.data

/-- A completed iteration: it runs until all threads are joined, and its clean-up returns. Every
attempt meets some fate, and no deletion is refused. Latencies are values of `δ`. -/
inductive Iteration (δ : Type) : Bucket → Benchmark → Bucket → Prop where
  | putObject {cfg : Config} {calls : ℕ → ℕ → ℕ → PutCall} {fate : ℕ → ℕ → ℕ → Fate}
      {bucket final : Bucket} {events : List (Event δ)} {s : IterationState Unit δ}
      {deleteCalls : ℕ → BatchDeleteCall}
      (hcalls : ∀ i j r, (calls i j r).Meets (fate i j r))
      (hrun : Transition.Run (IterationStep cfg.numThreads cfg.loopCount
        (putObjectOperations cfg calls)) (.start cfg.loopCount bucket ()) events s)
      (hjoined : s.Joined cfg.numThreads)
      (hdelete : ∀ n, (deleteCalls n).Meets fun _ => .removed)
      (hcleanup : deleteObjects deleteCalls s.bucket (Benchmark.putObject cfg).keys =
        (final, .ok ())) :
      Iteration δ bucket (.putObject cfg) final
  | appendObject {cfg : Config} {calls : ℕ → ℕ → ℕ → AppendCall} {fate : ℕ → ℕ → ℕ → Fate}
      {bucket final : Bucket} {events : List (Event δ)} {s : IterationState UInt64 δ}
      {deleteCalls : ℕ → BatchDeleteCall}
      (hcalls : ∀ i j r, (calls i j r).Meets (fate i j r))
      (hrun : Transition.Run (IterationStep cfg.numThreads cfg.loopCount
        (appendObjectOperations cfg calls)) (.start cfg.loopCount bucket 0) events s)
      (hjoined : s.Joined cfg.numThreads)
      (hdelete : ∀ n, (deleteCalls n).Meets fun _ => .removed)
      (hcleanup : deleteObjects deleteCalls s.bucket (Benchmark.appendObject cfg).keys =
        (final, .ok ())) :
      Iteration δ bucket (.appendObject cfg) final

/-! ## Who writes what -/

theorem Benchmark.mem_keys {b : Benchmark} {k : CString} :
    k ∈ b.keys ↔ ∃ i < b.cfg.numThreads, k ∈ b.row i := by
  cases b with
  | putObject cfg => simp [keys, Benchmark.cfg]
  | appendObject cfg =>
    simp only [keys, row, Benchmark.cfg, List.mem_map, List.mem_range, List.mem_singleton]
    exact ⟨fun ⟨i, hi, h⟩ => ⟨i, hi, h.symm⟩, fun ⟨i, hi, h⟩ => ⟨i, hi, h.symm⟩⟩

/-- Two threads of an iteration share no key. -/
theorem Benchmark.row_disjoint (b : Benchmark) {i i' : ℕ} (hne : i ≠ i') {k : CString}
    (hk : k ∈ b.row i) : k ∉ b.row i' := by
  intro hk'
  cases b with
  | putObject cfg =>
    obtain ⟨j, -, rfl⟩ := List.mem_map.mp hk
    obtain ⟨j', -, hkey⟩ := List.mem_map.mp hk'
    obtain ⟨-, -, -, hi, -⟩ := putObjectKey_inj hkey
    exact hne (Int.ofNat.inj hi).symm
  | appendObject cfg =>
    rw [row, List.mem_singleton] at hk hk'
    obtain ⟨-, -, -, hi⟩ := appendObjectKey_inj (hk.symm.trans hk')
    exact hne (Int.ofNat.inj hi)

/-- The operations of a thread change only the keys of its row. -/
def WritesRows {α : Type} (operations : ℕ → Operation α) (b : Benchmark) : Prop :=
  ∀ i j r carry B, j < b.cfg.loopCount → ∀ k ∉ b.row i,
    (operations i j r carry B).1.lookup k = B.lookup k

/-- The put operations write the keys of their own row alone. -/
theorem putObjectOperations_writesRows {cfg : Config} {calls : ℕ → ℕ → ℕ → PutCall}
    {fate : ℕ → ℕ → ℕ → Fate} (hcalls : ∀ i j r, (calls i j r).Meets (fate i j r)) :
    WritesRows (putObjectOperations cfg calls) (.putObject cfg) := by
  intro i j r carry B hj k hk
  have hne : k ≠ cfg.putKey i j := by
    rintro rfl
    exact hk (List.mem_map.mpr ⟨j, List.mem_range.mpr hj, rfl⟩)
  have hout := putObject_outcome (StringView.reads_ofString (cfg.putKey i j)) (hcalls i j r) B
    cfg.data.readable_view
  exact hout.frame hne

/-- The append operations write the key of their own row alone. -/
theorem appendObjectOperations_writesRows {cfg : Config} {calls : ℕ → ℕ → ℕ → AppendCall}
    {fate : ℕ → ℕ → ℕ → Fate} (hcalls : ∀ i j r, (calls i j r).Meets (fate i j r)) :
    WritesRows (appendObjectOperations cfg calls) (.appendObject cfg) := by
  intro i j r carry B _ k hk
  have hne : k ≠ cfg.appendKey i := fun heq => hk (List.mem_singleton.mpr heq)
  have hout := appendObject_outcome (StringView.reads_ofString (cfg.appendKey i)) (hcalls i j r) B
    cfg.data.readable_view carry
  exact hout.frame hne

variable {δ : Type}

/-- Thread `i` made an attempt. -/
def Attempted (i : ℕ) (events : List (Event δ)) : Prop :=
  ∃ j r ok latMs, .attempt i j r ok latMs ∈ events

section Frames

variable {α : Type} {b : Benchmark} {operations : ℕ → Operation α} {bucket : Bucket} {carry : α}
  {events : List (Event δ)} {s : IterationState α δ}

/-- **An iteration changes only the keys of the threads that made an attempt.** -/
theorem lookup_of_run (hwrites : WritesRows operations b)
    (h : Transition.Run (IterationStep b.cfg.numThreads b.cfg.loopCount operations)
      (.start b.cfg.loopCount bucket carry) events s) {k : CString}
    (hk : ∀ i < b.cfg.numThreads, Attempted i events → k ∉ b.row i) :
    s.bucket.lookup k = bucket.lookup k := by
  revert hk
  refine h.invariant (fun events s =>
    (∀ i < b.cfg.numThreads, Attempted i events → k ∉ b.row i) →
      s.bucket.lookup k = bucket.lookup k) (fun _ => rfl) ?_
  intro events s e s' hinv hstep hk
  have hbefore : s.bucket.lookup k = bucket.lookup k := by
    refine hinv fun i hi ⟨j, r, ok, latMs, hmem⟩ => ?_
    exact hk i hi ⟨j, r, ok, latMs, List.mem_append_left _ hmem⟩
  cases hstep with
  | @attempt i w latMs hi halive hw hrunning =>
    have hrow : k ∉ b.row i :=
      hk i hi ⟨_, _, _, _, List.mem_append_right _ (List.mem_singleton_self _)⟩
    have hj := (WorkerState.running_iff.mp hrunning).2
    subst hw
    exact (hwrites i _ _ _ _ hj k hrow).trans hbefore
  | merge hi halive hfinished hmerged => exact hbefore

/-- A thread that has not attempted anything has the carry it started with. -/
theorem carry_of_run {numThreads loopCount : ℕ}
    (h : Transition.Run (IterationStep numThreads loopCount operations)
      (.start loopCount bucket carry) events s) {i : ℕ} (hnone : ¬ Attempted i events) :
    (s.workers i).carry = carry := by
  revert hnone
  refine h.invariant (fun events s => ¬ Attempted i events → (s.workers i).carry = carry)
    (fun _ => rfl) ?_
  intro events s e s' hinv hstep hnone
  have hbefore : (s.workers i).carry = carry := by
    refine hinv fun ⟨j, r, ok, latMs, hmem⟩ => hnone ?_
    exact ⟨j, r, ok, latMs, List.mem_append_left _ hmem⟩
  cases hstep with
  | @attempt i' w latMs hi halive hw hrunning =>
    have hne : i ≠ i' := by
      rintro rfl
      exact hnone ⟨_, _, _, _, List.mem_append_right _ (List.mem_singleton_self _)⟩
    simpa [IterationState.attempt, Function.update_of_ne hne] using hbefore
  | @merge i' hi halive hfinished hmerged =>
    by_cases hne : i = i'
    · rw [hne] at hbefore ⊢
      simpa [IterationState.merge] using hbefore
    · simpa [IterationState.merge, Function.update_of_ne hne] using hbefore

/-- Deleting the keys of a benchmark undoes what its threads wrote, if none was there before. -/
theorem restored_of_run (hwrites : WritesRows operations b)
    (h : Transition.Run (IterationStep b.cfg.numThreads b.cfg.loopCount operations)
      (.start b.cfg.loopCount bucket carry) events s) (habsent : ∀ k ∈ b.keys, k ∉ bucket)
    {deleteCalls : ℕ → BatchDeleteCall} (hdelete : ∀ n, (deleteCalls n).Meets fun _ => .removed)
    {final : Bucket} (hcleanup : deleteObjects deleteCalls s.bucket b.keys = (final, .ok ())) :
    final = bucket := by
  rw [deleteObjects_meets (fun _ => .removed) hdelete, Prod.mk.injEq] at hcleanup
  rw [← hcleanup.1]
  apply Finmap.ext_lookup
  intro k
  by_cases hk : k ∈ b.keys
  · -- a key of the benchmark is gone, as it was at first
    obtain ⟨p, hp⟩ := List.mem_iff_getElem?.mp hk
    rw [Bucket.lookup_remove_of_removed hp rfl, Finmap.lookup_eq_none.mpr (habsent k hk)]
  · -- no thread has written any other key
    rw [Bucket.lookup_remove_of_not_removed fun p hp => absurd (List.mem_of_getElem? hp) hk]
    exact lookup_of_run hwrites h fun i hi _ hrow => hk (Benchmark.mem_keys.mpr ⟨i, hi, hrow⟩)

end Frames

/-! ## Sequences of iterations -/

/-- **A completed iteration leaves the bucket as it was.** -/
theorem iteration_restores {bucket final : Bucket} {b : Benchmark} (h : Iteration δ bucket b final)
    (habsent : ∀ k ∈ b.keys, k ∉ bucket) : final = bucket := by
  cases h with
  | @putObject cfg _ _ _ _ _ _ _ hcalls hrun _ hdelete hcleanup =>
    exact restored_of_run (b := .putObject cfg) (putObjectOperations_writesRows hcalls) hrun habsent
      hdelete hcleanup
  | @appendObject cfg _ _ _ _ _ _ _ hcalls hrun _ hdelete hcleanup =>
    exact restored_of_run (b := .appendObject cfg) (appendObjectOperations_writesRows hcalls) hrun
      habsent hdelete hcleanup

/-- In every state of an iteration that starts from `bucket`, a thread that has made no attempt
yet is about to append at position 0 to an object that does not exist. -/
def Benchmark.FirstAppendsAbsent (δ : Type) (bucket : Bucket) : Benchmark → Prop
  | .putObject _ => True
  | .appendObject cfg =>
    ∀ calls (fate : ℕ → ℕ → ℕ → Fate), (∀ i j r, (calls i j r).Meets (fate i j r)) →
      ∀ (events : List (Event δ)) s,
      Transition.Run (IterationStep cfg.numThreads cfg.loopCount (appendObjectOperations cfg calls))
        (.start cfg.loopCount bucket 0) events s →
      ∀ i < cfg.numThreads, ¬ Attempted i events →
        s.bucket.lookup (cfg.appendKey i) = none ∧ (s.workers i).carry = 0

/-- A thread's first append finds no object, for nobody else writes its key. -/
theorem firstAppendsAbsent {bucket : Bucket} {b : Benchmark} (habsent : ∀ k ∈ b.keys, k ∉ bucket) :
    b.FirstAppendsAbsent δ bucket := by
  cases b with
  | putObject cfg => trivial
  | appendObject cfg =>
    intro calls fate hcalls events s hrun i hi hnone
    have hrow : cfg.appendKey i ∈ (Benchmark.appendObject cfg).row i := List.mem_singleton_self _
    have hkey := habsent _ (Benchmark.mem_keys.mpr ⟨i, hi, hrow⟩)
    refine ⟨?_, carry_of_run hrun hnone⟩
    rw [← Finmap.lookup_eq_none.mpr hkey]
    refine lookup_of_run (b := .appendObject cfg) (appendObjectOperations_writesRows hcalls) hrun ?_
    rintro i' - hattempted
    refine Benchmark.row_disjoint _ ?_ hrow
    rintro rfl
    exact hnone hattempted

/-- Whatever the service does with the attempts, the threads change only the keys of their own
rows. -/
def Benchmark.ThreadsKeepToRows : Benchmark → Prop
  | .putObject cfg =>
    ∀ calls (fate : ℕ → ℕ → ℕ → Fate), (∀ i j r, (calls i j r).Meets (fate i j r)) →
      WritesRows (putObjectOperations cfg calls) (.putObject cfg)
  | .appendObject cfg =>
    ∀ calls (fate : ℕ → ℕ → ℕ → Fate), (∀ i j r, (calls i j r).Meets (fate i j r)) →
      WritesRows (appendObjectOperations cfg calls) (.appendObject cfg)

/-- In every run each thread writes its own row alone. -/
theorem threadsKeepToRows (b : Benchmark) : b.ThreadsKeepToRows := by
  cases b with
  | putObject cfg => exact fun _ _ hcalls => putObjectOperations_writesRows hcalls
  | appendObject cfg => exact fun _ _ hcalls => appendObjectOperations_writesRows hcalls

/-- **Benchmark iterations leave no residue.** After any sequence of completed iterations, none
of whose keys were in the bucket at first, the bucket is what it was. So whichever benchmark
comes next, none of its keys exists, its append workers start on absent objects, and no two of
its threads write the same key. -/
theorem iterations_leave_no_residue {initial bucket : Bucket} {benchmarks : List Benchmark}
    (habsent : ∀ b ∈ benchmarks, ∀ k ∈ b.keys, k ∉ initial)
    (h : Transition.Run (Iteration δ) initial benchmarks bucket) :
    bucket = initial ∧ ∀ next : Benchmark, (∀ k ∈ next.keys, k ∉ initial) →
      (∀ k ∈ next.keys, k ∉ bucket) ∧ next.FirstAppendsAbsent δ bucket ∧
      next.ThreadsKeepToRows ∧ ∀ i i', i ≠ i' → ∀ k ∈ next.row i, k ∉ next.row i' := by
  have hsame : bucket = initial := by
    revert habsent
    refine h.invariant (fun benchmarks bucket =>
      (∀ b ∈ benchmarks, ∀ k ∈ b.keys, k ∉ initial) → bucket = initial) (fun _ => rfl) ?_
    intro benchmarks bucket b final hinv hstep habsent
    have hbefore := hinv fun b hb => habsent b (List.mem_append_left _ hb)
    rw [hbefore] at hstep
    exact iteration_restores hstep (habsent b (List.mem_append_right _ (List.mem_singleton_self b)))
  refine ⟨hsame, fun next hnext => ?_⟩
  rw [hsame]
  exact ⟨hnext, firstAppendsAbsent hnext, threadsKeepToRows next,
    fun i i' hne k hk => next.row_disjoint hne hk⟩

/-- Two threads with one operation each on objects of one byte. -/
def tiny : Config := ⟨1, 2, 1, by decide, by decide, by decide⟩

/-- The first request of thread 0 is lost. -/
def firstOfZeroLost (i _j r : ℕ) : Fate := if i = 0 ∧ r = 0 then .lost else .applied

def tinyAppendCalls (i j r : ℕ) : AppendCall := .ofFate (firstOfZeroLost i j r)

/-- Where its keys are absent, an append iteration gets through with one retry. -/
theorem run_tiny_append {bucket : Bucket} (habsent : ∀ i, bucket.lookup (tiny.appendKey i) = none)
    (latMs latMs' latMs'' : δ) :
    ∃ s, Transition.Run (IterationStep 2 1 (appendObjectOperations tiny tinyAppendCalls))
      (.start 1 bucket 0) (pairEvents latMs latMs' latMs'') s ∧ s.Joined 2 := by
  have hkeys : tiny.appendKey 0 ≠ tiny.appendKey 1 := fun h => by
    obtain ⟨-, -, -, hi⟩ := appendObjectKey_inj h
    exact absurd hi (by decide)
  have hzero : ∀ {B : Bucket} {i}, B.lookup (tiny.appendKey i) = none →
      (0 : UInt64).toNat = (B.content (tiny.appendKey i)).length := fun h => by
    rw [Bucket.content_of_absent h]
    rfl
  have happlied : ∀ i r (B : Bucket), firstOfZeroLost i 0 r = .applied →
      B.lookup (tiny.appendKey i) = none → ∃ next,
      appendObjectOperations tiny tinyAppendCalls i 0 r 0 B =
        (B.insert (tiny.appendKey i) (B.content (tiny.appendKey i) ++ tiny.data.view.chars),
          .ok next) := by
    intro i r B hfate hnone
    have hmeets : (tinyAppendCalls i 0 r).Meets .applied := hfate ▸ AppendCall.ofFate_meets _
    obtain ⟨next, hnext, -⟩ := appendObject_applied (StringView.reads_ofString (tiny.appendKey i))
      hmeets tiny.data.view (hzero hnone)
    exact ⟨next, hnext⟩
  obtain ⟨e, hfirst⟩ : ∃ e, appendObjectOperations tiny tinyAppendCalls 0 0 0 0 bucket =
      (bucket, .error (.exception e)) :=
    appendObject_error (StringView.reads_ofString (tiny.appendKey 0))
      (AppendCall.ofFate_meets (firstOfZeroLost 0 0 0)) (by decide) (hzero (habsent 0))
      tiny.data.readable_view
  obtain ⟨next, hother⟩ := happlied 1 0 bucket rfl (habsent 1)
  -- the object of thread 0 is still absent
  obtain ⟨next', hretry⟩ := happlied 0 1 _ rfl
    ((Finmap.lookup_insert_of_ne bucket hkeys).trans (habsent 0))
  obtain ⟨s, hrun, hjoined, -⟩ := run_pair hfirst hother hretry latMs latMs' latMs''
  exact ⟨s, hrun, hjoined⟩

theorem iteration_tiny :
    Iteration ℚ ∅ (.putObject tiny) ∅ ∧ Iteration ℚ ∅ (.appendObject tiny) ∅ := by
  have hdelete : ∀ _ : ℕ, (BatchDeleteCall.ofOutcome fun _ => .removed).Meets fun _ => .removed :=
    fun _ => BatchDeleteCall.ofOutcome_meets _
  obtain ⟨s, hrun, hjoined⟩ := run_putObject_pair tiny.putKey tiny.data ∅ 3 5 (7 : ℚ)
  have hput : Iteration ℚ ∅ (.putObject tiny) _ :=
    .putObject (fun i j r => PutCall.ofFate_meets (firstUnheard i j r)) hrun hjoined hdelete
      (deleteObjects_meets (fun _ => .removed) hdelete _ _)
  obtain ⟨s', hrun', hjoined'⟩ := run_tiny_append (fun _ => Finmap.lookup_empty _) 3 5 (7 : ℚ)
  have happend : Iteration ℚ ∅ (.appendObject tiny) _ :=
    .appendObject (fun i j r => AppendCall.ofFate_meets (firstOfZeroLost i j r)) hrun' hjoined'
      hdelete (deleteObjects_meets (fun _ => .removed) hdelete _ _)
  have hempty : ∀ b : Benchmark, ∀ k ∈ b.keys, k ∉ (∅ : Bucket) :=
    fun _ _ _ => Finmap.notMem_empty
  rw [iteration_restores hput (hempty _)] at hput
  rw [iteration_restores happend (hempty _)] at happend
  exact ⟨hput, happend⟩

/-- The same append benchmark can run again after itself and a put benchmark. -/
theorem iterations_leave_no_residue_tiny :
    ∃ bucket, Transition.Run (Iteration ℚ) ∅ [.appendObject tiny, .putObject tiny] bucket ∧
      bucket = ∅ ∧ (Benchmark.appendObject tiny).FirstAppendsAbsent ℚ bucket := by
  have hrun : Transition.Run (Iteration ℚ) ∅ [.appendObject tiny, .putObject tiny] ∅ :=
    (Transition.Run.start.step iteration_tiny.2).step iteration_tiny.1
  obtain ⟨hsame, hnext⟩ := iterations_leave_no_residue (fun _ _ _ _ => Finmap.notMem_empty) hrun
  exact ⟨∅, hrun, hsame, (hnext (.appendObject tiny) fun _ _ => Finmap.notMem_empty).2.1⟩

end ObsBench
