import ObsBench.Bench.Worker

/-!
# Workers against the service

Every attempt of a worker has a fate, and the worker cannot tell a request that was lost from
one whose effect it did not hear of. A `put_object` attempt can simply be repeated. An
`append_object` attempt is repeated at the old position, which the service refuses once the
first try took effect.

* **`appendWorker_invariant`**: no block is appended twice or at a wrong offset, whatever the
  fates.
* **`workers_mask_faults_iff`**: the fault schedules both workers get through.
-/

namespace ObsBench

variable {δ : Type}

/-! ## The object of an append worker -/

def repeated (data : Bytes) (m : ℕ) : Bytes := (List.replicate m data).flatten

@[simp] theorem repeated_zero (data : Bytes) : repeated data 0 = [] := rfl

theorem repeated_succ (data : Bytes) (m : ℕ) :
    repeated data (m + 1) = repeated data m ++ data := by
  rw [repeated, List.replicate_succ', List.flatten_append, List.flatten_singleton, repeated]

@[simp] theorem length_repeated (data : Bytes) (m : ℕ) :
    (repeated data m).length = m * data.length := by
  simp [repeated]

/-- The object of a key after `m` appended blocks: absent as long as there was none. -/
def blocks (data : Bytes) (m : ℕ) : Option Bytes :=
  if m = 0 then none else some (repeated data m)

/-- The object that holds `m` blocks. -/
theorem content_of_blocks {B : Bucket} {key : CString} {data : Bytes} {m : ℕ}
    (h : B.lookup key = blocks data m) : B.content key = repeated data m := by
  rw [Bucket.content, h, blocks]
  split
  · next hzero => rw [hzero, repeated_zero, Option.getD_none]
  · rfl

/-- What one append attempt of the worker does. -/
theorem appendObjectAttempt_outcome {calls : ℕ → ℕ → AppendCall} {fate : ℕ → ℕ → Fate}
    (hcalls : ∀ j r, (calls j r).Meets (fate j r)) (key : CString) (data : StdString)
    (B : Bucket) (w : WorkerState UInt64 δ) :
    AppendOutcome B key data.bytes w.carry (fate w.j w.retryCount)
      (appendObjectAttempt calls key data w.j w.retryCount w.carry B).1
      (appendObjectAttempt calls key data w.j w.retryCount w.carry B).2 := by
  have hout := appendObject_outcome (StringView.reads_ofString key) (hcalls w.j w.retryCount) B
    data.readable_view w.carry
  rw [StdString.chars_view] at hout
  exact hout

/-- The object holds `m` blocks when `w.j` operations are done: one more if an effect went
unheard, which only a retry can follow. The worker's position is where it last heard the object
to end, as far as a `long long` reaches. -/
structure Appended (key : CString) (data : Bytes) (loopCount : ℕ) (B : Bucket)
    (w : WorkerState UInt64 δ) (m : ℕ) : Prop where
  object : B.lookup key = blocks data m
  count : m = w.j ∨ m = w.j + 1
  settled : w.retryCount = 0 → m = w.j
  position : w.carry.toNat = min (w.j * data.length) (2 ^ 63 - 1)
  unfinished : w.retryCount = 0 ∨ w.j < loopCount

/-- A failed append may have added its block all the same; the worker does not count it. -/
theorem Appended.fail {key : CString} {data : Bytes} {loopCount m m' : ℕ} {B B' : Bucket}
    {w : WorkerState UInt64 δ} (h : Appended key data loopCount B w m) (hj : w.j < loopCount)
    (hobject : B'.lookup key = blocks data m') (hcount : m' = w.j ∨ m' = w.j + 1)
    (e : Exception) : Appended key data loopCount B' (w.fail (.exception e)) m' where
  object := hobject
  count := by rwa [w.j_fail_exception]
  settled := fun hzero => absurd hzero (w.retryCount_fail_ne_zero e)
  position := by rw [w.carry_fail_exception, w.j_fail_exception, h.position]
  unfinished := .inr (by rwa [w.j_fail_exception])

/-- **One attempt keeps the count.** Cases on the outcome. A position the service takes is the
length of `m` blocks, so either `m` is `w.j` or the blocks are empty and do not count. -/
theorem Appended.attempt {key : CString} {data : StdString} {loopCount m : ℕ} {B B' : Bucket}
    {w : WorkerState UInt64 δ} {fate : Fate} {result : Except Failure UInt64}
    (h : Appended key data.bytes loopCount B w m) (hj : w.j < loopCount)
    (hout : AppendOutcome B key data.bytes w.carry fate B' result) (latMs : δ) :
    ∃ m', Appended key data.bytes loopCount B' (w.attempt result latMs) m' := by
  have hcontent := content_of_blocks h.object
  have hsucc : (w.j + 1) * data.bytes.length = w.j * data.bytes.length + data.bytes.length :=
    Nat.succ_mul _ _
  -- an accepted block is block number `w.j + 1`
  have hblock : w.carry.toNat = (B.content key).length →
      B.content key ++ data.bytes = repeated data.bytes (w.j + 1) ∧
        (B.content key).length = w.j * data.bytes.length := by
    intro hpos
    rcases h.count with hm | hm
    · rw [hcontent, hm, repeated_succ, length_repeated]
      exact ⟨rfl, rfl⟩
    · -- the position is behind `m` blocks only if they are empty
      have hempty : data.bytes.length = 0 := by
        rw [h.position, hcontent, length_repeated, hm] at hpos
        omega
      rw [hcontent, hm, List.eq_nil_of_length_eq_zero hempty]
      simp [repeated]
  have hextended : w.carry.toNat = (B.content key).length →
      (B.insert key (B.content key ++ data.bytes)).lookup key = blocks data.bytes (w.j + 1) := by
    intro hpos
    rw [(hblock hpos).1]
    exact Finmap.lookup_insert B
  cases hout with
  | @applied next hpos hnext =>
    refine ⟨w.j + 1, hextended hpos, .inl rfl, fun _ => rfl, ?_, .inl rfl⟩
    show next.toNat = min ((w.j + 1) * data.bytes.length) (2 ^ 63 - 1)
    rw [hnext, (hblock hpos).2, hsucc]
  | appliedButError hpos e =>
    -- the effect nobody heard of
    exact ⟨w.j + 1, h.fail hj (hextended hpos) (.inr rfl) e⟩
  | lost hpos e => exact ⟨m, h.fail hj h.object h.count e⟩
  | refused hpos e => exact ⟨m, h.fail hj h.object h.count e⟩

section AppendWorker

variable {calls : ℕ → ℕ → AppendCall} {fate : ℕ → ℕ → Fate} {key : CString} {data : StdString}
  {loopCount : ℕ} {latency : ℕ → ℕ → δ} {others : ℕ → Bucket → Bucket} {B : Bucket}

/-- Whatever the schedule, the object holds the counted blocks and at most one more. -/
theorem appended_workerRun (hcalls : ∀ j r, (calls j r).Meets (fate j r))
    (hothers : ∀ n B, (others n B).lookup key = B.lookup key) (habsent : B.lookup key = none)
    (n : ℕ) :
    ∃ m, Appended key data.bytes loopCount
      (workerRun loopCount (appendObjectAttempt calls key data) latency others B 0 n).1
      (workerRun loopCount (appendObjectAttempt calls key data) latency others B 0 n).2 m := by
  refine workerRun_invariant (fun B w => ∃ m, Appended key data.bytes loopCount B w m)
    ⟨0, habsent, .inl rfl, fun _ => rfl, by simp, .inl rfl⟩ ?_ ?_ n
  · rintro n B w ⟨m, h⟩
    exact ⟨m, { h with object := (hothers n B).trans h.object }⟩
  · rintro B w ⟨m, h⟩ hrunning
    exact h.attempt (WorkerState.running_iff.mp hrunning).2
      (appendObjectAttempt_outcome hcalls key data B w) _

/-- **No block is appended twice or at a wrong offset.** For every assignment of fates and in
every state of an append worker whose key is initially absent and is left alone by the others,
the object is `data` repeated as often as operations are done or once more, `next_start_pos` is
the length of the done ones, and a worker that finished has appended all of them once. -/
theorem appendWorker_invariant (hcalls : ∀ j r, (calls j r).Meets (fate j r))
    (hothers : ∀ n B, (others n B).lookup key = B.lookup key) (habsent : B.lookup key = none)
    (hlen : loopCount * data.bytes.length < 2 ^ 63) (n : ℕ) :
    ∃ B' w,
      workerRun loopCount (appendObjectAttempt calls key data) latency others B 0 n = (B', w) ∧
      ∃ m, (m = w.j ∨ m = w.j + 1) ∧ B'.lookup key = blocks data.bytes m ∧
        w.carry.toNat = w.j * data.bytes.length ∧
        (w.finished loopCount → m = loopCount ∧ w.j = loopCount) := by
  refine ⟨_, _, rfl, ?_⟩
  set s := workerRun loopCount (appendObjectAttempt calls key data) latency others B 0 n with hs
  obtain ⟨m, h⟩ : ∃ m, Appended key data.bytes loopCount s.1 s.2 m :=
    appended_workerRun hcalls hothers habsent n
  have hbound : s.2.j ≤ loopCount := (workerRun_bounds n).1
  refine ⟨m, h.count, h.object, ?_, fun hfinished => ?_⟩
  · have hle : s.2.j * data.bytes.length ≤ loopCount * data.bytes.length :=
      Nat.mul_le_mul_right _ hbound
    rw [h.position]
    omega
  · have hj := (WorkerState.finished_iff.mp hfinished).2
    have hm := h.settled (h.unfinished.resolve_right (by omega))
    omega

end AppendWorker

def blockAB : StdString := ⟨text "ab", by decide⟩

/-- First an effect the client does not hear of, then a lost request, then all is well. -/
def unheardThenLost (j r : ℕ) : Fate :=
  if j = 0 ∧ r = 0 then .appliedButError else if j = 0 ∧ r = 1 then .lost else .applied

def writeOther (_ : ℕ) (B : Bucket) : Bucket := B.insert (cstr "other") []

theorem writeOther_lookup (n : ℕ) (B : Bucket) :
    (writeOther n B).lookup (cstr "k") = B.lookup (cstr "k") :=
  Finmap.lookup_insert_of_ne B (by decide)

theorem appendWorker_invariant_unheard :
    ∃ B' w, workerRun 2 (appendObjectAttempt (fun j r => .ofFate (unheardThenLost j r)) (cstr "k")
        blockAB) (fun _ _ => (1 : ℚ)) writeOther ∅ 0 3 = (B', w) ∧
      ∃ m, (m = w.j ∨ m = w.j + 1) ∧ B'.lookup (cstr "k") = blocks (text "ab") m ∧
        w.carry.toNat = w.j * 2 ∧ (w.finished 2 → m = 2 ∧ w.j = 2) :=
  appendWorker_invariant (fun j r => AppendCall.ofFate_meets (unheardThenLost j r))
    writeOther_lookup rfl (by decide) 3

/-! ## Fault schedules

A schedule assigns a fate to every attempt of every operation. -/

/-- Of the three attempts of an operation at most two suffer a fault. -/
def AtMostTwoFaults (fate : ℕ → ℕ → Fate) (loopCount : ℕ) : Prop :=
  ∀ j < loopCount, ∃ r < 3, fate j r = .applied

/-- No attempt of operation `j` takes effect unheard before the first fault-free one. -/
def NoUnheardEffect (fate : ℕ → ℕ → Fate) (j : ℕ) : Prop :=
  ∀ r, (∀ r' ≤ r, fate j r' ≠ .applied) → fate j r ≠ .appliedButError

/-- A worker in the middle of an operation, all attempts so far having been faults. -/
def Retrying {α : Type} (fate : ℕ → ℕ → Fate) (w : WorkerState α δ) : Prop :=
  w.escaped = none ∧ ∀ r < w.retryCount, fate w.j r ≠ .applied

/-- A fresh worker is at its first operation, with no attempt behind it. -/
theorem Retrying.start {α : Type} {loopCount : ℕ} (hloop : loopCount < 2 ^ 31)
    (fate : ℕ → ℕ → Fate) (carry : α) :
    Retrying fate (.start loopCount carry : WorkerState α δ) :=
  ⟨if_pos (by omega), fun r hr => absurd hr (Nat.not_lt_zero r)⟩

/-- After a success the next operation begins, with no attempt behind it. -/
theorem Retrying.succeed {α : Type} {fate : ℕ → ℕ → Fate} {w : WorkerState α δ}
    (h : Retrying fate w) (hj : w.j + 1 < 2 ^ 31) (carry : α) (latMs : δ) :
    Retrying fate (w.succeed carry latMs) :=
  ⟨(if_pos hj).trans h.1, fun r hr => absurd hr (Nat.not_lt_zero r)⟩

/-- One more fault does not end a worker, because not all three attempts are faults. -/
theorem Retrying.fail {α : Type} {fate : ℕ → ℕ → Fate} {loopCount : ℕ} {w : WorkerState α δ}
    (h : Retrying fate w) (hfaults : AtMostTwoFaults fate loopCount) (hj : w.j < loopCount)
    (hfault : fate w.j w.retryCount ≠ .applied) (e : Exception) :
    Retrying fate (w.fail (.exception e)) := by
  have hall : ∀ r < w.retryCount + 1, fate w.j r ≠ .applied := by
    intro r hr
    rcases Nat.lt_succ_iff_lt_or_eq.mp hr with hlt | rfl
    · exact h.2 r hlt
    · exact hfault
  have hlast : w.retryCount ≠ 2 := by
    intro hlast
    obtain ⟨r, hr, happlied⟩ := hfaults w.j hj
    exact hall r (by omega) happlied
  simp only [Retrying, WorkerState.fail, hlast, if_false]
  exact ⟨h.1, hall⟩

/-- A worker that nothing escaped from and that runs no longer has finished. -/
theorem finished_of_retrying {α : Type} {fate : ℕ → ℕ → Fate} {loopCount : ℕ} {w : WorkerState α δ}
    (h : Retrying fate w) (hended : w.running loopCount = false) : w.finished loopCount := by
  rw [WorkerState.finished_iff]
  rw [← Bool.not_eq_true, WorkerState.running_iff] at hended
  exact ⟨h.1, not_lt.mp fun hj => hended ⟨h.1, hj⟩⟩

section Schedules

variable {loopCount : ℕ} {latency : ℕ → ℕ → δ} {others : ℕ → Bucket → Bucket} {B : Bucket}
  {data : StdString}

/-- The worker went through all its operations and each of its keys holds the data. -/
def PutWorkerSucceeds (calls : ℕ → ℕ → PutCall) (keys : ℕ → CString) (data : StdString)
    (loopCount : ℕ) (latency : ℕ → ℕ → δ) (others : ℕ → Bucket → Bucket) (B : Bucket) : Prop :=
  ∃ n B' w, workerRun loopCount (putObjectAttempt calls keys data) latency others B () n = (B', w) ∧
    w.finished loopCount ∧ ∀ j < loopCount, B'.lookup (keys j) = some data.bytes

def AppendWorkerSucceeds (calls : ℕ → ℕ → AppendCall) (key : CString) (data : StdString)
    (loopCount : ℕ) (latency : ℕ → ℕ → δ) (others : ℕ → Bucket → Bucket) (B : Bucket) : Prop :=
  ∃ n B' w,
    workerRun loopCount (appendObjectAttempt calls key data) latency others B 0 n = (B', w) ∧
    w.finished loopCount ∧ B'.lookup key = blocks data.bytes loopCount

/-- What one put attempt of the worker does. -/
theorem putObjectAttempt_outcome {calls : ℕ → ℕ → PutCall} {fate : ℕ → ℕ → Fate}
    (hcalls : ∀ j r, (calls j r).Meets (fate j r)) (keys : ℕ → CString) (data : StdString)
    (B : Bucket) (w : WorkerState Unit δ) :
    PutOutcome B (keys w.j) data.bytes (fate w.j w.retryCount)
      (putObjectAttempt calls keys data w.j w.retryCount w.carry B).1
      (putObjectAttempt calls keys data w.j w.retryCount w.carry B).2 := by
  have hout := putObject_outcome (StringView.reads_ofString (keys w.j)) (hcalls w.j w.retryCount) B
    data.readable_view
  rw [StdString.chars_view] at hout
  exact hout

/-- A put worker that retries its current operation and has stored the data of those before. -/
def Stored (fate : ℕ → ℕ → Fate) (keys : ℕ → CString) (data : Bytes) (loopCount : ℕ) (B : Bucket)
    (w : WorkerState Unit δ) : Prop :=
  w.j ≤ loopCount ∧ Retrying fate w ∧ ∀ j < w.j, B.lookup (keys j) = some data

/-- An attempt keeps what is stored: wherever a put lands, it stores the same data. -/
theorem Stored.attempt {fate : ℕ → ℕ → Fate} {keys : ℕ → CString} {B B' : Bucket}
    {w : WorkerState Unit δ} {result : Except Failure Unit}
    (h : Stored fate keys data.bytes loopCount B w) (hloop : loopCount < 2 ^ 31)
    (hfaults : AtMostTwoFaults fate loopCount) (hj : w.j < loopCount)
    (hout : PutOutcome B (keys w.j) data.bytes (fate w.j w.retryCount) B' result) (latMs : δ) :
    Stored fate keys data.bytes loopCount B' (w.attempt result latMs) := by
  obtain ⟨hle, hretrying, hkeys⟩ := h
  have hinsert : ∀ j < w.j + 1,
      Finmap.lookup (keys j) (B.insert (keys w.j) data.bytes) = some data.bytes := by
    intro j hlt
    -- two operations may share a key, for the data is the same
    by_cases hkey : keys j = keys w.j
    · rw [hkey, Finmap.lookup_insert]
    · rw [Finmap.lookup_insert_of_ne B hkey]
      have hne : j ≠ w.j := fun heq => hkey (congrArg keys heq)
      exact hkeys j (by omega)
  generalize hfate : fate w.j w.retryCount = f at hout
  cases hout with
  | applied => exact ⟨hj, hretrying.succeed (by omega) () latMs, hinsert⟩
  | appliedButError e =>
    have hretry := hretrying.fail hfaults hj (by rw [hfate]; decide) e
    rw [WorkerState.attempt_error]
    refine ⟨by rwa [w.j_fail_exception], hretry, fun j hlt => hinsert j ?_⟩
    rw [w.j_fail_exception] at hlt
    omega
  | lost e =>
    have hretry := hretrying.fail hfaults hj (by rw [hfate]; decide) e
    rw [WorkerState.attempt_error]
    refine ⟨by rwa [w.j_fail_exception], hretry, fun j hlt => hkeys j ?_⟩
    rwa [w.j_fail_exception] at hlt

/-- **A put worker gets through every schedule.** Repeating a put does no harm, so it does not
matter which side of the effect a fault is on. -/
theorem putWorker_succeeds {calls : ℕ → ℕ → PutCall} {fate : ℕ → ℕ → Fate} {keys : ℕ → CString}
    (hcalls : ∀ j r, (calls j r).Meets (fate j r))
    (hothers : ∀ n B, ∀ j < loopCount, (others n B).lookup (keys j) = B.lookup (keys j))
    (hloop : loopCount < 2 ^ 31) (hfaults : AtMostTwoFaults fate loopCount) :
    PutWorkerSucceeds calls keys data loopCount latency others B := by
  set s := workerRun loopCount (putObjectAttempt calls keys data) latency others B ()
    (3 * loopCount) with hs
  have hinv : Stored fate keys data.bytes loopCount s.1 s.2 := by
    refine workerRun_invariant _ ⟨Nat.zero_le _, .start hloop fate (), by simp⟩ ?_ ?_ _
    · rintro n B w ⟨hle, hretrying, hkeys⟩
      refine ⟨hle, hretrying, fun j hj => ?_⟩
      exact (hothers n B j (lt_of_lt_of_le hj hle)).trans (hkeys j hj)
    · intro B w h hrunning
      exact h.attempt hloop hfaults (WorkerState.running_iff.mp hrunning).2
        (putObjectAttempt_outcome hcalls keys data B w) _
  obtain ⟨-, hretrying, hkeys⟩ := hinv
  have hfinished : s.2.finished loopCount := finished_of_retrying hretrying workerRun_ends
  refine ⟨3 * loopCount, _, _, rfl, hfinished, fun j hj => hkeys j ?_⟩
  exact lt_of_lt_of_le hj (WorkerState.finished_iff.mp hfinished).2

/-! ## Schedules an append worker gets through -/

/-- What an append operation needs: its position fits a `long long`, and nothing it tried took
effect unheard. -/
def Appendable (fate : ℕ → ℕ → Fate) (data : Bytes) (j : ℕ) : Prop :=
  j * data.length < 2 ^ 63 ∧ NoUnheardEffect fate j

/-- An append worker whose object is exactly what its operations so far have appended. -/
structure InStep (key : CString) (data : Bytes) (B : Bucket) (w : WorkerState UInt64 δ) : Prop where
  object : B.content key = repeated data w.j
  position : w.carry.toNat = min (w.j * data.length) (2 ^ 63 - 1)

/-- An append that is applied and heard of moves object and position on together. -/
theorem InStep.applied {key : CString} {B : Bucket} {w : WorkerState UInt64 δ} {next : UInt64}
    (h : InStep key data.bytes B w)
    (hnext : next.toNat = min ((B.content key).length + data.bytes.length) (2 ^ 63 - 1))
    (latMs : δ) :
    InStep key data.bytes (B.insert key (B.content key ++ data.bytes)) (w.succeed next latMs) := by
  constructor
  · rw [Bucket.content_insert, h.object]
    exact (repeated_succ _ _).symm
  · apply hnext.trans
    rw [h.object, length_repeated, ← Nat.succ_mul]
    rfl

/-- A failure without an effect moves neither the object nor the position. -/
theorem InStep.fail {key : CString} {B : Bucket} {w : WorkerState UInt64 δ}
    (h : InStep key data.bytes B w) (e : Exception) :
    InStep key data.bytes B (w.fail (.exception e)) := by
  constructor
  · rw [w.j_fail_exception, h.object]
  · rw [w.j_fail_exception, w.carry_fail_exception, h.position]

/-- A bucket with the same object will do. -/
theorem InStep.frame {key : CString} {data : Bytes} {B B' : Bucket} {w : WorkerState UInt64 δ}
    (h : InStep key data B w) (hframe : B'.content key = B.content key) : InStep key data B' w :=
  ⟨hframe.trans h.object, h.position⟩

/-- An append worker that never loses step: it retries, stays in step, and its object exists as
soon as one operation is done. -/
def KeepsStep (fate : ℕ → ℕ → Fate) (key : CString) (data : Bytes) (B : Bucket)
    (w : WorkerState UInt64 δ) : Prop :=
  Retrying fate w ∧ InStep key data B w ∧ (0 < w.j → (B.lookup key).isSome)

/-- Under the condition no attempt loses step. Cases on the outcome: the service takes the
position, and an unheard effect can only be that of an empty block. -/
theorem KeepsStep.attempt {fate : ℕ → ℕ → Fate} {key : CString} {B B' : Bucket}
    {w : WorkerState UInt64 δ} {result : Except Failure UInt64}
    (h : KeepsStep fate key data.bytes B w) (hloop : loopCount < 2 ^ 31)
    (hfaults : AtMostTwoFaults fate loopCount) (hj : w.j < loopCount)
    (hok : data.bytes = [] ∨ Appendable fate data.bytes w.j)
    (hout : AppendOutcome B key data.bytes w.carry (fate w.j w.retryCount) B' result)
    (latMs : δ) :
    KeepsStep fate key data.bytes B' (w.attempt result latMs) := by
  obtain ⟨hretrying, hstep, hexists⟩ := h
  have hexists' : ∀ e, 0 < (w.fail (.exception e)).j → (B.lookup key).isSome := by
    intro e hpos
    rw [w.j_fail_exception] at hpos
    exact hexists hpos
  have hinserted : ∀ body, ((B.insert key body).lookup key).isSome := by
    intro body
    rw [Finmap.lookup_insert, Option.isSome_some]
  generalize hfate : fate w.j w.retryCount = f at hout
  cases hout with
  | applied hpos hnext =>
    exact ⟨hretrying.succeed (by omega) _ latMs, hstep.applied hnext latMs, fun _ => hinserted _⟩
  | appliedButError hpos e =>
    have hretry := hretrying.fail hfaults hj (by rw [hfate]; decide) e
    rcases hok with hempty | ⟨-, hunheard⟩
    · -- an empty block can be appended again
      refine ⟨hretry, (hstep.fail e).frame ?_, fun _ => hinserted _⟩
      rw [Bucket.content_insert, hempty, List.append_nil]
    · -- the condition excludes this fault
      have hall : ∀ r ≤ w.retryCount, fate w.j r ≠ .applied := by
        intro r hr
        rcases Nat.lt_or_eq_of_le hr with hlt | rfl
        · exact hretrying.2 r hlt
        · rw [hfate]
          decide
      exact absurd hfate (hunheard w.retryCount hall)
  | lost hpos e =>
    exact ⟨hretrying.fail hfaults hj (by rw [hfate]; decide) e, hstep.fail e, hexists' e⟩
  | refused hpos e =>
    -- the position is the length of the object
    refine absurd ?_ hpos
    rw [hstep.position, hstep.object, length_repeated]
    rcases hok with hempty | ⟨hlen, -⟩
    · simp [hempty]
    · omega

/-- What is enough for an append worker: a fault-free attempt at each operation, no unheard effect
before it, and positions that a `long long` holds. -/
theorem appendWorker_succeeds {calls : ℕ → ℕ → AppendCall} {fate : ℕ → ℕ → Fate} {key : CString}
    (hcalls : ∀ j r, (calls j r).Meets (fate j r))
    (hothers : ∀ n B, (others n B).lookup key = B.lookup key) (habsent : B.lookup key = none)
    (hloop : loopCount < 2 ^ 31) (hfaults : AtMostTwoFaults fate loopCount)
    (hok : data.bytes = [] ∨ ∀ j < loopCount, Appendable fate data.bytes j) :
    AppendWorkerSucceeds calls key data loopCount latency others B := by
  have hempty := Bucket.content_of_absent habsent
  set s := workerRun loopCount (appendObjectAttempt calls key data) latency others B 0
    (3 * loopCount) with hs
  have hinv : KeepsStep fate key data.bytes s.1 s.2 := by
    refine workerRun_invariant _ ⟨.start hloop fate 0, ⟨hempty, by simp⟩, by simp⟩ ?_ ?_ _
    · rintro n B w ⟨hretrying, hstep, hexists⟩
      refine ⟨hretrying, hstep.frame (Bucket.content_congr (hothers n B)), fun hpos => ?_⟩
      rw [hothers]
      exact hexists hpos
    · intro B w h hrunning
      have hj := (WorkerState.running_iff.mp hrunning).2
      exact h.attempt hloop hfaults hj (hok.imp_right fun hall => hall w.j hj)
        (appendObjectAttempt_outcome hcalls key data B w) _
  have hfinished : s.2.finished loopCount := finished_of_retrying hinv.1 workerRun_ends
  have hbound : s.2.j ≤ loopCount := (workerRun_bounds _).1
  have hj : s.2.j = loopCount := le_antisymm hbound (WorkerState.finished_iff.mp hfinished).2
  obtain ⟨-, hstep, hexists⟩ := hinv
  refine ⟨3 * loopCount, _, _, rfl, hfinished, ?_⟩
  cases loopCount with
  | zero => exact habsent
  | succ k =>
    obtain ⟨body, hbody⟩ := Option.isSome_iff_exists.mp (hexists (by omega))
    rw [hbody, blocks, if_neg (Nat.succ_ne_zero k), ← hj, ← hstep.object,
      Bucket.content_of_lookup hbody]

/-- The position of the worker is not where its object ends, and never will be. -/
def LostStep (key : CString) (loopCount : ℕ) (B : Bucket) (w : WorkerState UInt64 δ) : Prop :=
  w.j < loopCount ∧ w.carry.toNat ≠ (B.content key).length

/-- What is known of an append worker whatever the schedule: the operations it has done were
appendable, and it is in step with only lost requests since, or it has lost step for good. -/
def Follows (fate : ℕ → ℕ → Fate) (key : CString) (data : Bytes) (loopCount : ℕ) (B : Bucket)
    (w : WorkerState UInt64 δ) : Prop :=
  (∀ j < w.j, Appendable fate data j) ∧
    (InStep key data B w ∧ (∀ r < w.retryCount, fate w.j r = .lost) ∨ LostStep key loopCount B w)

/-- A worker whose position is not where its object ends has lost step, and a failure does not
change that. -/
theorem Follows.lose {fate : ℕ → ℕ → Fate} {key : CString} {B : Bucket} {w : WorkerState UInt64 δ}
    (hdone : ∀ j < w.j, Appendable fate data.bytes j) (hj : w.j < loopCount)
    (hstale : w.carry.toNat ≠ (B.content key).length) (e : Exception) :
    Follows fate key data.bytes loopCount B (w.fail (.exception e)) := by
  unfold Follows LostStep
  rw [w.j_fail_exception, w.carry_fail_exception]
  exact ⟨hdone, .inr ⟨hj, hstale⟩⟩

/-- One attempt of any schedule. Cases on where the worker stands and on the outcome. -/
theorem Follows.attempt {fate : ℕ → ℕ → Fate} {key : CString} {B B' : Bucket}
    {w : WorkerState UInt64 δ} {result : Except Failure UInt64} (hdata : data.bytes ≠ [])
    (h : Follows fate key data.bytes loopCount B w) (hj : w.j < loopCount)
    (hout : AppendOutcome B key data.bytes w.carry (fate w.j w.retryCount) B' result)
    (latMs : δ) :
    Follows fate key data.bytes loopCount B' (w.attempt result latMs) := by
  obtain ⟨hdone, hstands⟩ := h
  have hpositive := List.length_pos_iff.mpr hdata
  generalize hfate : fate w.j w.retryCount = f at hout
  rcases hstands with ⟨hstep, hlost⟩ | ⟨-, hstale⟩
  · have hlength : (B.content key).length = w.j * data.bytes.length := by
      rw [hstep.object, length_repeated]
    have hposition := hstep.position
    cases hout with
    | applied hpos hnext =>
      refine ⟨fun j hlt => ?_, .inl ⟨hstep.applied hnext latMs, fun r hr => ?_⟩⟩
      · rcases Nat.lt_succ_iff_lt_or_eq.mp hlt with hbefore | rfl
        · exact hdone j hbefore
        · refine ⟨by omega, fun r hfaults => ?_⟩
          -- the first fault-free attempt is this one, and all before were lost
          have hr : r < w.retryCount := by
            by_contra hge
            exact hfaults w.retryCount (not_lt.mp hge) hfate
          rw [hlost r hr]
          decide
      · exact absurd hr (Nat.not_lt_zero r)
    | appliedButError hpos e =>
      -- the object has grown, the position has not
      refine Follows.lose hdone hj ?_ e
      rw [Bucket.content_insert, List.length_append]
      omega
    | lost hpos e =>
      unfold Follows
      rw [WorkerState.attempt_error, w.j_fail_exception]
      refine ⟨hdone, .inl ⟨hstep.fail e, fun r hr => ?_⟩⟩
      have hle := lt_of_lt_of_le hr (w.retryCount_fail_le e)
      rcases Nat.lt_succ_iff_lt_or_eq.mp hle with hlt | rfl
      · exact hlost r hlt
      · exact hfate
    | refused hpos e => exact Follows.lose hdone hj hpos e
  · -- a worker that lost step is refused whatever the fate
    cases hout with
    | applied hpos _ => exact absurd hpos hstale
    | appliedButError hpos e => exact absurd hpos hstale
    | lost hpos e => exact absurd hpos hstale
    | refused hpos e => exact Follows.lose hdone hj hstale e

/-- An append worker that finishes was only ever asked for appendable operations. -/
theorem appendable_of_succeeds {calls : ℕ → ℕ → AppendCall} {fate : ℕ → ℕ → Fate} {key : CString}
    (hcalls : ∀ j r, (calls j r).Meets (fate j r))
    (hothers : ∀ n B, (others n B).lookup key = B.lookup key) (habsent : B.lookup key = none)
    (hdata : data.bytes ≠ [])
    (h : AppendWorkerSucceeds calls key data loopCount latency others B) :
    ∀ j < loopCount, Appendable fate data.bytes j := by
  have hempty := Bucket.content_of_absent habsent
  obtain ⟨n, B', w, hrun, hfinished, -⟩ := h
  have hinv : Follows fate key data.bytes loopCount
      (workerRun loopCount (appendObjectAttempt calls key data) latency others B 0 n).1
      (workerRun loopCount (appendObjectAttempt calls key data) latency others B 0 n).2 := by
    refine workerRun_invariant _ ⟨by simp, .inl ⟨⟨hempty, by simp⟩, by simp⟩⟩ ?_ ?_ n
    · rintro n B w ⟨hdone, hstands⟩
      refine ⟨hdone, hstands.imp ?_ ?_⟩
      · rintro ⟨hstep, hlost⟩
        exact ⟨hstep.frame (Bucket.content_congr (hothers n B)), hlost⟩
      · rintro ⟨hj, hstale⟩
        exact ⟨hj, by rwa [Bucket.content_congr (hothers n B)]⟩
    · intro B w h hrunning
      exact h.attempt hdata (WorkerState.running_iff.mp hrunning).2
        (appendObjectAttempt_outcome hcalls key data B w) _
  rw [hrun] at hinv
  intro j hj
  exact hinv.1 j (lt_of_lt_of_le hj (WorkerState.finished_iff.mp hfinished).2)

/-- **Which faults the retries mask.** Both workers get through a schedule with at most two faults
in an operation exactly when an `int` counts the operations, which is all the put worker needs, and
the data is empty, or the positions fit a `long long` and no append takes effect unheard before its
first fault-free attempt. -/
theorem workers_mask_faults_iff {putCalls : ℕ → ℕ → PutCall} {putFate : ℕ → ℕ → Fate}
    {appendCalls : ℕ → ℕ → AppendCall} {appendFate : ℕ → ℕ → Fate} {keys : ℕ → CString}
    {key : CString} {putOthers appendOthers : ℕ → Bucket → Bucket}
    (hputCalls : ∀ j r, (putCalls j r).Meets (putFate j r))
    (happendCalls : ∀ j r, (appendCalls j r).Meets (appendFate j r))
    (hputOthers : ∀ n B, ∀ j < loopCount, (putOthers n B).lookup (keys j) = B.lookup (keys j))
    (happendOthers : ∀ n B, (appendOthers n B).lookup key = B.lookup key)
    (hputFaults : AtMostTwoFaults putFate loopCount)
    (happendFaults : AtMostTwoFaults appendFate loopCount) (habsent : B.lookup key = none) :
    (PutWorkerSucceeds putCalls keys data loopCount latency putOthers B ∧
      AppendWorkerSucceeds appendCalls key data loopCount latency appendOthers B) ↔
      loopCount < 2 ^ 31 ∧ (data.bytes = [] ∨ (loopCount - 1) * data.bytes.length < 2 ^ 63 ∧
        ∀ j < loopCount, NoUnheardEffect appendFate j) := by
  have hmono : ∀ j < loopCount, j * data.bytes.length ≤ (loopCount - 1) * data.bytes.length :=
    fun j hj => Nat.mul_le_mul_right _ (by omega)
  constructor
  · rintro ⟨⟨n, B', w, hrun, hfinished, hkeys⟩, happend⟩
    refine ⟨WorkerState.loopCount_lt hfinished, ?_⟩
    by_cases hdata : data.bytes = []
    · exact .inl hdata
    · have hall := appendable_of_succeeds happendCalls happendOthers habsent hdata happend
      refine .inr ⟨?_, fun j hj => (hall j hj).2⟩
      -- the last operation has the largest position
      cases loopCount with
      | zero => simp
      | succ k => exact (hall k (Nat.lt_succ_self k)).1
  · rintro ⟨hloop, hcond⟩
    refine ⟨putWorker_succeeds hputCalls hputOthers hloop hputFaults,
      appendWorker_succeeds happendCalls happendOthers habsent hloop happendFaults ?_⟩
    refine hcond.imp_right fun ⟨hlen, hunheard⟩ j hj => ⟨?_, hunheard j hj⟩
    exact lt_of_le_of_lt (hmono j hj) hlen

end Schedules

def firstLost (_ r : ℕ) : Fate := if r = 0 then .lost else .applied

theorem workers_mask_faults_iff_firstLost :
    PutWorkerSucceeds (fun j r => .ofFate (firstLost j r)) (fun _ => cstr "k") blockAB 2
        (fun _ _ => (1 : ℚ)) writeOther ∅ ∧
      AppendWorkerSucceeds (fun j r => .ofFate (firstLost j r)) (cstr "k") blockAB 2
        (fun _ _ => (1 : ℚ)) writeOther ∅ := by
  have hfaults : AtMostTwoFaults firstLost 2 := fun j _ => ⟨1, by omega, rfl⟩
  refine (workers_mask_faults_iff (fun j r => PutCall.ofFate_meets (firstLost j r))
    (fun j r => AppendCall.ofFate_meets (firstLost j r)) (fun n B _ _ => writeOther_lookup n B)
    writeOther_lookup hfaults hfaults rfl).mpr ⟨by decide, .inr ⟨by decide, fun j _ r _ => ?_⟩⟩
  unfold firstLost
  split <;> decide

/-- **An effect that goes unheard is not masked.** The service applies the first append and the
client gets an error; both retries are refused, the last one although it suffers no fault. -/
theorem appendWorker_unheard_fails :
    AtMostTwoFaults unheardThenLost 1 ∧
      (∀ j r, (AppendCall.ofFate (unheardThenLost j r)).Meets (unheardThenLost j r)) ∧
      ¬ AppendWorkerSucceeds (fun j r => .ofFate (unheardThenLost j r)) (cstr "k") blockAB 1
        (fun _ _ => (1 : ℚ)) (fun _ B => B) ∅ := by
  have hmeets : ∀ j r, (AppendCall.ofFate (unheardThenLost j r)).Meets (unheardThenLost j r) :=
    fun j r => AppendCall.ofFate_meets (unheardThenLost j r)
  refine ⟨fun j _ => ⟨2, by omega, by simp [unheardThenLost]⟩, hmeets, fun hsucceeds => ?_⟩
  have hall := appendable_of_succeeds hmeets (fun _ _ => rfl) rfl (by decide) hsucceeds
  refine (hall 0 Nat.one_pos).2 0 (fun r hr => ?_) rfl
  obtain rfl := Nat.le_zero.mp hr
  decide

end ObsBench
