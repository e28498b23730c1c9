import ObsBench.Bench.IterationEnds
import ObsBench.Bench.Leftovers

/-!
# Builds with `DEBUG`

A build with `DEBUG` keeps the objects its iterations wrote. The keys name the object size and the
number of threads, but neither the loop count nor the repetition, so an append iteration finds the
objects of an earlier one with the same arguments, and it cannot append to them at position 0.

* **`append_reported_once`**: in a process no pair of arguments is reported twice.
-/

namespace ObsBench

variable {δ : Type}

/-! ## What append iterations leave -/

section Iterations

variable {cfg : Config} {calls : ℕ → ℕ → ℕ → AppendCall} {fate : ℕ → ℕ → ℕ → Fate}
  {s s' : IterationState UInt64 δ} {e : Event δ}

/-- An object that is not empty is not emptied by an append. -/
theorem AppendOutcome.content_ne_nil {B B' : Bucket} {key : CString} {body : Bytes}
    {startPos : UInt64} {fate : Fate} {result : Except Failure UInt64}
    (h : AppendOutcome B key body startPos fate B' result) {k : CString} (hk : B.content k ≠ []) :
    B'.content k ≠ [] := by
  by_cases hkey : k = key
  · subst hkey
    cases h with
    | applied | appliedButError =>
      rw [Bucket.content_insert]
      exact List.append_ne_nil_of_left_ne_nil hk _
    | lost | refused => exact hk
  · rwa [Bucket.content_congr (h.frame hkey)]

/-- An append of some bytes that returns leaves an object that is not empty. -/
theorem AppendOutcome.content_of_ok {B B' : Bucket} {key : CString} {body : Bytes}
    {startPos next : UInt64} {fate : Fate}
    (h : AppendOutcome B key body startPos fate B' (.ok next)) (hbody : body ≠ []) :
    B'.content key ≠ [] := by
  cases h with
  | applied =>
    rw [Bucket.content_insert]
    exact List.append_ne_nil_of_right_ne_nil _ hbody

/-- In an append iteration an object that is not empty stays so. -/
theorem append_step_keeps_content (hcalls : ∀ i j r, (calls i j r).Meets (fate i j r))
    (hstep : IterationStep cfg.numThreads cfg.loopCount (appendObjectOperations cfg calls) s e s')
    {k : CString} (hk : s.bucket.content k ≠ []) : s'.bucket.content k ≠ [] := by
  cases hstep with
  | @attempt i w latMs hi halive hw hrunning =>
    subst hw
    exact (appendObjectOperations_outcome hcalls i _ _ _ _).content_ne_nil hk
  | merge hi halive hfinished hmerged => exact hk

/-- A thread that has done an operation has appended something. -/
theorem appended_of_joined (hcalls : ∀ i j r, (calls i j r).Meets (fate i j r)) {bucket : Bucket}
    {events : List (Event δ)} (hsize : 0 < cfg.objectSize) (hloop : 0 < cfg.loopCount) {i : ℕ}
    (hi : i < cfg.numThreads)
    (h : Transition.Run (IterationStep cfg.numThreads cfg.loopCount
      (appendObjectOperations cfg calls)) (.start cfg.loopCount bucket 0) events s)
    (hjoined : s.Joined cfg.numThreads) : s.bucket.content (cfg.appendKey i) ≠ [] := by
  have hdata : cfg.data.bytes ≠ [] := by
    simp [Config.data, generateData, Nat.ne_of_gt hsize]
  -- until its first append succeeds, thread `i` is at operation 0
  have hinv : (s.workers i).j = 0 ∨ s.bucket.content (cfg.appendKey i) ≠ [] := by
    refine h.invariant
      (fun _ s => (s.workers i).j = 0 ∨ s.bucket.content (cfg.appendKey i) ≠ []) (.inl rfl) ?_
    rintro _ s e s' (hfirst | hcontent) hstep
    · rcases hstep.cases_of_thread i with ⟨latMs, rfl⟩ | ⟨hj, -, -⟩
      · have hout := @appendObjectOperations_outcome cfg calls fate hcalls i (s.workers i).j
          (s.workers i).retryCount (s.workers i).carry s.bucket
        generalize hresult : appendObjectOperations cfg calls i (s.workers i).j
          (s.workers i).retryCount (s.workers i).carry s.bucket = out at hout
        obtain ⟨B, result⟩ := out
        rw [IterationState.attempt_eq hresult]
        cases result with
        | ok next => exact .inr (hout.content_of_ok hdata)
        | error failure =>
          left
          rw [IterationState.workers_set_self, WorkerState.attempt_error,
            (WorkerState.fail_keeps _ _).1, hfirst]
      · exact .inl (hj.trans hfirst)
    · exact .inr (append_step_keeps_content hcalls hstep hcontent)
  have hj := (WorkerState.finished_iff.mp ((accounts_of_run h).merged i (hjoined i hi))).2
  exact hinv.resolve_left (by omega)

end Iterations

/-! ## Whole histories -/

/-- The object sizes and thread numbers of the append iterations among `reported` that appended
something. -/
def appended (reported : List (Benchmark × DataFrameRow δ)) : List (ℕ × ℕ) :=
  reported.filterMap fun report =>
    match report.1 with
    | .putObject _ => none
    | .appendObject cfg =>
      if 0 < cfg.objectSize ∧ 0 < cfg.numThreads ∧ 0 < cfg.loopCount then
        some (cfg.objectSize, cfg.numThreads)
      else none

/-- The key of thread 0 in an append iteration. -/
def firstKey (arguments : ℕ × ℕ) : CString :=
  appendObjectKey (cstr "append_object") arguments.1 arguments.2 (0 : ℕ)

/-- No put iteration writes the key of a first append. -/
theorem firstKey_notMem_putObject (arguments : ℕ × ℕ) (cfg : Config) :
    firstKey arguments ∉ (Benchmark.putObject cfg).keys := by
  intro hk
  obtain ⟨i, -, hrow⟩ := Benchmark.mem_keys.mp hk
  obtain ⟨j, -, hkey⟩ := List.mem_map.mp hrow
  have hbytes := congrArg CString.bytes hkey
  rw [firstKey, bytes_appendObjectKey, Config.putKey, bytes_putObjectKey] at hbytes
  exact formatPutObjectKey_ne_formatAppendObjectKey _ _ _ _ _ _ _ _ _ hbytes

/-- The first objects of the append iterations a process has reported are not empty. -/
def Occupies (events : List (ProgramEvent δ)) (bucket : Bucket) : Prop :=
  ∀ arguments ∈ appended (reports events), bucket.content (firstKey arguments) ≠ []

/-- The append iterations a process has reported were for different arguments, and their objects
are there, as they were when the iteration under way started. Before the first iteration there are
none. -/
structure Occupied (events : List (ProgramEvent δ)) (p : Program δ) : Prop where
  nodup : (appended (reports events)).Nodup
  occupies : Occupies events p.bucket
  beginning : p.stage = .beginning → reports events = []
  deleting : ∀ batches, p.stage = .deleting batches → reports events = []
  underway : ∀ b schedule s, p.stage = .running b schedule s → s.bucket = p.bucket ∧
    ∃ bucket iteration, Occupies events bucket ∧
      Transition.Run (IterationStep b.cfg.numThreads b.cfg.loopCount (b.operations schedule))
        (.start b.cfg.loopCount bucket b.initialCarry) iteration s

section Histories

variable {fmt : DoubleFormat δ} {bucket : Bucket} {file : Option Bytes}
  {events : List (ProgramEvent δ)} {p p' : Program δ} {e : ProgramEvent δ}

/-- An iteration under way empties no first object. -/
theorem content_iteration_step {b : Benchmark} {schedule : b.Schedule}
    {s s' : IterationState b.Carry δ} {e : Event δ}
    (hstep : IterationStep b.cfg.numThreads b.cfg.loopCount (b.operations schedule) s e s')
    {arguments : ℕ × ℕ} (h : s.bucket.content (firstKey arguments) ≠ []) :
    s'.bucket.content (firstKey arguments) ≠ [] := by
  cases b with
  | putObject cfg =>
    rwa [Bucket.content_congr (hstep.lookup_eq (firstKey_notMem_putObject arguments cfg))]
  | appendObject cfg => exact append_step_keeps_content schedule.meets hstep h

/-- What a joined append iteration with something to append started on and leaves. -/
theorem append_joined {cfg : Config} {schedule : (Benchmark.appendObject cfg).Schedule}
    {s : IterationState (Benchmark.appendObject cfg).Carry δ} {iteration : List (Event δ)}
    (hpositive : 0 < cfg.objectSize ∧ 0 < cfg.numThreads ∧ 0 < cfg.loopCount)
    (hworkers : Transition.Run (IterationStep cfg.numThreads cfg.loopCount
      ((Benchmark.appendObject cfg).operations schedule))
      (.start cfg.loopCount bucket (Benchmark.appendObject cfg).initialCarry) iteration s)
    (hjoined : s.Joined cfg.numThreads) :
    bucket.content (firstKey (cfg.objectSize, cfg.numThreads)) = [] ∧
      s.bucket.content (firstKey (cfg.objectSize, cfg.numThreads)) ≠ [] := by
  obtain ⟨hsize, hthreads, hloop⟩ := hpositive
  constructor
  · by_contra hstale
    exact not_joined_of_stale schedule.meets hthreads hloop hstale hworkers hjoined
  · exact appended_of_joined schedule.meets hsize hloop hthreads hworkers hjoined

/-- A step that reports nothing and changes neither bucket nor process. -/
theorem Occupied.of_stage (h : Occupied events p)
    (hreports : reports (events ++ [e]) = reports events) (hbucket : p'.bucket = p.bucket)
    (hbeginning : p'.stage ≠ .beginning)
    (hdeleting : ∀ batches, p'.stage = .deleting batches → reports events = [])
    (hrunning : ∀ b schedule s, p'.stage ≠ .running b schedule s) :
    Occupied (events ++ [e]) p' where
  nodup := by rw [hreports]; exact h.nodup
  occupies := by rw [Occupies, hreports, hbucket]; exact h.occupies
  beginning hstage := absurd hstage hbeginning
  deleting batches hstage := by rw [hreports]; exact hdeleting batches hstage
  underway b schedule s hstage := absurd hstage (hrunning b schedule s)

/-- Nothing reported, nothing occupied. -/
theorem Occupied.of_nil (hreports : reports events = [])
    (hrunning : ∀ b schedule s, p.stage ≠ .running b schedule s) : Occupied events p where
  nodup := by rw [hreports]; exact List.nodup_nil
  occupies := by rw [Occupies, hreports]; exact List.forall_mem_nil _
  beginning _ := hreports
  deleting _ _ := hreports
  underway b schedule s hstage := absurd hstage (hrunning b schedule s)

/-- Reporting an iteration. For an append iteration that appended something, its first object was
empty when it started, so its arguments are new; and it is not empty now. -/
theorem Occupied.reported (h : Occupied events p) {b : Benchmark} {schedule : b.Schedule}
    {s : IterationState b.Carry δ} (row : DataFrameRow δ) (hstage : p.stage = .running b schedule s)
    (hjoined : s.Joined b.cfg.numThreads) :
    (appended (reports (events ++ [.reported b row]))).Nodup ∧
      Occupies (events ++ [.reported b row]) p.bucket := by
  have hreports : reports (events ++ [.reported b row]) = reports events ++ [(b, row)] :=
    reports_append events _
  obtain ⟨hbucket, bucket, iteration, hoccupies, hworkers⟩ := h.underway b schedule s hstage
  unfold Occupies
  rw [hreports, appended, List.filterMap_append, ← appended]
  cases b with
  | putObject cfg =>
    rw [show List.filterMap _ [(Benchmark.putObject cfg, row)] = [] from rfl, List.append_nil]
    exact ⟨h.nodup, h.occupies⟩
  | appendObject cfg =>
    by_cases hpositive : 0 < cfg.objectSize ∧ 0 < cfg.numThreads ∧ 0 < cfg.loopCount
    · obtain ⟨hempty, hleft⟩ := append_joined hpositive hworkers hjoined
      -- a joined append iteration started on no object, so its arguments are new
      have hnew : (cfg.objectSize, cfg.numThreads) ∉ appended (reports events) :=
        fun hmem => hoccupies _ hmem hempty
      simp only [List.filterMap_cons, List.filterMap_nil, if_pos hpositive]
      rw [hbucket] at hleft
      refine ⟨h.nodup.append (List.nodup_singleton _) (List.disjoint_singleton.mpr hnew), ?_⟩
      intro arguments hmem
      rcases List.mem_append.mp hmem with hold | hlast
      · exact h.occupies arguments hold
      · rw [List.mem_singleton.mp hlast]
        exact hleft
    · simp only [List.filterMap_cons, List.filterMap_nil, if_neg hpositive, List.append_nil]
      exact ⟨h.nodup, h.occupies⟩

variable [Double δ]

/-- A step keeps the objects of the reported append iterations, and reports none for arguments
that were reported before. -/
theorem Occupied.step (h : Occupied events p) (hstep : ProgramStep true fmt p e p') :
    Occupied (events ++ [e]) p' := by
  have hsame := reports_append events e
  cases hstep with
  | listed hstage hpages hlist => exact .of_nil (hsame.trans (h.beginning hstage)) nofun
  | deleted hstage hcall hdelete | deletionFailed hstage hcall hdelete =>
    exact .of_nil (hsame.trans (h.deleting _ hstage)) nofun
  | finished hstage | opened hstage | notOpened hstage | wrote hstage | writeFailed hstage
  | ended =>
    exact h.of_stage hsame rfl nofun nofun nofun
  | closed hstage =>
    -- with `DEBUG` nothing is deleted
    exact h.of_stage hsame rfl (by rintro ⟨⟩) (by rintro _ ⟨⟩) (by rintro _ _ _ ⟨⟩)
  | @started b schedule hstage =>
    have hoccupies : Occupies (events ++ [.started b]) p.bucket := by
      rw [Occupies, hsame]
      exact h.occupies
    refine ⟨by rw [hsame]; exact h.nodup, hoccupies, nofun, nofun, ?_⟩
    intro b schedule s hrunning
    cases hrunning
    exact ⟨rfl, p.bucket, [], hoccupies, .start⟩
  | @iteration b schedule s s' e hstage hstep =>
    obtain ⟨hbucket, bucket, iteration, hoccupies, hworkers⟩ := h.underway b schedule s hstage
    have hkept : ∀ B, Occupies events B → Occupies (events ++ [.iteration e]) B := by
      intro B hB
      rw [Occupies, hsame]
      exact hB
    refine ⟨by rw [hsame]; exact h.nodup, hkept _ fun arguments hmem => ?_, nofun, nofun, ?_⟩
    · refine content_iteration_step hstep ?_
      rw [hbucket]
      exact h.occupies arguments hmem
    · intro b schedule s hrunning
      cases hrunning
      exact ⟨rfl, bucket, iteration ++ [e], hkept _ hoccupies, hworkers.step hstep⟩
  | @reported b schedule s seconds row rows hstage hjoined hrow =>
    obtain ⟨hnodup, hoccupies⟩ := h.reported row hstage hjoined
    exact ⟨hnodup, hoccupies, nofun, nofun, nofun⟩
  | restarted => exact .of_nil hsame nofun

theorem occupied_of_run
    (h : Transition.Run (ProgramStep true fmt) (.start bucket file) events p) :
    Occupied events p := by
  have hstart : Occupied [] (.start bucket file : Program δ) := .of_nil rfl nofun
  exact h.invariant (fun events p => Occupied events p) hstart fun _ _ _ _ hinv hstep =>
    hinv.step hstep

/-- **With `DEBUG` no append iteration is repeated.** In a process of such a build, however its
iterations and requests go, no two of the append iterations that are reported have the same object
size and the same number of threads, unless they append nothing: the second one ends the process,
because it finds the objects of the first. -/
theorem append_reported_once
    (h : Transition.Run (ProgramStep true fmt) (.start bucket file) events p) :
    (appended (reports events)).Nodup ∧
      ∀ arguments ∈ appended (reports events), p.bucket.content (firstKey arguments) ≠ [] :=
  ⟨(occupied_of_run h).nodup, (occupied_of_run h).occupies⟩

end Histories

theorem append_reported_once_tiny :
    ∃ events p, Transition.Run (ProgramStep true .whole) (.start ∅ none) events p ∧
      appended (reports events) = [(1, 2)] ∧ p.bucket.content (firstKey (1, 2)) ≠ [] := by
  obtain ⟨before, iteration, schedule, s, hrunning, hjoined, hnone⟩ := exists_run_joined true .whole
  have hreported := hrunning.step (.reported rfl hjoined
    (show appendRow [] (text "append_object") 2 1 1 1 s.groupLatencies (s.traceVector 2) = _
      from rfl))
  have happended : ∀ row, appended (reports ((before ++ .started (.appendObject tiny) ::
      List.map .iteration iteration) ++ [.reported (.appendObject tiny) row])) = [(1, 2)] := by
    intro row
    rw [reports_append, reports_started, hnone]
    rfl
  refine ⟨_, _, hreported, happended _, (append_reported_once hreported).2 _ ?_⟩
  rw [happended]
  exact List.mem_singleton_self _

end ObsBench
