import ObsBench.Bench.Benchmark
import ObsBench.Client.DeletionBatches
import ObsBench.Client.DeletionService

/-!
# The benchmark program

`main` empties the bucket and then runs the registered benchmarks one iteration after the other.
An iteration runs its workers, reports a row, rewrites the results file, and, in a build without
`DEBUG`, deletes its keys. The process may end at any moment: by an exception nobody catches, by a
failed assertion, or from outside. What it leaves behind, the bucket and the file, is what the
next process finds.

The program is a transition system whose histories run over any number of processes. Which
benchmark comes next is up to the benchmark library, and how the service treats a request is up
to the service, within what `ObsBench.Service` says.

* **`ProgramStep.lookup_cases`**: what a step can do to a key of the bucket.
* **`started_of_running`**: an iteration under way is a run of its workers from an idle process.
* **`run_of_deleteAll`**, **`run_of_iteration`**: a `delete_all` that returns and a completed
  iteration are runs of the program.
-/

namespace ObsBench

variable {δ : Type}

/-! ## What an iteration runs -/

/-- What becomes of every attempt of an iteration: attempt `r` of thread `i` at operation `j`. -/
structure Schedule (Call : Type) (Meets : Call → Fate → Prop) where
  calls : ℕ → ℕ → ℕ → Call
  fate : ℕ → ℕ → ℕ → Fate
  meets : ∀ i j r, Meets (calls i j r) (fate i j r)

/-- What a worker hands on from one operation to the next. -/
def Benchmark.Carry : Benchmark → Type
  | .putObject _ => Unit
  | .appendObject _ => UInt64

def Benchmark.initialCarry : (b : Benchmark) → b.Carry
  | .putObject _ => ()
  | .appendObject _ => (0 : UInt64)

def Benchmark.Schedule : Benchmark → Type
  | .putObject _ => ObsBench.Schedule PutCall PutCall.Meets
  | .appendObject _ => ObsBench.Schedule AppendCall AppendCall.Meets

def Benchmark.operations : (b : Benchmark) → b.Schedule → ℕ → Operation b.Carry
  | .putObject cfg, schedule => putObjectOperations cfg schedule.calls
  | .appendObject cfg, schedule => appendObjectOperations cfg schedule.calls

/-- The `type` column of the benchmark. -/
def Benchmark.type : Benchmark → Bytes
  | .putObject _ => text "put_object"
  | .appendObject _ => text "append_object"

theorem Benchmark.writesRows (b : Benchmark) (schedule : b.Schedule) :
    WritesRows (b.operations schedule) b := by
  cases b with
  | putObject cfg => exact putObjectOperations_writesRows schedule.meets
  | appendObject cfg => exact appendObjectOperations_writesRows schedule.meets

/-! ## The program -/

/-- Where a process stands: before the listing of `delete_all`; in a `delete_objects` with
`batches` still to send; between two iterations; in one; at `save_csv`, before the file is opened
and with `pending` still to write; or at its end. -/
inductive Stage (δ : Type) where
  | beginning
  | deleting (batches : List (List CString))
  | idle
  | running (b : Benchmark) (schedule : b.Schedule) (s : IterationState b.Carry δ)
  | opening (b : Benchmark)
  | writing (b : Benchmark) (pending : Bytes)
  | ended

/-- The process with the rows of its tracer, and what outlives it: the bucket and the contents of
`results.csv`. -/
structure Program (δ : Type) where
  stage : Stage δ
  bucket : Bucket
  rows : List (DataFrameRow δ)
  file : Option Bytes

/-- A process starts on what it finds. -/
def Program.start (bucket : Bucket) (file : Option Bytes) : Program δ where
  stage := .beginning
  bucket
  rows := []
  file

/-- What a process does. A batch deletion that returned is told by the keys of the batch it has left
in the bucket. -/
inductive ProgramEvent (δ : Type) where
  | listed (keys : List CString)
  | deleted (left : List CString)
  | finished
  | started (b : Benchmark)
  | iteration (e : Event δ)
  | reported (b : Benchmark) (row : DataFrameRow δ)
  | opened
  | notOpened
  | wrote
  | writeFailed
  | closed
  | ended
  | restarted

inductive ProgramStep [Double δ] (debug : Bool) (fmt : DoubleFormat δ) :
    Program δ → ProgramEvent δ → Program δ → Prop where
  /-- The listing of `delete_all` returned; its pages were cut from the bucket. -/
  | listed {p : Program δ} {storage : StorageReply} {listCalls : ℕ → ListRequest → ListReply}
      {fuel requests : ℕ} {keys : List CString} (hstage : p.stage = .beginning)
      (hpages : ∀ n marker, (listCalls n (listRequest [] (cstr "/") marker)).Pages p.bucket
        (listRequest [] (cstr "/") marker))
      (hlist : listObjectsDefault storage listCalls fuel = some (.ok (keys, requests))) :
      ProgramStep debug fmt p (.listed keys)
        { p with stage := .deleting (Batches.batches 1000 keys) }
  | deleted {p : Program δ} {call : BatchDeleteCall} {batch : List CString}
      {rest : List (List CString)} {B : Bucket} (hstage : p.stage = .deleting (batch :: rest))
      (hcall : call.KeepsOthers)
      (hdelete : batchDeleteObjects call p.bucket batch = (B, .ok ())) :
      ProgramStep debug fmt p (.deleted (batch.filter fun k => (B.lookup k).isSome))
        { p with stage := .deleting rest, bucket := B }
  /-- Nobody catches what `batch_delete_objects` throws. -/
  | deletionFailed {p : Program δ} {call : BatchDeleteCall} {batch : List CString}
      {rest : List (List CString)} {B : Bucket} {failure : Failure}
      (hstage : p.stage = .deleting (batch :: rest)) (hcall : call.KeepsOthers)
      (hdelete : batchDeleteObjects call p.bucket batch = (B, .error failure)) :
      ProgramStep debug fmt p .ended { p with stage := .ended, bucket := B }
  | finished {p : Program δ} (hstage : p.stage = .deleting []) :
      ProgramStep debug fmt p .finished { p with stage := .idle }
  | started {p : Program δ} {b : Benchmark} (schedule : b.Schedule) (hstage : p.stage = .idle) :
      ProgramStep debug fmt p (.started b)
        { p with stage := .running b schedule (.start b.cfg.loopCount p.bucket b.initialCarry) }
  | iteration {p : Program δ} {b : Benchmark} {schedule : b.Schedule}
      {s s' : IterationState b.Carry δ} {e : Event δ} (hstage : p.stage = .running b schedule s)
      (hstep : IterationStep b.cfg.numThreads b.cfg.loopCount (b.operations schedule) s e s') :
      ProgramStep debug fmt p (.iteration e)
        { p with stage := .running b schedule s', bucket := s'.bucket }
  | reported {p : Program δ} {b : Benchmark} {schedule : b.Schedule} {s : IterationState b.Carry δ}
      {seconds : δ} {row : DataFrameRow δ} {rows : List (DataFrameRow δ)}
      (hstage : p.stage = .running b schedule s) (hjoined : s.Joined b.cfg.numThreads)
      (hrow : appendRow p.rows b.type b.cfg.numThreads b.cfg.objectSize b.cfg.loopCount seconds
        s.groupLatencies (s.traceVector b.cfg.numThreads) = (row, rows)) :
      ProgramStep debug fmt p (.reported b row) { p with stage := .opening b, rows }
  /-- `std::ofstream ofs(filename)` truncates the file. -/
  | opened {p : Program δ} {b : Benchmark} (hstage : p.stage = .opening b) :
      ProgramStep debug fmt p .opened
        { p with stage := .writing b (toCsv fmt p.rows), file := some [] }
  /-- A stream that did not open drops what it is given. -/
  | notOpened {p : Program δ} {b : Benchmark} (hstage : p.stage = .opening b) :
      ProgramStep debug fmt p .notOpened { p with stage := .writing b [] }
  | wrote {p : Program δ} {b : Benchmark} {piece pending : Bytes}
      (hstage : p.stage = .writing b (piece ++ pending)) :
      ProgramStep debug fmt p .wrote
        { p with stage := .writing b pending, file := p.file.map (· ++ piece) }
  /-- A stream that failed drops the rest; `save_csv` does not look at its state. -/
  | writeFailed {p : Program δ} {b : Benchmark} {pending : Bytes}
      (hstage : p.stage = .writing b pending) :
      ProgramStep debug fmt p .writeFailed { p with stage := .writing b [] }
  | closed {p : Program δ} {b : Benchmark} (hstage : p.stage = .writing b []) :
      ProgramStep debug fmt p .closed
        { p with stage := if debug then .idle else .deleting (Batches.batches 1000 b.keys) }
  | ended (p : Program δ) : ProgramStep debug fmt p .ended { p with stage := .ended }
  /-- The next process. -/
  | restarted (p : Program δ) : ProgramStep debug fmt p .restarted (.start p.bucket p.file)

/-! ## What a step does to the bucket -/

section Steps

variable [Double δ] {debug : Bool} {fmt : DoubleFormat δ} {p p' : Program δ} {e : ProgramEvent δ}

/-- The iteration under way works on the bucket of the program. -/
def Program.Synced (p : Program δ) : Prop :=
  ∀ b schedule s, p.stage = .running b schedule s → s.bucket = p.bucket

theorem ProgramStep.synced (h : ProgramStep debug fmt p e p') : p'.Synced := by
  intro b schedule s hrunning
  cases h with
  | started _ _ | iteration _ _ =>
    cases hrunning
    rfl
  | closed _ =>
    cases debug <;> cases hrunning
  | _ => cases hrunning

omit [Double δ] in
/-- An attempt changes only the keys of its benchmark, a merge section none. -/
theorem IterationStep.lookup_eq {b : Benchmark} {schedule : b.Schedule}
    {s s' : IterationState b.Carry δ} {e : Event δ}
    (h : IterationStep b.cfg.numThreads b.cfg.loopCount (b.operations schedule) s e s')
    {k : CString} (hk : k ∉ b.keys) : s'.bucket.lookup k = s.bucket.lookup k := by
  cases h with
  | @attempt i w latMs hi halive hw hrunning =>
    have hrow : k ∉ b.row i := fun hrow => hk (Benchmark.mem_keys.mpr ⟨i, hi, hrow⟩)
    subst hw
    exact b.writesRows schedule i _ _ _ _ (WorkerState.running_iff.mp hrunning).2 k hrow
  | merge hi halive hfinished hmerged => rfl

/-- **What a step can do to a key**: nothing, remove it in a batch that is being deleted, or
anything if it is a key of the benchmark that is running. -/
theorem ProgramStep.lookup_cases (hsynced : p.Synced) (h : ProgramStep debug fmt p e p')
    (k : CString) :
    p'.bucket.lookup k = p.bucket.lookup k ∨
    (∃ batch rest, p.stage = .deleting (batch :: rest) ∧ k ∈ batch ∧ p'.bucket.lookup k = none) ∨
    ∃ b schedule s, p.stage = .running b schedule s ∧ k ∈ b.keys := by
  cases h with
  | deleted hstage hcall hdelete | deletionFailed hstage hcall hdelete =>
    rcases lookup_batchDeleteObjects hcall hdelete k with hsame | ⟨hk, hgone⟩
    · exact .inl hsame
    · exact .inr (.inl ⟨_, _, hstage, hk, hgone⟩)
  | @iteration b schedule s s' e hstage hstep =>
    by_cases hk : k ∈ b.keys
    · exact .inr (.inr ⟨b, schedule, s, hstage, hk⟩)
    · left
      rw [← hsynced b schedule s hstage]
      exact hstep.lookup_eq hk
  | _ => exact .inl rfl

end Steps

/-! ## Histories -/

/-- The keys that batches of the last process have left in the bucket although they returned. -/
def refusedAfter (refused : List CString) : ProgramEvent δ → List CString
  | .deleted left => refused ++ left
  | .restarted => []
  | _ => refused

def refused (events : List (ProgramEvent δ)) : List CString := events.foldl refusedAfter []

theorem refused_append (events : List (ProgramEvent δ)) (e : ProgramEvent δ) :
    refused (events ++ [e]) = refusedAfter (refused events) e :=
  List.foldl_append

/-- What was refused before a restart no longer counts. -/
theorem refused_restarted (events after : List (ProgramEvent δ)) :
    refused (events ++ [.restarted] ++ after) = refused after := by
  rw [refused, List.foldl_append, ← refused, refused_append]
  rfl

/-- No batch has left a key. -/
def RefusesNothing (events : List (ProgramEvent δ)) : Prop :=
  ∀ left, .deleted left ∈ events → left = []

theorem RefusesNothing.append {events events' : List (ProgramEvent δ)} (h : RefusesNothing events)
    (h' : RefusesNothing events') : RefusesNothing (events ++ events') := fun left hmem =>
  (List.mem_append.mp hmem).elim (h left) (h' left)

theorem RefusesNothing.refused_eq_nil {events : List (ProgramEvent δ)} (h : RefusesNothing events) :
    refused events = [] := by
  induction events using List.reverseRecOn with
  | nil => rfl
  | append_singleton events e ih =>
    rw [refused_append, ih fun left hmem => h left (List.mem_append_left _ hmem)]
    cases e with
    | deleted left => exact h left (List.mem_append_right _ (List.mem_singleton_self _))
    | _ => rfl

/-- The iterations reported by the last process, with their rows. -/
def reportsAfter (reported : List (Benchmark × DataFrameRow δ)) :
    ProgramEvent δ → List (Benchmark × DataFrameRow δ)
  | .reported b row => reported ++ [(b, row)]
  | .restarted => []
  | _ => reported

def reports (events : List (ProgramEvent δ)) : List (Benchmark × DataFrameRow δ) :=
  events.foldl reportsAfter []

theorem reports_append (events : List (ProgramEvent δ)) (e : ProgramEvent δ) :
    reports (events ++ [e]) = reportsAfter (reports events) e :=
  List.foldl_append

/-- Starting and running an iteration reports nothing. -/
theorem reports_started (events : List (ProgramEvent δ)) (b : Benchmark)
    (iteration : List (Event δ)) :
    reports (events ++ .started b :: iteration.map .iteration) = reports events := by
  rw [reports, List.foldl_append, List.foldl_cons, List.foldl_map]
  show List.foldl (fun reported _ => reported) (reports events) iteration = reports events
  induction iteration with
  | nil => rfl
  | cons _ _ ih => exact ih

section Histories

variable [Double δ] {debug : Bool} {fmt : DoubleFormat δ} {bucket : Bucket} {file : Option Bytes}
  {events : List (ProgramEvent δ)} {p : Program δ}

theorem reports_of_beginning
    (h : Transition.Run (ProgramStep debug fmt) (.start bucket file) events p)
    (hstage : p.stage = .beginning) : reports events = [] := by
  cases h with
  | start => rfl
  | @step events _ _ e _ hstep =>
    rw [reports_append]
    cases hstep with
    | restarted => rfl
    | closed _ => cases debug <;> cases hstage
    | _ => cases hstage

/-- The tracer holds the rows of the iterations reported by the process. -/
theorem rows_of_run
    (h : Transition.Run (ProgramStep debug fmt) (.start bucket file) events p) :
    p.rows = (reports events).map (·.2) := by
  refine h.invariant (fun events p => p.rows = (reports events).map (·.2)) rfl ?_
  intro events p e p' hrows hstep
  rw [reports_append]
  cases hstep with
  | @reported b schedule s seconds row rows hstage hjoined hrow =>
    obtain ⟨rfl, rfl⟩ := Prod.mk.inj hrow
    show p.rows ++ [_] = List.map _ (reports events ++ [_])
    rw [List.map_append, ← hrows]
    rfl
  | restarted => rfl
  | _ => exact hrows

/-- **An iteration under way** has been started by an idle process, on the bucket as it was then,
and since then its workers have made the steps that lead to its state. -/
theorem started_of_running
    (h : Transition.Run (ProgramStep debug fmt) (.start bucket file) events p) {b : Benchmark}
    {schedule : b.Schedule} {s : IterationState b.Carry δ}
    (hstage : p.stage = .running b schedule s) :
    ∃ before q iteration, events = before ++ .started b :: iteration.map .iteration ∧
      Transition.Run (ProgramStep debug fmt) (.start bucket file) before q ∧ q.stage = .idle ∧
      Transition.Run (IterationStep b.cfg.numThreads b.cfg.loopCount (b.operations schedule))
        (.start b.cfg.loopCount q.bucket b.initialCarry) iteration s := by
  induction h generalizing s with
  | start => cases hstage
  | @step events q _ e hrun hstep ih =>
    cases hstep with
    | started _ hidle =>
      cases hstage
      exact ⟨events, q, [], rfl, hrun, hidle, .start⟩
    | iteration hrunning hnext =>
      cases hstage
      obtain ⟨before, q', iteration, rfl, hbefore, hidle, hworkers⟩ := ih hrunning
      refine ⟨before, q', iteration ++ [_], ?_, hbefore, hidle, hworkers.step hnext⟩
      rw [List.map_append, List.append_assoc, List.cons_append]
      rfl
    | closed _ => cases debug <;> cases hstage
    | _ => cases hstage

end Histories

/-! ## The client's operations as runs -/

section Runs

variable [Double δ] (debug : Bool) (fmt : DoubleFormat δ) {p : Program δ}

/-- Batches that are sent off one after the other, up to the first that fails. Induction on the
batches. -/
theorem run_of_submitBatches {calls : ℕ → BatchDeleteCall} (hcalls : ∀ n, (calls n).KeepsOthers)
    {n : ℕ} {batches sent : List (List CString)} {B : Bucket} {result : Except Failure Unit}
    (hstage : p.stage = .deleting batches)
    (h : submitBatches calls n batches p.bucket = (sent, B, result)) :
    ∃ events, Transition.Run (ProgramStep debug fmt) p events
        { p with stage := if result.isOk then .idle else .ended, bucket := B } ∧
      ((∀ n, (calls n).RefusesNone) → RefusesNothing events) := by
  induction batches generalizing n p sent with
  | nil =>
    cases h
    exact ⟨_, .single (.finished hstage), fun _ => by simp [RefusesNothing]⟩
  | cons batch rest ih =>
    rcases submitBatches_cons_cases h with ⟨e, hthrows, rfl, -⟩ | ⟨B₁, later, hfirst, hrest, -⟩
    · exact ⟨_, .single (.deletionFailed hstage (hcalls n) hthrows),
        fun _ => by simp [RefusesNothing]⟩
    · obtain ⟨events, hrun, hnone⟩ :=
        ih (p := { p with stage := .deleting rest, bucket := B₁ }) rfl hrest
      refine ⟨_, (Transition.Run.single (.deleted hstage (hcalls n) hfirst)).trans hrun,
        fun h => ?_⟩
      -- the batch has left nothing
      have hgone : batch.filter (fun k => (B₁.lookup k).isSome) = [] := by
        refine List.filter_eq_nil_iff.mpr fun k hk => ?_
        simp [lookup_batchDeleteObjects_of_ok (h n) hfirst hk]
      rw [hgone]
      exact .append (by simp [RefusesNothing]) (hnone h)

/-- **`delete_all` is a run of the program**, whether it returns or throws. -/
theorem run_of_deleteAll {storage : StorageReply} {listCalls : ℕ → ListRequest → ListReply}
    {deleteCalls : ℕ → BatchDeleteCall} {fuel : ℕ} {B : Bucket} {result : Except Failure ℕ}
    (hstage : p.stage = .beginning)
    (hpages : ∀ n marker, (listCalls n (listRequest [] (cstr "/") marker)).Pages p.bucket
      (listRequest [] (cstr "/") marker))
    (hcalls : ∀ n, (deleteCalls n).KeepsOthers)
    (h : deleteAll storage listCalls deleteCalls p.bucket fuel = some (B, result)) :
    ∃ events, Transition.Run (ProgramStep debug fmt) p events
        { p with stage := if result.isOk then .idle else .ended, bucket := B } ∧
      ((∀ n, (deleteCalls n).RefusesNone) → RefusesNothing events) := by
  unfold deleteAll at h
  split at h
  · -- the statistics failed
    obtain ⟨rfl, rfl⟩ := Prod.mk.inj (Option.some.inj h)
    exact ⟨_, .single (.ended p), fun _ => by simp [RefusesNothing]⟩
  · obtain ⟨listing, hlist, hresult⟩ := Option.map_eq_some_iff.mp h
    match listing, hlist, hresult with
    | .error e, _, hresult =>
      obtain ⟨rfl, rfl⟩ := Prod.mk.inj hresult
      exact ⟨_, .single (.ended p), fun _ => by simp [RefusesNothing]⟩
    | .ok (keys, requests), hlist, hresult =>
      have hlisted : ProgramStep debug fmt p (.listed keys)
          { p with stage := .deleting (Batches.batches 1000 keys) } :=
        .listed hstage hpages hlist
      rcases hsent : submitBatches deleteCalls 0 (Batches.batches 1000 keys) p.bucket with
        ⟨sent, B', deleted⟩
      obtain ⟨events, hrun, hnone⟩ := run_of_submitBatches debug fmt hcalls
        (p := { p with stage := .deleting (Batches.batches 1000 keys) }) rfl hsent
      have hall : (∀ n, (deleteCalls n).RefusesNone) → RefusesNothing (.listed keys :: events) := by
        intro h left hmem
        rcases List.mem_cons.mp hmem with hfirst | hlater
        · cases hfirst
        · exact hnone h left hlater
      simp only [deleteObjects_eq, hsent] at hresult
      cases deleted with
      | error failure =>
        obtain ⟨rfl, rfl⟩ := Prod.mk.inj hresult
        exact ⟨_, (Transition.Run.single hlisted).trans hrun, hall⟩
      | ok u =>
        obtain ⟨rfl, rfl⟩ := Prod.mk.inj hresult
        exact ⟨_, (Transition.Run.single hlisted).trans hrun, hall⟩

theorem run_of_iterationRun {b : Benchmark} (schedule : b.Schedule) {events : List (Event δ)}
    {s : IterationState b.Carry δ}
    (h : Transition.Run (IterationStep b.cfg.numThreads b.cfg.loopCount (b.operations schedule))
      (.start b.cfg.loopCount p.bucket b.initialCarry) events s) (hstage : p.stage = .idle) :
    Transition.Run (ProgramStep debug fmt) p (.started b :: events.map .iteration)
      { p with stage := .running b schedule s, bucket := s.bucket } := by
  induction h with
  | start => exact .single (.started schedule hstage)
  | step _ hstep ih =>
    rw [List.map_append, ← List.cons_append]
    exact ih.step (.iteration rfl hstep)

/-- The whole text may go out in one piece. -/
theorem wrote_all {b : Benchmark} (pending : Bytes) (hstage : p.stage = .writing b pending)
    (hfile : p.file = some []) :
    ProgramStep debug fmt p .wrote ⟨.writing b [], p.bucket, p.rows, some pending⟩ := by
  have hwrote : ProgramStep debug fmt p .wrote
      { p with stage := .writing b [], file := p.file.map (· ++ pending) } :=
    .wrote (by rw [hstage, List.append_nil])
  rwa [hfile] at hwrote

/-- Reporting a row, saving the file in one piece, and, without `DEBUG`, deleting the keys. -/
theorem run_of_joined {b : Benchmark} {schedule : b.Schedule} {s : IterationState b.Carry δ}
    (hjoined : s.Joined b.cfg.numThreads) {deleteCalls : ℕ → BatchDeleteCall} {final : Bucket}
    (hcalls : ∀ n, (deleteCalls n).KeepsOthers)
    (hcleanup : deleteObjects deleteCalls p.bucket b.keys = (final, .ok ()))
    (hstage : p.stage = .running b schedule s) (seconds : δ) :
    ∃ events row, Transition.Run (ProgramStep false fmt) p events
      ⟨.idle, final, p.rows ++ [row], some (toCsv fmt (p.rows ++ [row]))⟩ := by
  set row := s.row b.type b.cfg.numThreads b.cfg.objectSize b.cfg.loopCount seconds with hrow
  set csv := toCsv fmt (p.rows ++ [row]) with hcsv
  have hreport : ProgramStep false fmt p (.reported b row)
      { p with stage := .opening b, rows := p.rows ++ [row] } := .reported hstage hjoined rfl
  have hopen : ProgramStep false fmt { p with stage := .opening b, rows := p.rows ++ [row] }
      .opened ⟨.writing b csv, p.bucket, p.rows ++ [row], some []⟩ := .opened rfl
  have hwrite : ProgramStep false fmt ⟨.writing b csv, p.bucket, p.rows ++ [row], some []⟩
      .wrote ⟨.writing b [], p.bucket, p.rows ++ [row], some csv⟩ := wrote_all false fmt csv rfl rfl
  have hclose : ProgramStep false fmt ⟨.writing b [], p.bucket, p.rows ++ [row], some csv⟩
      .closed ⟨.deleting (Batches.batches 1000 b.keys), p.bucket, p.rows ++ [row], some csv⟩ :=
    .closed rfl
  rw [deleteObjects_eq] at hcleanup
  have hsent : submitBatches deleteCalls 0 (Batches.batches 1000 b.keys) p.bucket =
      (_, final, .ok ()) := Prod.ext rfl hcleanup
  obtain ⟨events, hrun, -⟩ := run_of_submitBatches false fmt hcalls
    (p := ⟨.deleting (Batches.batches 1000 b.keys), p.bucket, p.rows ++ [row], some csv⟩) rfl hsent
  have hsaved := (((Transition.Run.single hreport).step hopen).step hwrite).step hclose
  exact ⟨_, row, hsaved.trans hrun⟩

/-- **A completed iteration is a run of the program** in a build without `DEBUG`. -/
theorem run_of_iteration {b : Benchmark} {final : Bucket} (h : Iteration δ p.bucket b final)
    (hstage : p.stage = .idle) :
    ∃ events row, Transition.Run (ProgramStep false fmt) p events
      ⟨.idle, final, p.rows ++ [row], some (toCsv fmt (p.rows ++ [row]))⟩ := by
  -- both benchmarks go through their attempts, and then through the same end
  have hcompleted : ∀ (b : Benchmark) (schedule : b.Schedule) (events : List (Event δ))
      (s : IterationState b.Carry δ) (deleteCalls : ℕ → BatchDeleteCall),
      Transition.Run (IterationStep b.cfg.numThreads b.cfg.loopCount (b.operations schedule))
        (.start b.cfg.loopCount p.bucket b.initialCarry) events s → s.Joined b.cfg.numThreads →
      (∀ n, (deleteCalls n).Meets fun _ => .removed) →
      deleteObjects deleteCalls s.bucket b.keys = (final, .ok ()) →
      ∃ events row, Transition.Run (ProgramStep false fmt) p events
        ⟨.idle, final, p.rows ++ [row], some (toCsv fmt (p.rows ++ [row]))⟩ := by
    intro b schedule events s deleteCalls hrun hjoined hdelete hcleanup
    obtain ⟨rest, row, hjoin⟩ := run_of_joined fmt
      (p := { p with stage := .running b schedule s, bucket := s.bucket }) hjoined
      (fun n => (hdelete n).keepsOthers) hcleanup rfl 0
    exact ⟨_, row, (run_of_iterationRun false fmt schedule hrun hstage).trans hjoin⟩
  cases h with
  | @putObject cfg calls fate _ _ _ _ _ hcalls hrun hjoined hdelete hcleanup =>
    exact hcompleted (.putObject cfg) ⟨calls, fate, hcalls⟩ _ _ _ hrun hjoined hdelete hcleanup
  | @appendObject cfg calls fate _ _ _ _ _ hcalls hrun hjoined hdelete hcleanup =>
    exact hcompleted (.appendObject cfg) ⟨calls, fate, hcalls⟩ _ _ _ hrun hjoined hdelete hcleanup

end Runs

/-- On a service that serves every request the program gets past its `delete_all`. -/
theorem exists_run_idle [Double δ] (debug : Bool) (fmt : DoubleFormat δ) (bucket : Bucket)
    (file : Option Bytes) :
    ∃ events keys, Transition.Run (ProgramStep debug fmt) (.start bucket file) events
        ⟨.idle, bucket.remove (fun _ => .removed) 0 keys, [], file⟩ ∧ RefusesNothing events := by
  have hdelete : ∀ _ : ℕ, (BatchDeleteCall.ofOutcome fun _ => .removed).Meets fun _ => .removed :=
    fun _ => BatchDeleteCall.ofOutcome_meets _
  have hpages : ∀ (_ : ℕ) marker, (bucket.listPage (listRequest [] (cstr "/") marker)).Pages bucket
      (listRequest [] (cstr "/") marker) :=
    fun _ _ => (Bucket.listPage_fills _ _).pages (Nat.zero_lt_succ 999)
  obtain ⟨keys, ⟨fuel, hreturns⟩, -⟩ := deleteAll_returns (B := bucket)
    (StorageReply.ofCount_counts (n := 0) (by decide)) (fun _ _ => Bucket.listPage_completes _ _)
    hpages hdelete
  obtain ⟨events, hrun, hnone⟩ := run_of_deleteAll debug fmt (p := .start bucket file) rfl hpages
    (fun n => (hdelete n).keepsOthers) (hreturns fuel le_rfl)
  exact ⟨events, _, hrun, hnone fun n => (hdelete n).refusesNone⟩

/-- From an empty bucket it gets to the end of an append iteration. -/
theorem exists_run_joined (debug : Bool) (fmt : DoubleFormat ℚ) :
    ∃ before iteration schedule s, Transition.Run (ProgramStep debug fmt) (.start ∅ none)
        (before ++ .started (.appendObject tiny) :: List.map .iteration iteration)
        ⟨.running (.appendObject tiny) schedule s, s.bucket, [], none⟩ ∧
      s.Joined 2 ∧ reports before = [] := by
  obtain ⟨before, keys, hidle, -⟩ := exists_run_idle debug fmt ∅ none
  set b : Benchmark := .appendObject tiny
  set schedule : b.Schedule := ⟨tinyAppendCalls, firstOfZeroLost, fun _ _ _ =>
    AppendCall.ofFate_meets _⟩
  have habsent : ∀ i, Finmap.lookup (tiny.appendKey i)
      (Bucket.remove ∅ (fun _ => .removed) 0 keys) = none :=
    fun _ => Bucket.lookup_remove_of_absent (Finmap.lookup_empty _) _ _ _
  obtain ⟨s, hworkers, hjoined⟩ := run_tiny_append habsent 3 5 (7 : ℚ)
  have hnone : reports before = [] := List.map_eq_nil_iff.mp (rows_of_run hidle).symm
  exact ⟨before, _, schedule, s,
    hidle.trans (run_of_iterationRun debug fmt schedule hworkers rfl), hjoined, hnone⟩

end ObsBench
