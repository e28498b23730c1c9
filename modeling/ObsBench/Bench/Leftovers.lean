import ObsBench.Bench.CsvRecords
import ObsBench.Bench.Program

/-!
# What processes leave behind

A process of the benchmark may end anywhere, in the middle of an upload or of a deletion, and the
next one starts on the bucket it leaves. In a build without `DEBUG` every key in the bucket is due
to be deleted, at every moment from the listing on. So whatever happened before, once a process
has emptied the bucket no trace of earlier processes or of earlier iterations is in it.

* **`Program.Tidy.step`**: the keys the bucket may hold at each stage.
* **`idle_after_crashes`**: between two iterations the bucket is empty.
* **`program_confined`**: what the program never touches, in any build.
-/

namespace ObsBench

variable {δ : Type}

/-- A key the default listing shows. -/
def CString.Flat (k : CString) : Prop := k ≠ [] ∧ ¬ cstr "/" <:+: k

theorem slash_mem_bytes_of_infix {k : CString} (h : cstr "/" <:+: k) : slash ∈ k.bytes := by
  have hslash : (cstr "/").bytes = [slash] := by decide
  obtain ⟨front, back, rfl⟩ := h
  rw [bytes_append, bytes_append, hslash]
  simp

/-- The keys of the benchmarks are shown by a default listing: none is empty or has a slash. -/
theorem Benchmark.flat_of_mem_keys {b : Benchmark} {k : CString} (hk : k ∈ b.keys) : k.Flat := by
  have hsize : cstr "_size" ≠ [] := by decide
  obtain ⟨i, -, hrow⟩ := Benchmark.mem_keys.mp hk
  cases b with
  | putObject cfg =>
    obtain ⟨j, -, rfl⟩ := List.mem_map.mp hrow
    refine ⟨by simp [Config.putKey, putObjectKey, hsize], fun hslash => ?_⟩
    have hmem := slash_mem_bytes_of_infix hslash
    rw [Config.putKey, bytes_putObjectKey] at hmem
    exact slash_notMem_formatPutObjectKey (by decide) _ _ _ _ hmem
  | appendObject cfg =>
    obtain rfl := List.mem_singleton.mp hrow
    refine ⟨by simp [Config.appendKey, appendObjectKey, hsize], fun hslash => ?_⟩
    have hmem := slash_mem_bytes_of_infix hslash
    rw [Config.appendKey, bytes_appendObjectKey] at hmem
    exact slash_notMem_formatAppendObjectKey (by decide) _ _ _ hmem

/-! ## What is due -/

/-- The keys that may be in the bucket: everything before the listing is done; then what is still
to be deleted, and what the iteration under way may have written. -/
def Stage.Due : Stage δ → CString → Prop
  | .beginning, _ => True
  | .deleting batches, k => k ∈ batches.flatten
  | .idle, _ => False
  | .running b _ _, k => k ∈ b.keys
  | .opening b, k => k ∈ b.keys
  | .writing b _, k => k ∈ b.keys
  | .ended, _ => True

/-- The bucket has only keys that a default listing shows, and they are due unless a batch of the
process has left them. -/
structure Program.Tidy (events : List (ProgramEvent δ)) (p : Program δ) : Prop where
  flat : ∀ k ∈ p.bucket, k.Flat
  due : ∀ k ∈ p.bucket, p.stage.Due k ∨ k ∈ refused events

section Tidy

variable [Double δ] {fmt : DoubleFormat δ} {events : List (ProgramEvent δ)} {p p' : Program δ}
  {e : ProgramEvent δ}

/-- No step of the program brings a key with a slash into the bucket. -/
theorem Program.Tidy.flat_step {debug : Bool} (h : p.Tidy events) (hsynced : p.Synced)
    (hstep : ProgramStep debug fmt p e p') : ∀ k ∈ p'.bucket, k.Flat := by
  intro k hk
  rcases hstep.lookup_cases hsynced k with hsame | ⟨batch, rest, -, -, hgone⟩ | ⟨b, _, _, -, hb⟩
  · rw [← Finmap.lookup_isSome, hsame, Finmap.lookup_isSome] at hk
    exact h.flat k hk
  · exact absurd hk (Finmap.lookup_eq_none.mp hgone)
  · exact Benchmark.flat_of_mem_keys hb

omit [Double δ] in
/-- What a tidy bucket holds, at a stage that is known. -/
theorem Program.Tidy.due_at (h : p.Tidy events) {stage : Stage δ} (hstage : p.stage = stage)
    {k : CString} (hk : k ∈ p.bucket) : stage.Due k ∨ k ∈ refused events := by
  have hdue := h.due k hk
  rwa [hstage] at hdue

omit [Double δ] in
/-- Behind a batch that returned, a key of the batch has been left by it, and any other key is due
in a later batch or was left before. -/
theorem Program.Tidy.due_deleted (h : p.Tidy events) {call : BatchDeleteCall}
    {batch : List CString} {rest : List (List CString)} {B : Bucket}
    (hstage : p.stage = .deleting (batch :: rest)) (hcall : call.KeepsOthers)
    (hdelete : batchDeleteObjects call p.bucket batch = (B, .ok ())) {k : CString} (hk : k ∈ B) :
    k ∈ rest.flatten ∨ k ∈ refused events ++ batch.filter fun k => (B.lookup k).isSome := by
  by_cases hbatch : k ∈ batch
  · have hleft : k ∈ batch.filter fun k => (B.lookup k).isSome :=
      List.mem_filter.mpr ⟨hbatch, Finmap.lookup_isSome.mpr hk⟩
    exact .inr (List.mem_append_right _ hleft)
  · have hold : k ∈ p.bucket := by
      rcases lookup_batchDeleteObjects hcall hdelete k with hsame | ⟨hmem, -⟩
      · rwa [← Finmap.lookup_isSome, ← hsame, Finmap.lookup_isSome]
      · exact absurd hmem hbatch
    refine (h.due_at hstage hold).imp (fun hmem => ?_) (List.mem_append_left _)
    exact (List.mem_append.mp (by simpa [Stage.Due] using hmem)).resolve_left hbatch

/-- **A step of a build without `DEBUG` keeps the bucket tidy.** The cases where the stage promises
less than before are a batch that returned, whose keys are gone or left by it, and the listing,
which has found everything. -/
theorem Program.Tidy.step (h : p.Tidy events) (hsynced : p.Synced)
    (hstep : ProgramStep false fmt p e p') : p'.Tidy (events ++ [e]) := by
  refine ⟨h.flat_step hsynced hstep, fun k hk => ?_⟩
  have hflatten : ∀ l : List CString, (Batches.batches 1000 l).flatten = l :=
    Batches.flatten_batches (by omega)
  rw [refused_append]
  cases hstep with
  | listed hstage hpages hlist =>
    left
    show k ∈ (Batches.batches 1000 _).flatten
    rw [hflatten]
    exact (listed_of_run hpages (run_of_listObjects hlist)).2 (fun _ k hk => (h.flat k hk).2) k
      (h.flat k hk).1 fun _ _ => hk
  | deleted hstage hcall hdelete => exact h.due_deleted hstage hcall hdelete hk
  | deletionFailed hstage hcall hdelete => exact .inl trivial
  | finished hstage =>
    exact (h.due_at hstage hk).imp_left fun hmem => absurd hmem (by simp [Stage.Due])
  | started schedule hstage =>
    exact (h.due_at hstage hk).imp_left fun hmem => absurd hmem (by simp [Stage.Due])
  | @iteration b schedule s s' e hstage hstep =>
    by_cases hb : k ∈ b.keys
    · exact .inl hb
    · -- a key of another benchmark was there before the step
      have hold : k ∈ p.bucket := by
        rwa [← Finmap.lookup_isSome, ← hsynced b schedule s hstage, ← hstep.lookup_eq hb,
          Finmap.lookup_isSome]
      exact (h.due_at hstage hold).imp_left fun hmem => absurd hmem hb
  | reported hstage hjoined hrow => exact h.due_at hstage hk
  | opened hstage | notOpened hstage | wrote hstage | writeFailed hstage => exact h.due_at hstage hk
  | @closed b hstage =>
    refine (h.due_at hstage hk).imp_left fun hmem => ?_
    show k ∈ (Batches.batches 1000 b.keys).flatten
    rwa [hflatten]
  | ended => exact .inl trivial
  | restarted => exact .inl trivial

end Tidy

/-- The benchmark whose iteration is under way, from its first attempt to the end of its
`save_csv`. -/
def Stage.benchmark : Stage δ → Option Benchmark
  | .running b _ _ | .opening b | .writing b _ => some b
  | _ => none

section Histories

variable [Double δ] {debug : Bool} {fmt : DoubleFormat δ} {bucket : Bucket} {file : Option Bytes}
  {events : List (ProgramEvent δ)} {p : Program δ}

/-- In every reachable state the iteration under way works on the program's bucket. -/
theorem synced_of_run
    (h : Transition.Run (ProgramStep debug fmt) (.start bucket file) events p) : p.Synced := by
  cases h with
  | start =>
    intro b schedule s hstage
    cases hstage
  | step _ hstep => exact hstep.synced

/-- A program that starts on flat keys is tidy in every reachable state. -/
theorem tidy_of_run (hflat : ∀ k ∈ bucket, k.Flat)
    (h : Transition.Run (ProgramStep false fmt) (.start bucket file) events p) : p.Tidy events := by
  induction h with
  | start => exact ⟨hflat, fun _ _ => .inl trivial⟩
  | step hrun hstep ih => exact ih.step (synced_of_run hrun) hstep

/-- **Crashes leave nothing for long.** Let the bucket first hold no nested key, and let any number
of processes of a build without `DEBUG` run on it, each ended at any moment. Whenever a process is
between two iterations, every key in the bucket is one that a batch deletion of this process was
given and left there although it returned. While an iteration runs and its results are saved there
may also be keys of its benchmark, and while keys are deleted those that are still to be deleted. -/
theorem idle_after_crashes (hflat : ∀ k ∈ bucket, k ≠ [] ∧ ¬ cstr "/" <:+: k)
    (h : Transition.Run (ProgramStep false fmt) (.start bucket file) events p) :
    (p.stage = .idle → ∀ k ∈ p.bucket, k ∈ refused events) ∧
    (∀ b, p.stage.benchmark = some b → ∀ k ∈ p.bucket, k ∈ b.keys ∨ k ∈ refused events) ∧
    ∀ batches, p.stage = .deleting batches → ∀ k ∈ p.bucket,
      k ∈ batches.flatten ∨ k ∈ refused events := by
  have htidy : p.Tidy events := tidy_of_run hflat h
  refine ⟨fun hstage k hk => ?_, fun b hstage k hk => ?_, fun batches hstage k hk => ?_⟩
  · exact (htidy.due_at hstage hk).resolve_left not_false
  · cases hp : p.stage with
    | running | opening | writing =>
      rw [hp] at hstage
      cases hstage
      exact htidy.due_at hp hk
    | beginning | deleting | idle | ended =>
      rw [hp] at hstage
      cases hstage
  · exact htidy.due_at hstage hk

/-- A process is killed behind the first upload of an iteration, and the next one finds the key
that was uploaded. -/
theorem idle_after_crashes_killed :
    ∃ events p, Transition.Run (ProgramStep false .whole) (.start (.ofKeys [cstr "a"]) none)
      events p ∧ .restarted ∈ events ∧ p.stage = .idle ∧ p.bucket = ∅ := by
  obtain ⟨before, keys, hfirst, -⟩ := exists_run_idle false .whole (.ofKeys [cstr "a"]) none
  set final : Bucket := Bucket.remove (.ofKeys [cstr "a"]) (fun _ => .removed) 0 keys
  set b : Benchmark := .putObject tiny with hb
  set schedule : b.Schedule :=
    ⟨fun _ _ _ => .ofFate .applied, fun _ _ _ => .applied, fun _ _ _ => PutCall.ofFate_meets _⟩
  have hattempt : Transition.Run (IterationStep b.cfg.numThreads b.cfg.loopCount
      (b.operations schedule)) (.start b.cfg.loopCount final b.initialCarry) _ _ :=
    .single (.attempt (1 : ℚ) two_pos (.start (by decide) final b.initialCarry) rfl rfl)
  have hkilled := (hfirst.trans (run_of_iterationRun false .whole schedule hattempt rfl)).step
    (.restarted _)
  obtain ⟨after, keys', hsecond, hnothing⟩ := exists_run_idle false .whole _ none
  have hrun := hkilled.trans hsecond
  have hflat : ∀ k ∈ Bucket.ofKeys [cstr "a"], k ≠ [] ∧ ¬ cstr "/" <:+: k := by
    intro k hk
    obtain rfl := List.mem_singleton.mp (Bucket.mem_ofKeys.mp hk)
    decide
  -- the second process has refused nothing, so nothing is left
  refine ⟨_, _, hrun, by simp, rfl, Finmap.ext_lookup fun k => ?_⟩
  rw [Finmap.lookup_empty, Finmap.lookup_eq_none]
  intro hk
  have hleft := (idle_after_crashes hflat hrun).1 rfl k hk
  rw [refused_restarted, hnothing.refused_eq_nil] at hleft
  exact List.not_mem_nil hleft

/-! ## What the program never touches -/

/-- What the program may have done to the bucket it first found. -/
structure Confined (bucket : Bucket) (events : List (ProgramEvent δ)) (p : Program δ) : Prop where
  nested : ∀ k, cstr "/" <:+: k → p.bucket.lookup k = bucket.lookup k
  written : ∀ k, p.bucket.lookup k = bucket.lookup k ∨ p.bucket.lookup k = none ∨
    ∃ b, .started b ∈ events ∧ k ∈ b.keys
  batches : ∀ batches, p.stage = .deleting batches → ∀ k ∈ batches.flatten, ¬ cstr "/" <:+: k
  running : ∀ b schedule s, p.stage = .running b schedule s → .started b ∈ events

/-- The keys a deletion has before it come from a listing or from a benchmark. -/
theorem Confined.batches_step {p' : Program δ} {e : ProgramEvent δ} (h : Confined bucket events p)
    (hstep : ProgramStep debug fmt p e p') (batches : List (List CString))
    (hdeleting : p'.stage = .deleting batches) : ∀ k ∈ batches.flatten, ¬ cstr "/" <:+: k := by
  have hflatten : ∀ l : List CString, (Batches.batches 1000 l).flatten = l :=
    Batches.flatten_batches (by omega)
  cases hstep with
  | listed hstage hpages hlist =>
    cases hdeleting
    rw [hflatten]
    exact fun k hk => ((listed_of_run hpages (run_of_listObjects hlist)).1 k hk).1
  | deleted hstage hcall hdelete =>
    cases hdeleting
    intro k hk
    exact h.batches _ hstage k (List.mem_append_right _ hk)
  | @closed b hstage =>
    cases debug with
    | true => cases hdeleting
    | false =>
      cases hdeleting
      rw [hflatten]
      exact fun k hk => (Benchmark.flat_of_mem_keys hk).2
  | _ => cases hdeleting

/-- An iteration that runs after a step has been started. -/
theorem Confined.running_step {p' : Program δ} {e : ProgramEvent δ} (h : Confined bucket events p)
    (hstep : ProgramStep debug fmt p e p') (b : Benchmark) (schedule : b.Schedule)
    (s : IterationState b.Carry δ) (hrunning : p'.stage = .running b schedule s) :
    .started b ∈ events ++ [e] := by
  cases hstep with
  | started _ hstage =>
    cases hrunning
    exact List.mem_append_right _ (List.mem_singleton_self _)
  | iteration hstage hstep =>
    cases hrunning
    exact List.mem_append_left _ (h.running _ _ _ hstage)
  | closed hstage => cases debug <;> cases hrunning
  | _ => cases hrunning

/-- A step writes only keys of started iterations, and deletes no key with a slash. -/
theorem Confined.step {p' : Program δ} {e : ProgramEvent δ} (h : Confined bucket events p)
    (hsynced : p.Synced) (hstep : ProgramStep debug fmt p e p') :
    Confined bucket (events ++ [e]) p' := by
  have hearlier : ∀ b, ProgramEvent.started b ∈ events → ProgramEvent.started b ∈ events ++ [e] :=
    fun b => List.mem_append_left _
  refine ⟨fun k hk => ?_, fun k => ?_, h.batches_step hstep, h.running_step hstep⟩
  · -- a nested key is in no batch and no benchmark's
    rcases hstep.lookup_cases hsynced k with hsame | ⟨batch, rest, hstage, hmem, -⟩ |
      ⟨b, _, _, -, hb⟩
    · rw [hsame, h.nested k hk]
    · exact absurd hk (h.batches _ hstage k (List.mem_append_left _ hmem))
    · exact absurd hk (Benchmark.flat_of_mem_keys hb).2
  · rcases hstep.lookup_cases hsynced k with hsame | ⟨batch, rest, -, -, hgone⟩ |
      ⟨b, schedule, s, hstage, hb⟩
    · rw [hsame]
      exact (h.written k).imp_right (.imp_right fun ⟨b, hb, hk⟩ => ⟨b, hearlier b hb, hk⟩)
    · exact .inr (.inl hgone)
    · exact .inr (.inr ⟨b, hearlier b (h.running b schedule s hstage), hb⟩)

/-- In every reachable state the program has touched nothing else. -/
theorem confined_of_run
    (h : Transition.Run (ProgramStep debug fmt) (.start bucket file) events p) :
    Confined bucket events p := by
  induction h with
  | start => exact ⟨fun _ _ => rfl, fun _ => .inl rfl, by nofun, by nofun⟩
  | step hrun hstep ih => exact ih.step (synced_of_run hrun) hstep

/-- **What the program never touches.** Over any history, in either build, a nested key keeps its
object, whatever else happens; and an object that is not what it first was is gone, or it is under
a key of a benchmark that was started. -/
theorem program_confined
    (h : Transition.Run (ProgramStep debug fmt) (.start bucket file) events p) (k : CString) :
    (cstr "/" <:+: k → p.bucket.lookup k = bucket.lookup k) ∧
      (p.bucket.lookup k = bucket.lookup k ∨ p.bucket.lookup k = none ∨
        ∃ b, .started b ∈ events ∧ k ∈ b.keys) :=
  ⟨(confined_of_run h).nested k, (confined_of_run h).written k⟩

end Histories

/-- A nested key survives the `delete_all` of a process. -/
theorem program_confined_nested :
    ∃ events p, Transition.Run (ProgramStep true .whole) (.start (.ofKeys [cstr "a/b"]) none)
      events p ∧ p.stage = .idle ∧ p.bucket.lookup (cstr "a/b") = some [] := by
  obtain ⟨events, keys, hrun, -⟩ := exists_run_idle true .whole (.ofKeys [cstr "a/b"]) none
  have hkept := (program_confined hrun (cstr "a/b")).1 ⟨cstr "a", cstr "b", by decide⟩
  exact ⟨events, _, hrun, rfl, hkept.trans (Finmap.lookup_insert ∅)⟩

end ObsBench
