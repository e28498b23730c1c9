import ObsBench.Bench.CsvRecords
import ObsBench.Bench.Program

/-!
# The results file over time

`save_csv` rewrites the whole file behind every iteration. Opening truncates it, and the text goes
out in pieces, so a process that ends meanwhile leaves part of the text, and a stream that fails
leaves what it had written; neither is noticed. What is in the file is always the beginning of a
table the program has had, so dropping the line that is torn gives rows it has reported.

* **`readRows_of_prefix`**: what a reader makes of the beginning of a table.
* **`results_file_readable`**: the file at any moment of any history.
-/

namespace ObsBench

variable {δ : Type}

/-! ## Reading a file that may be torn -/

/-- The rows of a file without its torn line: nothing if not even the header is complete. -/
def readRows (content : Bytes) : Option (List DecodedRow) :=
  match Csv.parse rfc4180 (Csv.completeLines rfc4180 content) with
  | none => none
  | some [] => some []
  | some (_ :: records) => records.mapM decodeRecord

section Reading

variable {fmt : DoubleFormat δ} (hfmt : fmt.Plain)
include hfmt

/-- The line end of a record is the only one in it. -/
theorem lf_notMem_recordFields {row : DataFrameRow δ} (hrow : PlainType row.type) :
    ∀ f ∈ recordFields fmt row, rfc4180.lf ∉ f.content := by
  intro f hf hlf
  have hok := recordFields_ok hfmt hrow f hf
  cases f with
  | text content => exact hok _ hlf (by simp)
  | quoted content =>
    simp only [recordFields, List.mem_cons, reduceCtorEq, Csv.Field.quoted.injEq, List.not_mem_nil,
      or_false, false_or] at hf
    obtain ⟨hlatencies, htrace⟩ := notMem_listColumns hfmt (b := rfc4180.lf) (by decide) (by decide)
      row
    rcases hf with rfl | rfl
    · exact hlatencies hlf
    · exact htrace hlf

/-- The records of the rows decode to the rows. -/
theorem mapM_decodeRecord (rows : List (DataFrameRow δ)) :
    (rows.map fun row => (recordFields fmt row).map Csv.Field.content).mapM decodeRecord =
      some (rows.map (·.rendered fmt)) := by
  induction rows with
  | nil => rfl
  | cons row rows ih =>
    rw [List.map_cons, List.mapM_cons, decodeRecord_recordFields hfmt, ih]
    rfl

/-- A file whose complete lines are the header and some rows. -/
theorem readRows_of_complete {rows : List (DataFrameRow δ)}
    (hrows : ∀ row ∈ rows, PlainType row.type) {content : Bytes}
    (hcomplete : Csv.completeLines rfc4180 content =
      (tableRecords fmt rows).flatMap (Csv.printRecord rfc4180)) :
    readRows content = some (rows.map (·.rendered fmt)) := by
  rw [readRows, hcomplete, parse_table hfmt hrows]
  exact mapM_decodeRecord hfmt rows

theorem readRows_toCsv {rows : List (DataFrameRow δ)} (hrows : ∀ row ∈ rows, PlainType row.type) :
    readRows (toCsv fmt rows) = some (rows.map (·.rendered fmt)) :=
  readRows_of_complete hfmt hrows (by rw [toCsv_eq hfmt, Csv.completeLines_print])

/-- **Reading the beginning of a table** gives its first rows. -/
theorem readRows_of_prefix {rows : List (DataFrameRow δ)} (hrows : ∀ row ∈ rows, PlainType row.type)
    {content : Bytes} (h : content <+: toCsv fmt rows) :
    ∃ m, readRows content = some ((rows.take m).map (·.rendered fmt)) := by
  have hlf : ∀ record ∈ tableRecords fmt rows, rfc4180.lf ∉ Csv.printFields rfc4180 record := by
    unfold tableRecords
    simp only [List.forall_mem_cons, List.forall_mem_map]
    refine ⟨Csv.lf_notMem_printFields _ fun f hf hlf => ?_, fun row hrow =>
      Csv.lf_notMem_printFields _ (lf_notMem_recordFields hfmt (hrows row hrow))⟩
    have hok := csvColumns_ok f hf
    obtain ⟨name, -, rfl⟩ := List.mem_map.mp hf
    exact hok _ hlf (by simp)
  rw [toCsv_eq hfmt] at h
  obtain ⟨m, hm, hcomplete⟩ := Csv.completeLines_of_prefix rfc4180 hlf h
  cases m with
  | zero =>
    -- torn inside the header
    refine ⟨0, ?_⟩
    rw [readRows, hcomplete]
    rfl
  | succ m =>
    refine ⟨m, readRows_of_complete hfmt (fun row hrow => hrows row (List.mem_of_mem_take hrow)) ?_⟩
    rw [hcomplete, tableRecords, tableRecords, List.take_succ_cons, List.map_take]

end Reading

/-! ## The file of the program -/

/-- Whether the last `save_csv` of the process dropped something. -/
def saveFailedAfter (failed : Bool) : ProgramEvent δ → Bool
  | .notOpened | .writeFailed => true
  | .reported _ _ | .restarted => false
  | _ => failed

def saveFailed (events : List (ProgramEvent δ)) : Bool := events.foldl saveFailedAfter false

theorem saveFailed_append (events : List (ProgramEvent δ)) (e : ProgramEvent δ) :
    saveFailed (events ++ [e]) = saveFailedAfter (saveFailed events) e :=
  List.foldl_append

/-- The rows of the reports up to some moment. -/
def tableAfter (events : List (ProgramEvent δ)) : List (DataFrameRow δ) :=
  (reports events).map (·.2)

/-- Between two saves. -/
def Stage.Settled : Stage δ → Prop
  | .deleting _ | .idle | .running _ _ _ => True
  | _ => False

/-- The file is what it first was, or the beginning of a table the program once had. While a
process writes without a failure, what it has written and what is pending make up its table;
behind a failure nothing is pending. -/
structure FileOf (fmt : DoubleFormat δ) (file : Option Bytes) (events : List (ProgramEvent δ))
    (p : Program δ) : Prop where
  table : p.file = file ∨ ∃ before content, before <+: events ∧ p.file = some content ∧
    content <+: toCsv fmt (tableAfter before)
  opening : ∀ b, p.stage = .opening b → saveFailed events = false
  writing : ∀ b pending, p.stage = .writing b pending → saveFailed events = false →
    ∃ content, p.file = some content ∧ content ++ pending = toCsv fmt (tableAfter events)
  dropped : ∀ b pending, p.stage = .writing b pending → saveFailed events = true → pending = []
  saved : p.stage.Settled → saveFailed events = false → reports events ≠ [] →
    p.file = some (toCsv fmt (tableAfter events))

section Histories

variable {debug : Bool} {fmt : DoubleFormat δ} {bucket : Bucket} {file : Option Bytes}
  {events : List (ProgramEvent δ)} {p p' : Program δ} {e : ProgramEvent δ}

/-- A file that a step leaves alone is explained as before. -/
theorem FileOf.table_later (h : FileOf fmt file events p) (hfile : p'.file = p.file) :
    p'.file = file ∨ ∃ before content, before <+: events ++ [e] ∧ p'.file = some content ∧
      content <+: toCsv fmt (tableAfter before) := by
  rw [hfile]
  exact h.table.imp_right fun ⟨before, content, hbefore, hcontent⟩ =>
    ⟨before, content, hbefore.trans (List.prefix_append _ _), hcontent⟩

/-- A step outside of `save_csv`. -/
theorem FileOf.of_file (h : FileOf fmt file events p) (hfile : p'.file = p.file)
    (hopening : ∀ b, p'.stage = .opening b → saveFailed (events ++ [e]) = false)
    (hwriting : ∀ b pending, p'.stage ≠ .writing b pending)
    (hsaved : p'.stage.Settled → p.stage.Settled ∧ saveFailed (events ++ [e]) = saveFailed events ∧
      reports (events ++ [e]) = reports events) : FileOf fmt file (events ++ [e]) p' where
  table := h.table_later hfile
  opening := hopening
  writing b pending hstage := absurd hstage (hwriting b pending)
  dropped b pending hstage := absurd hstage (hwriting b pending)
  saved hsettled hok hreports := by
    obtain ⟨hbefore, hfailed, hsame⟩ := hsaved hsettled
    rw [hfailed] at hok
    rw [hsame] at hreports
    rw [hfile, tableAfter, hsame]
    exact h.saved hbefore hok hreports

/-- Writing a piece: it is what comes next of the table, or nothing behind a failure. -/
theorem FileOf.wrote {b : Benchmark} {piece pending : Bytes} (h : FileOf fmt file events p)
    (hstage : p.stage = .writing b (piece ++ pending)) :
    FileOf fmt file (events ++ [.wrote])
      { p with stage := .writing b pending, file := p.file.map (· ++ piece) } := by
  have hreports : reports (events ++ [.wrote]) = reports events := reports_append events _
  have hfailed : saveFailed (events ++ [.wrote]) = saveFailed events := saveFailed_append events _
  cases hok : saveFailed events with
  | false =>
    obtain ⟨content, hfile, hcontent⟩ := h.writing b _ hstage hok
    rw [← List.append_assoc] at hcontent
    have hmapped : p.file.map (· ++ piece) = some (content ++ piece) := by rw [hfile]; rfl
    refine ⟨.inr ⟨events, content ++ piece, List.prefix_append _ _, hmapped, pending, hcontent⟩,
      nofun, ?_, ?_, nofun⟩
    · rintro b' pending' hwriting -
      cases hwriting
      rw [tableAfter, hreports]
      exact ⟨_, hmapped, hcontent⟩
    · rintro b' pending' - hfail
      rw [hfailed, hok] at hfail
      exact absurd hfail Bool.false_ne_true
  | true =>
    -- nothing is left to write
    obtain ⟨rfl, rfl⟩ := List.append_eq_nil_iff.mp (h.dropped b _ hstage hok)
    have hsame : p.file.map (· ++ []) = p.file := by simp
    refine ⟨h.table_later hsame, nofun, ?_, ?_, nofun⟩
    · rintro b' pending' - hfail
      rw [hfailed, hok] at hfail
      exact absurd hfail.symm Bool.false_ne_true
    · rintro b' pending' hwriting -
      cases hwriting
      rfl

variable [Double δ]

/-- A step truncates the file, writes on from what is pending, or leaves it alone. -/
theorem FileOf.step (h : FileOf fmt file events p) (hrows : p.rows = tableAfter events)
    (hbeginning : p.stage = .beginning → reports events = [])
    (hstep : ProgramStep debug fmt p e p') : FileOf fmt file (events ++ [e]) p' := by
  have hreports := reports_append events e
  have hfailed := saveFailed_append events e
  cases hstep with
  | listed hstage hpages hlist =>
    -- the process has reported nothing yet
    refine ⟨h.table_later rfl, nofun, nofun, nofun, fun _ _ hne => ?_⟩
    exact absurd (hreports.trans (hbeginning hstage)) hne
  | deleted hstage hcall hdelete =>
    exact h.of_file rfl nofun nofun fun _ => ⟨by rw [hstage]; trivial, hfailed, hreports⟩
  | deletionFailed hstage hcall hdelete | ended => exact h.of_file rfl nofun nofun nofun
  | finished hstage | iteration hstage hstep =>
    exact h.of_file rfl nofun nofun fun _ => ⟨by rw [hstage]; trivial, hfailed, hreports⟩
  | started schedule hstage =>
    exact h.of_file rfl nofun nofun fun _ => ⟨by rw [hstage]; trivial, hfailed, hreports⟩
  | reported hstage hjoined hrow => exact h.of_file rfl (fun _ _ => hfailed) nofun nofun
  | @opened b hstage =>
    -- the file is empty, and the whole table is pending
    have hok : saveFailed (events ++ [.opened]) = false := hfailed.trans (h.opening b hstage)
    refine ⟨.inr ⟨events, [], List.prefix_append _ _, rfl, List.nil_prefix⟩, nofun, ?_, ?_, nofun⟩
    · rintro b' pending hwriting -
      cases hwriting
      rw [tableAfter, hreports, hrows]
      exact ⟨[], rfl, rfl⟩
    · rintro b' pending - hfail
      rw [hok] at hfail
      exact absurd hfail Bool.false_ne_true
  | notOpened hstage | writeFailed hstage =>
    refine ⟨h.table_later rfl, nofun, ?_, ?_, nofun⟩
    · rintro b' pending - hok
      rw [hfailed] at hok
      exact absurd hok.symm Bool.false_ne_true
    · rintro b' pending hwriting -
      cases hwriting
      rfl
  | wrote hstage => exact h.wrote hstage
  | @closed b hstage =>
    -- nothing is pending, so the whole table is written unless something failed
    refine ⟨h.table_later rfl, ?_, ?_, ?_, ?_⟩
    · intro b' hopening
      cases debug <;> cases hopening
    · intro b' pending hwriting
      cases debug <;> cases hwriting
    · intro b' pending hwriting
      cases debug <;> cases hwriting
    · intro _ hok _
      rw [hfailed] at hok
      obtain ⟨content, hfile, hcontent⟩ := h.writing b [] hstage hok
      rw [List.append_nil] at hcontent
      rw [tableAfter, hreports]
      show p.file = some (toCsv fmt (tableAfter events))
      rw [← hcontent]
      exact hfile
  | restarted => exact h.of_file rfl nofun nofun nofun

/-- The file is explained in every reachable state. -/
theorem fileOf_of_run
    (h : Transition.Run (ProgramStep debug fmt) (.start bucket file) events p) :
    FileOf fmt file events p := by
  induction h with
  | start => exact ⟨.inl rfl, nofun, nofun, nofun, nofun⟩
  | step hrun hstep ih => exact ih.step (rows_of_run hrun) (reports_of_beginning hrun) hstep

/-- The type of a reported row is the name of its benchmark. -/
theorem typeOk_of_run
    (h : Transition.Run (ProgramStep debug fmt) (.start bucket file) events p) :
    ∀ row ∈ tableAfter events, PlainType row.type := by
  -- filtering evaluates a name once, a bounded quantifier once for each byte
  have hnames : ∀ name ∈ [text "put_object", text "append_object"],
      name.filter (· ∈ [rfc4180.comma, rfc4180.quote, rfc4180.cr, rfc4180.lf]) = [] := by
    decide +kernel
  have htypes : ∀ b : Benchmark, ∀ c ∈ b.type,
      c ∉ [rfc4180.comma, rfc4180.quote, rfc4180.cr, rfc4180.lf] := by
    simp only [List.filter_eq_nil_iff, decide_eq_true_iff] at hnames
    intro b
    cases b with
    | putObject cfg => exact hnames _ (List.mem_cons_self ..)
    | appendObject cfg => exact hnames _ (List.mem_cons_of_mem _ (List.mem_singleton_self _))
  refine h.invariant (fun events _ => ∀ row ∈ tableAfter events, PlainType row.type) nofun ?_
  intro events p e p' hrows hstep
  rw [tableAfter, reports_append]
  cases hstep with
  | @reported b _ _ _ row _ _ _ hrow =>
    obtain ⟨rfl, -⟩ := Prod.mk.inj hrow
    intro row hmem
    rw [reportsAfter, List.map_append] at hmem
    rcases List.mem_append.mp hmem with hold | hnew
    · exact hrows row hold
    · rw [List.mem_singleton.mp hnew]
      exact htypes b
  | restarted => nofun
  | _ => exact hrows

/-- **The results file at any moment.** In any history, of processes that end anywhere and streams
that fail, the file is what it first was, or a reader that drops the torn line gets the first rows
of a table that some process of the history had at some moment. Between two saves the reader gets
all rows of the process, if the last save has not failed. -/
theorem results_file_readable (hfmt : fmt.Plain)
    (h : Transition.Run (ProgramStep debug fmt) (.start bucket file) events p) :
    (p.file = file ∨ ∃ before content m, before <+: events ∧ p.file = some content ∧
      readRows content = some (((reports before).take m).map (·.2.rendered fmt))) ∧
    (p.stage.Settled → saveFailed events = false → reports events ≠ [] →
      ∃ content, p.file = some content ∧
        readRows content = some ((reports events).map (·.2.rendered fmt))) := by
  have hfile := fileOf_of_run h
  constructor
  · refine hfile.table.imp_right fun ⟨before, content, hbefore, hcontent, hprefix⟩ => ?_
    obtain ⟨q, hq⟩ := h.of_prefix hbefore
    obtain ⟨m, hrows⟩ := readRows_of_prefix hfmt (typeOk_of_run hq) hprefix
    refine ⟨before, content, m, hbefore, hcontent, ?_⟩
    rw [hrows, tableAfter, ← List.map_take, List.map_map]
    rfl
  · intro hsettled hok hreports
    refine ⟨_, hfile.saved hsettled hok hreports, ?_⟩
    rw [readRows_toCsv hfmt (typeOk_of_run h), tableAfter, List.map_map]
    rfl

end Histories

/-- A process with one reported iteration, behind its `save_csv`. -/
theorem results_file_readable_tiny :
    ∃ events p, Transition.Run (ProgramStep true .whole) (.start ∅ none) events p ∧
      (reports events).length = 1 ∧ ∃ content, p.file = some content ∧
        readRows content = some ((reports events).map (·.2.rendered .whole)) := by
  obtain ⟨before, iteration, schedule, s, hrunning, hjoined, hnone⟩ := exists_run_joined true .whole
  have hreported := hrunning.step (.reported rfl hjoined
    (show appendRow [] (text "append_object") 2 1 1 1 s.groupLatencies (s.traceVector 2) = _
      from rfl))
  have hsaved := ((hreported.step (.opened rfl)).step (wrote_all true .whole _ rfl rfl)).step
    (.closed rfl)
  have hreports : ∀ row, (reports ((((before ++ .started (.appendObject tiny) ::
      List.map .iteration iteration) ++ [.reported (.appendObject tiny) row]) ++ [.opened]) ++
        [.wrote] ++ [.closed])).length = 1 := by
    intro row
    simp only [reports_append, reports_started, hnone]
    rfl
  refine ⟨_, _, hsaved, hreports _, (results_file_readable DoubleFormat.whole_plain hsaved).2
    trivial ?_ ?_⟩
  · simp only [saveFailed_append]
    rfl
  · exact List.ne_nil_of_length_pos (by rw [hreports]; exact Nat.one_pos)

end ObsBench
