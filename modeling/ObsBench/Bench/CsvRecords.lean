import ObsBench.Bench.Tracer
import ObsBench.Lib.Bracketed
import ObsBench.Lib.Csv

/-!
# The results file

`to_csv` writes thirteen columns through one format string; the last two are lists, put in quotes
since they hold commas. The text is read back by a CSV reader, and the list columns by a reader of
bracketed lists. Of `fmt` only the alphabet of a rendered `double` is used.

* **`csvRecord_eq`**: the line of a row is its thirteen fields.
* **`toCsv_recoverable`**: what a reader gets back.
-/

namespace ObsBench

variable {δ : Type}

def rfc4180 : Csv.Dialect Byte where
  comma := byte ','
  quote := byte '"'
  cr := byte '\r'
  lf := byte '\n'
  distinct := by decide

def brackets : Bracketed.Brackets Byte where
  opening := byte '['
  closing := byte ']'
  comma := byte ','
  blank := byte ' '
  distinct := by decide

/-- The bytes with a meaning in the file. -/
def specialBytes : Bytes :=
  [byte ',', byte '"', byte '[', byte ']', byte ' ', byte '\n', byte '\r']

/-- Those of them that `fmt` puts around and between the elements of a range. -/
def rangeBytes : Bytes := [byte '[', byte ']', byte ',', byte ' ']

/-- Not empty, and free of commas, quotes, brackets, blanks and line breaks. -/
def PlainNumber (s : Bytes) : Prop :=
  s ≠ [] ∧ ∀ b ∈ s, b ∉ specialBytes

/-- Every `double` renders to a plain number. -/
def DoubleFormat.Plain (fmt : DoubleFormat δ) : Prop :=
  ∀ x, PlainNumber (fmt.shortest x) ∧ ∀ n, PlainNumber (fmt.fixed n x)

/-! ## The list columns -/

/-- fmt's text of a range is the bracketed list of the library. -/
theorem formatRange_eq {β : Type*} (item : β → Bytes) (xs : List β) :
    formatRange item xs = Bracketed.print brackets item xs := by
  rw [Bracketed.print_eq_intercalate, formatRange, show text ", " = [byte ',', byte ' '] by decide,
    show text "[" = [byte '['] by decide, show text "]" = [byte ']'] by decide]
  rfl

/-- A list is printed as the list of what its elements stand for. -/
theorem formatRange_map {β γ : Type*} (item : γ → Bytes) (f : β → γ) (xs : List β) :
    formatRange (item ∘ f) xs = formatRange item (xs.map f) := by
  rw [formatRange, formatRange, List.map_map]

/-- A byte that stands neither in the brackets nor in an item does not stand in the range. -/
theorem notMem_formatRange {β : Type*} {b : Byte} (hb : b ∉ rangeBytes) {item : β → Bytes}
    (hitem : ∀ x, b ∉ item x) (xs : List β) : b ∉ formatRange item xs := by
  simp only [rangeBytes, List.mem_cons, List.not_mem_nil, or_false, not_or] at hb
  obtain ⟨hopening, hclosing, hcomma, hblank⟩ := hb
  intro hmem
  rw [formatRange_eq] at hmem
  exact Bracketed.forall_mem_print (P := (b ≠ ·)) ⟨hopening, hclosing, hcomma, hblank⟩
    (fun x _ c hc hbc => hitem x (hbc ▸ hc)) _ hmem rfl

def readLatencies : Bytes → Option (List Bytes) :=
  Bracketed.whole (Bracketed.list brackets (Bracketed.token brackets))

def readTraceLatencies : Bytes → Option (List (List Bytes)) :=
  Bracketed.whole (Bracketed.list brackets (Bracketed.list brackets (Bracketed.token brackets)))

section Lists

variable {fmt : DoubleFormat δ} (hfmt : fmt.Plain)
include hfmt

theorem readsBack_latencies (latencies : List δ) : ∀ s ∈ latencies.map fmt.shortest,
    Bracketed.ReadsBack brackets (Bracketed.token brackets) id s := by
  intro s hs
  obtain ⟨x, -, rfl⟩ := List.mem_map.mp hs
  obtain ⟨hne, hplain⟩ := (hfmt x).1
  refine Bracketed.token_readsBack hne fun b hb => ?_
  have hb := hplain b hb
  simp only [specialBytes, List.mem_cons, List.not_mem_nil, or_false, not_or] at hb
  obtain ⟨hcomma, -, hopening, hclosing, hblank, -⟩ := hb
  simp [Bracketed.Brackets.special, brackets, hcomma, hopening, hclosing, hblank]

/-- The text of a latency list reads back. -/
theorem readLatencies_formatRange (latencies : List δ) :
    readLatencies (formatRange fmt.shortest latencies) = some (latencies.map fmt.shortest) := by
  rw [show fmt.shortest = id ∘ fmt.shortest from rfl, formatRange_map, formatRange_eq]
  exact Bracketed.whole_list (readsBack_latencies hfmt latencies)

/-- The text of the threads' latency lists reads back. -/
theorem readTraceLatencies_formatRange (traceLatencies : List (List δ)) :
    readTraceLatencies (formatRange (formatRange fmt.shortest) traceLatencies) =
      some (traceLatencies.map (·.map fmt.shortest)) := by
  have hitem : formatRange fmt.shortest =
      Bracketed.print brackets id ∘ fun latencies : List δ => latencies.map fmt.shortest := by
    funext latencies
    rw [show fmt.shortest = id ∘ fmt.shortest from rfl, formatRange_map, formatRange_eq]
    rfl
  rw [hitem, formatRange_map, formatRange_eq]
  refine Bracketed.whole_list fun s hs => Bracketed.list_readsBack ?_
  obtain ⟨latencies, -, rfl⟩ := List.mem_map.mp hs
  exact readsBack_latencies hfmt latencies

/-- A special byte that ranges do not use, such as a quote or a line end, is in neither of the two
list columns. -/
theorem notMem_listColumns {b : Byte} (hspecial : b ∈ specialBytes) (hrange : b ∉ rangeBytes)
    (row : DataFrameRow δ) :
    b ∉ formatRange fmt.shortest row.latencies ∧
      b ∉ formatRange (formatRange fmt.shortest) row.traceLatencies := by
  have hlatencies : ∀ latencies, b ∉ formatRange fmt.shortest latencies := fun _ =>
    notMem_formatRange hrange (fun x hx => (hfmt x).1.2 b hx hspecial) _
  exact ⟨hlatencies _, notMem_formatRange hrange hlatencies _⟩

end Lists

/-! ## The records -/

def csvColumns : List Bytes :=
  [text "type", text "threads", text "object_size", text "total_ops", text "loop_count",
    text "seconds", text "ops_per_s", text "mb_per_s", text "lat_p50", text "lat_p90",
    text "lat_p99", text "latencies", text "trace_latencies"]

/-- The thirteen fields of a row. -/
def recordFields (fmt : DoubleFormat δ) (row : DataFrameRow δ) : List (Csv.Field Byte) :=
  [.text row.type, .text (decimal row.threads).bytes, .text (decimal row.objectSize).bytes,
    .text (decimal row.totalOps).bytes, .text (decimal row.loopCount).bytes,
    .text (fmt.fixed 6 row.seconds), .text (fmt.fixed 2 row.opsPerS),
    .text (fmt.fixed 2 row.mbPerS), .text (fmt.fixed 2 row.latP50),
    .text (fmt.fixed 2 row.latP90), .text (fmt.fixed 2 row.latP99),
    .quoted (formatRange fmt.shortest row.latencies),
    .quoted (formatRange (formatRange fmt.shortest) row.traceLatencies)]

theorem csvColumns_ok : ∀ f ∈ csvColumns.map Csv.Field.text, f.Ok rfc4180 := by
  -- filtering evaluates a name once, a bounded quantifier once for each byte
  have hspecial : ∀ name ∈ csvColumns,
      name.filter (· ∈ [rfc4180.comma, rfc4180.quote, rfc4180.cr, rfc4180.lf]) = [] := by
    decide +kernel
  intro f hf
  obtain ⟨name, hname, rfl⟩ := List.mem_map.mp hf
  simpa only [Csv.Field.Ok, List.filter_eq_nil_iff, decide_eq_true_iff] using hspecial name hname

theorem csvHeader_eq : csvHeader = Csv.printRecord rfc4180 (csvColumns.map .text) := by
  decide +kernel

theorem csvRecord_eq {fmt : DoubleFormat δ} (hfmt : fmt.Plain) (row : DataFrameRow δ) :
    csvRecord fmt row = Csv.printRecord rfc4180 (recordFields fmt row) := by
  -- the two lists need no doubling of quotes
  obtain ⟨hquote, hquote'⟩ := notMem_listColumns hfmt (b := byte '"') (by decide) (by decide) row
  have hlatencies := Csv.escape_of_notMem (d := rfc4180) hquote
  have htrace := Csv.escape_of_notMem (d := rfc4180) hquote'
  unfold csvRecord
  rw [show text "," = [byte ','] by decide, show text ",\"" = [byte ',', byte '"'] by decide,
    show text "\",\"" = [byte '"', byte ',', byte '"'] by decide,
    show text "\"\n" = [byte '"', byte '\n'] by decide]
  simp only [Csv.printRecord, recordFields, Csv.printFields, Csv.Field.print, hlatencies, htrace]
  simp [rfc4180]

/-- No character of the type has a meaning in the format. -/
def PlainType (type : Bytes) : Prop :=
  ∀ b ∈ type, b ∉ [rfc4180.comma, rfc4180.quote, rfc4180.cr, rfc4180.lf]

/-- Every field of a row is printed so that it can be told apart. -/
theorem recordFields_ok {fmt : DoubleFormat δ} (hfmt : fmt.Plain) {row : DataFrameRow δ}
    (hrow : PlainType row.type) : ∀ f ∈ recordFields fmt row, f.Ok rfc4180 := by
  have hdecimal : ∀ n, (Csv.Field.text (decimal n).bytes).Ok rfc4180 := by
    intro n b hb hspecial
    obtain ⟨hlow, hhigh⟩ := digit_of_mem_bytes_decimal hb
    simp only [rfc4180, List.mem_cons, List.not_mem_nil, or_false] at hspecial
    rcases hspecial with rfl | rfl | rfl | rfl <;> exact absurd hlow (by decide)
  have hfixed : ∀ n x, (Csv.Field.text (fmt.fixed n x)).Ok rfc4180 := by
    intro n x b hb hspecial
    refine ((hfmt x).2 n).2 b hb ?_
    simp only [rfc4180, specialBytes, List.mem_cons, List.not_mem_nil, or_false] at hspecial ⊢
    tauto
  unfold recordFields
  simp only [List.forall_mem_cons]
  exact ⟨hrow, hdecimal _, hdecimal _, hdecimal _, hdecimal _, hfixed _ _, hfixed _ _, hfixed _ _,
    hfixed _ _, hfixed _ _, hfixed _ _, trivial, trivial, by simp⟩

/-- What a reader of the file makes of a record: the type, the integers, the six numbers as they
are written, and the two lists of numbers as they are written. -/
structure DecodedRow where
  type : Bytes
  threads : ℕ
  objectSize : ℕ
  totalOps : ℕ
  loopCount : ℕ
  numbers : List Bytes
  latencies : List Bytes
  traceLatencies : List (List Bytes)
deriving DecidableEq

def decodeRecord : List Bytes → Option DecodedRow
  | [type, threads, objectSize, totalOps, loopCount, seconds, opsPerS, mbPerS, latP50, latP90,
      latP99, latencies, traceLatencies] => do
    return {
      type
      threads := ← readDecimal (upToNul threads)
      objectSize := ← readDecimal (upToNul objectSize)
      totalOps := ← readDecimal (upToNul totalOps)
      loopCount := ← readDecimal (upToNul loopCount)
      numbers := [seconds, opsPerS, mbPerS, latP50, latP90, latP99]
      latencies := ← readLatencies latencies
      traceLatencies := ← readTraceLatencies traceLatencies }
  | _ => none

/-- A row with its numbers rendered. -/
def DataFrameRow.rendered (fmt : DoubleFormat δ) (row : DataFrameRow δ) : DecodedRow where
  type := row.type
  threads := row.threads
  objectSize := row.objectSize
  totalOps := row.totalOps
  loopCount := row.loopCount
  numbers := [fmt.fixed 6 row.seconds, fmt.fixed 2 row.opsPerS, fmt.fixed 2 row.mbPerS,
    fmt.fixed 2 row.latP50, fmt.fixed 2 row.latP90, fmt.fixed 2 row.latP99]
  latencies := row.latencies.map fmt.shortest
  traceLatencies := row.traceLatencies.map (·.map fmt.shortest)

/-- The contents of a row's fields decode to the row. -/
theorem decodeRecord_recordFields {fmt : DoubleFormat δ} (hfmt : fmt.Plain) (row : DataFrameRow δ) :
    decodeRecord ((recordFields fmt row).map Csv.Field.content) = some (row.rendered fmt) := by
  simp only [recordFields, List.map_cons, List.map_nil, Csv.Field.content, decodeRecord,
    upToNul_bytes_nil, readDecimal_decimal, readLatencies_formatRange hfmt,
    readTraceLatencies_formatRange hfmt]
  rfl

/-! ## The file -/

section Table

variable {fmt : DoubleFormat δ} (hfmt : fmt.Plain)

/-- The header and the rows as records. -/
def tableRecords (fmt : DoubleFormat δ) (rows : List (DataFrameRow δ)) :
    List (List (Csv.Field Byte)) :=
  csvColumns.map Csv.Field.text :: rows.map (recordFields fmt)

include hfmt

theorem flatMap_csvRecord (rows : List (DataFrameRow δ)) :
    rows.flatMap (csvRecord fmt) =
      (rows.map (recordFields fmt)).flatMap (Csv.printRecord rfc4180) := by
  rw [List.flatMap_map]
  exact List.flatMap_congr fun row _ => csvRecord_eq hfmt row

/-- The file's text is the header record and one record for each row. -/
theorem toCsv_eq (rows : List (DataFrameRow δ)) :
    toCsv fmt rows = (tableRecords fmt rows).flatMap (Csv.printRecord rfc4180) := by
  rw [tableRecords, toCsv, csvHeader_eq, flatMap_csvRecord hfmt, List.flatMap_cons]

/-- A reader undoes the printing of rows. -/
theorem parse_flatMap_csvRecord {rows : List (DataFrameRow δ)}
    (hrows : ∀ row ∈ rows, PlainType row.type) :
    Csv.parse rfc4180 (rows.flatMap (csvRecord fmt)) =
      some (rows.map fun row => (recordFields fmt row).map Csv.Field.content) := by
  rw [flatMap_csvRecord hfmt, Csv.parse_print, List.map_map]
  · rfl
  · exact List.forall_mem_map.mpr fun row _ => by simp [recordFields]
  · exact List.forall_mem_map.mpr fun row hrow => recordFields_ok hfmt (hrows row hrow)

/-- A reader undoes the printing of a table. -/
theorem parse_table {rows : List (DataFrameRow δ)} (hrows : ∀ row ∈ rows, PlainType row.type) :
    Csv.parse rfc4180 ((tableRecords fmt rows).flatMap (Csv.printRecord rfc4180)) =
      some (csvColumns :: rows.map fun row => (recordFields fmt row).map Csv.Field.content) := by
  rw [Csv.parse_print, tableRecords, List.map_cons, Csv.map_content_text, List.map_map]
  · rfl
  · simp only [tableRecords, List.forall_mem_cons, List.forall_mem_map]
    exact ⟨by simp [csvColumns], fun row _ => by simp [recordFields]⟩
  · simp only [tableRecords, List.forall_mem_cons, List.forall_mem_map]
    exact ⟨List.forall_mem_map.mp csvColumns_ok,
      fun row hrow => recordFields_ok hfmt (hrows row hrow)⟩

end Table

/-! ## What was appended -/

section Appended

variable [Double δ] {fmt : DoubleFormat δ}

def RowArguments.row (a : RowArguments δ) : DataFrameRow δ := (a.append []).1

/-- The row of a call depends on its arguments alone, and it goes behind the others. -/
theorem RowArguments.append_eq (rows : List (DataFrameRow δ)) (a : RowArguments δ) :
    a.append rows = (a.row, rows ++ [a.row]) := rfl

theorem tracerRows_append (calls : List (RowArguments δ)) (a : RowArguments δ) :
    tracerRows (calls ++ [a]) = tracerRows calls ++ [a.row] := by
  rw [tracerRows, List.foldl_append]
  exact congrArg Prod.snd (a.append_eq _)

/-- The tracer holds one row for each call, in the calls' order. -/
theorem tracerRows_eq (calls : List (RowArguments δ)) :
    tracerRows calls = calls.map RowArguments.row := by
  induction calls using List.reverseRecOn with
  | nil => rfl
  | append_singleton calls a ih => rw [tracerRows_append, ih, List.map_append, List.map_singleton]

/-- The row that was read is the one that was appended: the type and the integers are those of the
call, the lists are its lists with their numbers rendered, and so are the numbers in between. -/
structure RowArguments.DecodesTo (fmt : DoubleFormat δ) (a : RowArguments δ) (row : DecodedRow) :
    Prop where
  type : row.type = a.type
  threads : row.threads = a.threads
  objectSize : row.objectSize = a.objectSize
  totalOps : row.totalOps = a.latencies.length
  loopCount : row.loopCount = a.loopCount
  seconds : row.numbers[0]? = some (fmt.fixed 6 a.seconds)
  opsPerS : row.numbers[1]? = some (fmt.fixed 2 ((a.latencies.length : δ) / a.seconds))
  mbPerS : row.numbers[2]? = some (fmt.fixed 2
    (((a.latencies.length * a.objectSize % 2 ^ 64 : ℕ) : δ) / ((1024 * 1024 : ℕ) : δ) / a.seconds))
  percentiles : row.numbers.drop 3 = [1 / 2, 9 / 10, 99 / 100].map fun p =>
    fmt.fixed 2 (getPercentile a.latencies p)
  latencies : row.latencies = a.latencies.map fmt.shortest
  traceLatencies : row.traceLatencies = a.traceLatencies.map (·.map fmt.shortest)

/-- The rendered row of a call carries the call's type, numbers and latency lists. -/
theorem RowArguments.decodesTo_rendered (a : RowArguments δ) :
    a.DecodesTo fmt (a.row.rendered fmt) :=
  ⟨rfl, rfl, rfl, rfl, rfl, rfl, rfl, rfl, rfl, rfl, rfl⟩

/-- **The results file is recoverable.** However often `append_row` is called, with types that have
no comma, quote or line break in them, a reader of the text gets the header and one record for each
call, in order, with as many fields as the header, and the record decodes to what the call was
given. One more call extends the text by a line that reads as one such record. -/
theorem toCsv_recoverable (hfmt : fmt.Plain) {calls : List (RowArguments δ)}
    (hcalls : ∀ a ∈ calls, PlainType a.type) :
    (∃ records, Csv.parse rfc4180 (toCsv fmt (tracerRows calls)) = some (csvColumns :: records) ∧
      records.length = calls.length ∧ (∀ record ∈ records, record.length = csvColumns.length) ∧
      List.Forall₂ (fun a record => ∃ row, decodeRecord record = some row ∧ a.DecodesTo fmt row)
        calls records) ∧
    ∀ a : RowArguments δ, PlainType a.type → ∃ line record row,
      toCsv fmt (tracerRows (calls ++ [a])) = toCsv fmt (tracerRows calls) ++ line ∧
      Csv.parse rfc4180 line = some [record] ∧ record.length = csvColumns.length ∧
      decodeRecord record = some row ∧ a.DecodesTo fmt row := by
  constructor
  · have hparse : Csv.parse rfc4180 (toCsv fmt (tracerRows calls)) = some (csvColumns ::
        calls.map fun a => (recordFields fmt a.row).map Csv.Field.content) := by
      rw [toCsv_eq hfmt, tracerRows_eq, parse_table hfmt (List.forall_mem_map.mpr hcalls),
        List.map_map]
      rfl
    refine ⟨_, hparse, List.length_map .., ?_, ?_⟩
    · -- as many fields as the header
      simp [recordFields, csvColumns]
    · rw [List.forall₂_map_right_iff, List.forall₂_same]
      exact fun a _ => ⟨_, decodeRecord_recordFields hfmt a.row, a.decodesTo_rendered⟩
  · intro a ha
    have hrow : ∀ row ∈ [a.row], PlainType row.type := List.forall_mem_singleton.mpr ha
    have hline := parse_flatMap_csvRecord hfmt hrow
    rw [List.flatMap_singleton] at hline
    refine ⟨csvRecord fmt a.row, _, _, ?_, hline, by simp [recordFields, csvColumns],
      decodeRecord_recordFields hfmt a.row, a.decodesTo_rendered⟩
    rw [tracerRows_append, toCsv, toCsv, List.flatMap_append, List.flatMap_singleton,
      List.append_assoc]

end Appended

/-- The format of `fmt` on whole numbers. -/
def DoubleFormat.whole : DoubleFormat ℚ where
  fixed n x := (decimal x.floor.toNat).bytes ++ text "." ++ List.replicate n (byte '0')
  shortest x := (decimal x.floor.toNat).bytes

theorem DoubleFormat.whole_plain : DoubleFormat.whole.Plain := by
  have hdecimal : ∀ m, ∀ b ∈ (decimal m).bytes, b ∉ specialBytes := by
    intro m b hb hspecial
    obtain ⟨hlow, hhigh⟩ := digit_of_mem_bytes_decimal hb
    simp only [specialBytes, List.mem_cons, List.not_mem_nil, or_false] at hspecial
    rcases hspecial with rfl | rfl | rfl | rfl | rfl | rfl | rfl <;> revert hlow hhigh <;> decide
  have hne : ∀ m, (decimal m).bytes ≠ [] := fun m h =>
    decimal_ne_nil m (List.map_eq_nil_iff.mp h)
  refine fun x => ⟨⟨hne _, hdecimal _⟩, fun n => ⟨by simp [whole, hne], ?_⟩⟩
  show ∀ b ∈ (decimal x.floor.toNat).bytes ++ text "." ++ List.replicate n (byte '0'), _
  rw [show text "." = [byte '.'] by decide]
  simp only [List.forall_mem_append, List.forall_mem_singleton]
  refine ⟨⟨hdecimal _, by decide⟩, fun b hb => ?_⟩
  rw [List.eq_of_mem_replicate hb]
  decide

/-- A tracer with two rows, one of them of an iteration without samples. -/
def twoCalls : List (RowArguments ℚ) :=
  [⟨text "put_object", 2, 4, 1, 1, [5, 7], [[5], [7]]⟩,
    ⟨text "append_object", 1, 4, 0, 1, [], [[]]⟩]

theorem toCsv_recoverable_two :
    ∃ record record' row, Csv.parse rfc4180 (toCsv .whole (tracerRows twoCalls)) =
        some [csvColumns, record, record'] ∧
      decodeRecord record = some row ∧ row.type = text "put_object" ∧ row.totalOps = 2 ∧
      row.traceLatencies = [[text "5"], [text "7"]] := by
  have htypes : ∀ a ∈ twoCalls, PlainType a.type := by
    have hfilter : ∀ a ∈ twoCalls,
        a.type.filter (· ∈ [rfc4180.comma, rfc4180.quote, rfc4180.cr, rfc4180.lf]) = [] := by
      decide +kernel
    simp only [List.filter_eq_nil_iff, decide_eq_true_iff] at hfilter
    exact hfilter
  obtain ⟨⟨records, hparse, -, -, hdecode⟩, -⟩ := toCsv_recoverable DoubleFormat.whole_plain htypes
  obtain ⟨record, rest, ⟨row, hrow, hrows⟩, hrest, rfl⟩ := List.forall₂_cons_left_iff.mp hdecode
  obtain ⟨record', rest', -, hnil, rfl⟩ := List.forall₂_cons_left_iff.mp hrest
  obtain rfl := List.forall₂_nil_left_iff.mp hnil
  exact ⟨record, record', row, hparse, hrow, hrows.type, hrows.totalOps,
    hrows.traceLatencies.trans (by decide +kernel)⟩

end ObsBench
