import Mathlib.Data.List.Sort
import Mathlib.Data.Rat.Floor
import ObsBench.Text

/-!
# The tracer

One row for each benchmark iteration. The row is computed from the merged latencies alone, and a
`size_t` product wraps around. What a `double` is, how it is divided and how `fmt` renders it are
left open.
-/

namespace ObsBench

/-- What the benchmarks need of a `double`. It converts from integers and divides, where a quotient
may be an infinity or a NaN. Its order is the one that sorts latencies, none of which is a NaN. -/
class Double (δ : Type) extends LinearOrder δ, Zero δ, NatCast δ, Div δ

instance : Double ℚ where

variable {δ : Type}

/-- `Tracer::DataFrameRow`. -/
structure DataFrameRow (δ : Type) where
  type : Bytes
  threads : ℕ
  objectSize : ℕ
  totalOps : ℕ
  loopCount : ℕ
  seconds : δ
  opsPerS : δ
  mbPerS : δ
  latP50 : δ
  latP90 : δ
  latP99 : δ
  latencies : List δ
  traceLatencies : List (List δ)

/-- The index `get_percentile` reads in the sorted latencies. -/
def percentileIndex (size : ℕ) (p : ℚ) : ℕ :=
  let idx := (size * p).floor.toNat
  if idx ≥ size then size - 1 else idx

/-- `Tracer::get_percentile`, which only compares latencies. -/
def getPercentile {α : Type*} [LinearOrder α] [Zero α] (latencies : List α) (p : ℚ) : α :=
  if latencies.isEmpty then 0
  else (latencies.insertionSort (· ≤ ·)).getD (percentileIndex latencies.length p) 0

/-- `Tracer::append_row`: the row, and the rows of the tracer after it. -/
def appendRow [Double δ] (rows : List (DataFrameRow δ)) (type : Bytes)
    (threads objectSize loopCount : ℕ) (seconds : δ) (latencies : List δ)
    (traceLatencies : List (List δ)) : DataFrameRow δ × List (DataFrameRow δ) :=
  let totalOps := latencies.length
  let row : DataFrameRow δ :=
    { type, threads, objectSize, totalOps, loopCount, seconds
      opsPerS := (totalOps : δ) / seconds
      mbPerS := ((totalOps * objectSize % 2 ^ 64 : ℕ) : δ) / ((1024 * 1024 : ℕ) : δ) / seconds
      latP50 := getPercentile latencies (1 / 2)
      latP90 := getPercentile latencies (9 / 10)
      latP99 := getPercentile latencies (99 / 100)
      latencies, traceLatencies }
  (row, rows ++ [row])

/-- The arguments of one `append_row`. -/
structure RowArguments (δ : Type) where
  type : Bytes
  threads : ℕ
  objectSize : ℕ
  loopCount : ℕ
  seconds : δ
  latencies : List δ
  traceLatencies : List (List δ)

def RowArguments.append [Double δ] (rows : List (DataFrameRow δ)) (a : RowArguments δ) :
    DataFrameRow δ × List (DataFrameRow δ) :=
  appendRow rows a.type a.threads a.objectSize a.loopCount a.seconds a.latencies a.traceLatencies

/-- The rows of a new tracer behind these calls of `append_row`. -/
def tracerRows [Double δ] (calls : List (RowArguments δ)) : List (DataFrameRow δ) :=
  calls.foldl (fun rows a => (a.append rows).2) []

/-! ## The CSV text -/

/-- What `fmt` makes of a `double`: `{:.nf}` with `n` digits, and `{}`. -/
structure DoubleFormat (δ : Type) where
  fixed : ℕ → δ → Bytes
  shortest : δ → Bytes

/-- `fmt`'s `{}` for a range. -/
def formatRange {β : Type*} (item : β → Bytes) (xs : List β) : Bytes :=
  text "[" ++ (text ", ").intercalate (xs.map item) ++ text "]"

def csvHeader : Bytes :=
  text "type,threads,object_size,total_ops,loop_count,seconds,ops_per_s,mb_per_s," ++
    text "lat_p50,lat_p90,lat_p99,latencies,trace_latencies\n"

/-- The line `to_csv` formats for a row. -/
def csvRecord (fmt : DoubleFormat δ) (row : DataFrameRow δ) : Bytes :=
  row.type ++ text "," ++ (decimal row.threads).bytes ++ text "," ++
    (decimal row.objectSize).bytes ++ text "," ++ (decimal row.totalOps).bytes ++ text "," ++
    (decimal row.loopCount).bytes ++ text "," ++ fmt.fixed 6 row.seconds ++ text "," ++
    fmt.fixed 2 row.opsPerS ++ text "," ++ fmt.fixed 2 row.mbPerS ++ text "," ++
    fmt.fixed 2 row.latP50 ++ text "," ++ fmt.fixed 2 row.latP90 ++ text "," ++
    fmt.fixed 2 row.latP99 ++ text ",\"" ++ formatRange fmt.shortest row.latencies ++
    text "\",\"" ++ formatRange (formatRange fmt.shortest) row.traceLatencies ++ text "\"\n"

/-- `Tracer::to_csv`. -/
def toCsv (fmt : DoubleFormat δ) (rows : List (DataFrameRow δ)) : Bytes :=
  csvHeader ++ rows.flatMap (csvRecord fmt)

end ObsBench
