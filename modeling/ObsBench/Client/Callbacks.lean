import ObsBench.Client.ProgressBar

/-!
# Callback data and callbacks

The SDK calls back into the client with an untyped pointer to the data of the running
operation. Two structs travel that way, one for single-object operations and one for
listings; both start with the common part the completion callback writes.
-/

namespace ObsBench

/-- `common_callback_data`. -/
structure CommonCallbackData where
  retStatus : ObsStatus := .BUTT
  errorDetails : ObsErrorDetails := {}

/-- `object_callback_data`. An upload sets `buffer` to the pointer of its object, and the view is
carried along; where an operation declares the struct and sets nothing, the pointer is
indeterminate, which is `none`. -/
structure ObjectCallbackData where
  common : CommonCallbackData := {}
  buffer : Option StringView := none
  bufferSize : UInt64 := 0
  curOffset : UInt64 := 0
  obsNextAppendPosition : UInt64 := 0

/-- `list_object_callback_data`. -/
structure ListObjectCallbackData where
  common : CommonCallbackData := {}
  keys : List CString := []
  batchKeys : List CString := []
  approximateKeyCount : Option UInt64 := none

inductive CallbackData where
  | object (data : ObjectCallbackData)
  | listObject (data : ListObjectCallbackData)

/-- `response_properties_callback`. It takes the data for an `object_callback_data` whenever
it touches it, so on a listing both branches that do are accesses at the wrong type. -/
def responsePropertiesCallback (properties : Option ObsResponseProperties) :
    CallbackData → Except Failure CallbackData
  | .object data =>
    match properties with
    | none =>
      -- `printf` reads `buffer` as a C string
      match data.buffer.bind (·.cString) with
      | some _ => .ok (.object data)
      | none => .error .undefinedBehaviour
    | some p =>
      match p.obsNextAppendPosition with
      | some position =>
        .ok (.object { data with obsNextAppendPosition := (atoll position).toUInt64 })
      | none => .ok (.object data)
  | .listObject data =>
    match properties with
    | none => .error .undefinedBehaviour
    | some p =>
      match p.obsNextAppendPosition with
      | some _ => .error .undefinedBehaviour
      | none => .ok (.listObject data)

/-- `response_complete_callback`; the data is never NULL here. -/
def responseCompleteCallback (status : ObsStatus) (error : Option ObsErrorDetails)
    (data : CommonCallbackData) : CommonCallbackData :=
  { data with retStatus := status, errorDetails := error.getD {} }

/-- The two callbacks that end a request on a single object. -/
def ObjectCallbackData.finish (reply : Reply) (data : ObjectCallbackData) :
    Except Failure ObjectCallbackData := do
  match ← responsePropertiesCallback reply.properties (.object data) with
  | .object data =>
    return { data with
      common := responseCompleteCallback reply.status reply.errorDetails data.common }
  | .listObject _ => .error .undefinedBehaviour

/-- `memcpy` of `n` bytes from `src + offset` into a buffer of `capacity` bytes. -/
def memcpy (capacity : ℕ) (src : Option Bytes) (offset n : ℕ) : Except Failure Bytes :=
  match src with
  | some bytes =>
    if offset + n ≤ bytes.length ∧ n ≤ capacity then .ok ((bytes.drop offset).take n)
    else .error .undefinedBehaviour
  | none => .error .undefinedBehaviour

/-- An `int` where a `size_t` or `uint64_t` is expected: sign extension. -/
def sizeOfInt (n : Int32) : UInt64 := n.toInt64.toUInt64

/-- A `uint64_t` where an `int` is expected: its low 32 bits. -/
def intOfUInt64 (n : UInt64) : Int32 := n.toUInt32.toInt32

/-- `put_buffer_data_callback`: the returned count, the bytes copied out, the data left. -/
def putBufferDataCallback (bufferSize : Int32) (data : ObjectCallbackData) :
    Except Failure (Int32 × Bytes × ObjectCallbackData) := do
  if data.bufferSize ≠ 0 then
    let offered : UInt64 := bufferSize.toUInt32.toUInt64  -- `(unsigned)buffer_size`, widened
    let toRead := intOfUInt64 (if data.bufferSize > offered then offered else data.bufferSize)
    let chunk ← memcpy bufferSize.toNatClampNeg (data.buffer.map (·.chars)) data.curOffset.toNat
      (sizeOfInt toRead).toNat
    return (toRead, chunk,
      { data with
        bufferSize := data.bufferSize - sizeOfInt toRead
        curOffset := data.curOffset + sizeOfInt toRead })
  else
    return (0, [], data)

/-- `push_back` of the keys of an invocation on both collections. -/
def ListObjectCallbackData.collect (inv : ListObjectsInvocation) (data : ListObjectCallbackData) :
    ListObjectCallbackData :=
  { data with
    keys := data.keys ++ inv.contents
    batchKeys := data.batchKeys ++ inv.contents }

/-- The call of `print_progress` for the keys collected so far, in a listing that has a count. -/
def ListObjectCallbackData.progressCall (data : ListObjectCallbackData) : Option ProgressCall :=
  data.approximateKeyCount.map fun count => ⟨data.keys.length, count.toNat⟩

/-- `list_objects_callback`. -/
def listObjectsCallback (inv : ListObjectsInvocation) (data : ListObjectCallbackData) :
    Except Failure ListObjectCallbackData :=
  match (data.collect inv).progressCall with
  | none => .ok (data.collect inv)
  | some call => do
    let _ ← printProgress call.iter call.maxIter false
    return data.collect inv

/-- The invocations of `list_objects_callback` for one page, up to one that does not return, and
the data behind them. -/
def deliverInvocations : List ListObjectsInvocation → ListObjectCallbackData →
    List ListObjectsInvocation × Except Failure ListObjectCallbackData
  | [], data => ([], .ok data)
  | inv :: rest, data =>
    match listObjectsCallback inv data with
    | .error e => ([inv], .error e)
    | .ok data =>
      let (made, result) := deliverInvocations rest data
      (inv :: made, result)

/-- `delete_objects_data_callback`: it looks at every result and keeps none. -/
def deleteObjectsDataCallback (_delobjs : List ObsDeleteObjects) (data : ObjectCallbackData) :
    ObjectCallbackData := data

/-! ## What the callbacks leave behind -/

/-- The end of a request whose callback data was left uninitialised. -/
theorem finish_uninitialised {reply : Reply} (h : ∃ p, reply.properties = some p) :
    ∃ done, ObjectCallbackData.finish reply {} = .ok done ∧
      done.common.retStatus = reply.status ∧
      done.common.errorDetails = reply.errorDetails.getD {} := by
  obtain ⟨p, hp⟩ := h
  cases hnext : p.obsNextAppendPosition with
  | none =>
    refine ⟨{ common := ⟨reply.status, reply.errorDetails.getD {}⟩ }, ?_, rfl, rfl⟩
    simp only [ObjectCallbackData.finish, responsePropertiesCallback, hp, hnext]
    rfl
  | some position =>
    refine ⟨{ common := ⟨reply.status, reply.errorDetails.getD {}⟩,
              obsNextAppendPosition := (atoll position).toUInt64 }, ?_, rfl, rfl⟩
    simp only [ObjectCallbackData.finish, responsePropertiesCallback, hp, hnext]
    rfl

/-- Without headers the callback prints the buffer nobody set. -/
theorem finish_uninitialised_null {reply : Reply} (h : reply.properties = none) :
    ObjectCallbackData.finish reply {} = .error .undefinedBehaviour := by
  rw [ObjectCallbackData.finish, h]
  rfl

/-! ## The invocations of a page -/

/-- With `n` keys collected `print_progress` is defined, or not called at all. -/
def ListObjectCallbackData.Shows (data : ListObjectCallbackData) (n : ℕ) : Prop :=
  ∀ count ∈ data.approximateKeyCount, 100 * n < 2 ^ 31 * count.toNat

/-- Fewer keys are shown where more are. -/
theorem ListObjectCallbackData.Shows.mono {data : ListObjectCallbackData} {m n : ℕ}
    (h : data.Shows n) (hle : m ≤ n) : data.Shows m := by
  intro count hcount
  have := h count hcount
  omega

/-- An invocation returns if the keys behind it can be shown. -/
theorem listObjectsCallback_ok {inv : ListObjectsInvocation} {data : ListObjectCallbackData}
    (h : data.Shows (data.keys.length + inv.contents.length)) :
    listObjectsCallback inv data = .ok (data.collect inv) := by
  unfold listObjectsCallback
  cases hcall : (data.collect inv).progressCall with
  | none => rfl
  | some call =>
    obtain ⟨count, hcount, rfl⟩ := Option.map_eq_some_iff.mp hcall
    have hdefined : ProgressCall.Defined ⟨(data.collect inv).keys.length, count.toNat⟩ := by
      show 100 * (data.keys ++ inv.contents).length < 2 ^ 31 * count.toNat
      rw [List.length_append]
      exact h count hcount
    obtain ⟨b, hb⟩ := hdefined.exists_bar
    dsimp only
    rw [hb]
    rfl

/-- Otherwise its behaviour is undefined. -/
theorem listObjectsCallback_error {inv : ListObjectsInvocation} {data : ListObjectCallbackData}
    (h : ¬ data.Shows (data.keys.length + inv.contents.length)) :
    listObjectsCallback inv data = .error .undefinedBehaviour := by
  obtain ⟨count, h⟩ := not_forall.mp h
  obtain ⟨hcount, hlarge⟩ := Classical.not_imp.mp h
  rw [← List.length_append] at hlarge
  set call : ProgressCall := ⟨(data.keys ++ inv.contents).length, count.toNat⟩
  have hcall : (data.collect inv).progressCall = some call :=
    Option.map_eq_some_iff.mpr ⟨count, hcount, rfl⟩
  have hundefined : ¬ call.Defined := hlarge
  have hprint := printProgress_of_not_defined hundefined
  unfold listObjectsCallback
  rw [hcall]
  dsimp only at hprint ⊢
  rw [hprint]
  rfl

/-- What a page's invocations collect, however they split it. -/
def ListObjectCallbackData.collectAll (invs : List ListObjectsInvocation)
    (data : ListObjectCallbackData) : ListObjectCallbackData :=
  { data with
    keys := data.keys ++ invs.flatMap (·.contents)
    batchKeys := data.batchKeys ++ invs.flatMap (·.contents) }

theorem collectAll_cons (inv : ListObjectsInvocation) (rest : List ListObjectsInvocation)
    (data : ListObjectCallbackData) :
    data.collectAll (inv :: rest) = (data.collect inv).collectAll rest := by
  simp [ListObjectCallbackData.collectAll, ListObjectCallbackData.collect]

/-- The keys of all of a page can be shown, or the page is not handed over at all. -/
def ListObjectCallbackData.ShowsPage (data : ListObjectCallbackData)
    (invs : List ListObjectsInvocation) : Prop :=
  invs = [] ∨ data.Shows (data.keys.length + (invs.flatMap (·.contents)).length)

/-- The page of an invocation and more is shown when both are. -/
theorem showsPage_cons {data : ListObjectCallbackData} {inv : ListObjectsInvocation}
    {rest : List ListObjectsInvocation} :
    data.ShowsPage (inv :: rest) ↔
      data.Shows (data.keys.length + inv.contents.length) ∧
        (data.collect inv).ShowsPage rest := by
  have htotal : data.keys.length + ((inv :: rest).flatMap (·.contents)).length =
      (data.collect inv).keys.length + (rest.flatMap (·.contents)).length := by
    simp only [ListObjectCallbackData.collect, List.flatMap_cons, List.length_append]
    omega
  have hkeys : (data.collect inv).keys.length = data.keys.length + inv.contents.length :=
    List.length_append
  unfold ListObjectCallbackData.ShowsPage
  rw [htotal]
  constructor
  · intro h
    have hall := h.resolve_left (List.cons_ne_nil inv rest)
    exact ⟨hall.mono (by omega), .inr hall⟩
  · intro h
    rcases h.2 with rfl | hrest
    · right
      rw [hkeys]
      exact h.1
    · exact .inr hrest

/-- **A page that can be shown is collected.** Induction on the invocations. -/
theorem deliverInvocations_ok {invs : List ListObjectsInvocation} {data : ListObjectCallbackData}
    (h : data.ShowsPage invs) :
    deliverInvocations invs data = (invs, .ok (data.collectAll invs)) := by
  induction invs generalizing data with
  | nil => simp [deliverInvocations, ListObjectCallbackData.collectAll]
  | cons inv rest ih =>
    obtain ⟨hfirst, hrest⟩ := showsPage_cons.mp h
    rw [deliverInvocations, listObjectsCallback_ok hfirst, collectAll_cons]
    dsimp only
    rw [ih hrest]

/-- A page that cannot be shown meets an invocation whose behaviour is undefined. -/
theorem deliverInvocations_error {invs : List ListObjectsInvocation}
    {data : ListObjectCallbackData} (h : ¬ data.ShowsPage invs) :
    (deliverInvocations invs data).2 = .error .undefinedBehaviour := by
  induction invs generalizing data with
  | nil => exact absurd (.inl rfl) h
  | cons inv rest ih =>
    rw [deliverInvocations]
    by_cases hfirst : data.Shows (data.keys.length + inv.contents.length)
    · rw [listObjectsCallback_ok hfirst]
      exact ih fun hrest => h (showsPage_cons.mpr ⟨hfirst, hrest⟩)
    · rw [listObjectsCallback_error hfirst]

end ObsBench
