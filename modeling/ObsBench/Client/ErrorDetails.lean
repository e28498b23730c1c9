import ObsBench.Client.Deletion
import ObsBench.Client.UploadStream

/-!
# What an error tells

A failed request ends in `throw Error(msg, status, details)`, and the constructor prints the
details first. Every pointer in them may be NULL. The printer looks before it prints a field or a
header, but not before it prints the name and the value of an extra detail.

* **`formatErrorDetails_described`**: a printed text has one entry for each item, in order.
* **`named_of_formatErrorDetails`**: what is printed at all has names and values.
* **`errorNeverLost_iff`**: the details with which no operation loses its error.
-/

namespace ObsBench

/-! ## The text and its entries -/

/-- `t` shows the strings one behind the other; a NULL pointer has nothing to show. -/
def ShowsInOrder : List (Option CString) → Bytes → Prop
  | [], _ => True
  | s :: rest, t =>
    ∃ front back, t = front ++ s.elim [] CString.bytes ++ back ∧ ShowsInOrder rest back

/-- Something an error has to tell about: its heading and its strings. -/
structure DetailItem where
  heading : Bytes
  strings : List (Option CString)

/-- An entry opens with the heading and shows the strings behind it. -/
def DetailItem.Entry (item : DetailItem) (entry : Bytes) : Prop :=
  ∃ rest, entry = item.heading ++ rest ∧ ShowsInOrder item.strings rest

/-- The text is made of one entry for each item, in order. -/
def Described (items : List DetailItem) (t : Bytes) : Prop :=
  ∃ entries : List Bytes, t = entries.flatten ∧ List.Forall₂ DetailItem.Entry items entries

/-- A field is told about when it is not NULL. -/
def fieldItem (heading : String) : Option CString → List DetailItem
  | none => []
  | some s => [⟨text heading, [some s]⟩]

def extraDetailItem : ObsNameValue × ℕ → DetailItem
  | (d, i) => ⟨text "Error Extra Detail(" ++ (decimal i).bytes ++ text ")", [d.name, d.value]⟩

def errorHeaderItem : Option CString × ℕ → DetailItem
  | (header, i) => ⟨text "Error Headers(" ++ (decimal i).bytes ++ text ")", [header]⟩

/-- All there is to tell about some error details. -/
def ObsErrorDetails.items (error : ObsErrorDetails) : List DetailItem :=
  fieldItem "Error Message" error.message ++ fieldItem "Error Resource" error.resource ++
    fieldItem "Error further_details" error.furtherDetails ++
    error.extraDetails.zipIdx.map extraDetailItem ++ error.errorHeaders.zipIdx.map errorHeaderItem

theorem described_nil : Described [] [] := ⟨[], rfl, .nil⟩

/-- One item more in front of the described ones. -/
theorem Described.cons {item : DetailItem} {items : List DetailItem} {entry t : Bytes}
    (hentry : item.Entry entry) (h : Described items t) :
    Described (item :: items) (entry ++ t) := by
  obtain ⟨entries, ht, hall⟩ := h
  refine ⟨entry :: entries, ?_, .cons hentry hall⟩
  rw [ht, List.flatten_cons]

theorem described_singleton {item : DetailItem} {entry : Bytes} (hentry : item.Entry entry) :
    Described [item] entry :=
  ⟨[entry], (List.flatten_singleton ..).symm, .cons hentry .nil⟩

/-- Texts describe their items one behind the other. -/
theorem Described.append {items items' : List DetailItem} {t t' : Bytes} (h : Described items t)
    (h' : Described items' t') : Described (items ++ items') (t ++ t') := by
  obtain ⟨entries, ht, hall⟩ := h
  obtain ⟨entries', ht', hall'⟩ := h'
  refine ⟨entries ++ entries', ?_, List.rel_append hall hall'⟩
  rw [ht, ht', List.flatten_append]

/-! ## What the printer makes of each part -/

/-- A field that is printed behind its heading. -/
theorem described_field (heading separator : String) (field : Option CString) :
    Described (fieldItem heading field)
      (match field with
        | some s => text heading ++ text separator ++ s.bytes ++ text "\n"
        | none => []) := by
  cases field with
  | none => exact described_nil
  | some s =>
    refine described_singleton ⟨text separator ++ s.bytes ++ text "\n", ?_, ?_⟩
    · simp only [List.append_assoc]
    · exact ⟨text separator, text "\n", rfl, trivial⟩

/-- A header is printed, or `NULL Header` in its place. -/
theorem formatErrorHeaders_described (headers : List (Option CString)) (i : ℕ) :
    Described ((headers.zipIdx i).map errorHeaderItem) (formatErrorHeaders i headers) := by
  induction headers generalizing i with
  | nil => exact described_nil
  | cons header rest ih =>
    -- the heading ends within a literal of the source
    have hclose : text "):\n    " = text ")" ++ text ":\n    " := by decide +kernel
    unfold formatErrorHeaders
    rw [List.zipIdx_cons, List.map_cons, hclose]
    refine (ih (i + 1)).cons ?_
    cases header with
    | none =>
      refine ⟨text ":\n    " ++ text "NULL Header" ++ text "\n", ?_, ?_⟩
      · simp only [errorHeaderItem, List.append_assoc]
      · exact ⟨[], text ":\n    " ++ text "NULL Header" ++ text "\n", rfl, trivial⟩
    | some s =>
      refine ⟨text ":\n    " ++ s.bytes ++ text "\n", ?_, ?_⟩
      · simp only [errorHeaderItem, List.append_assoc]
      · exact ⟨text ":\n    ", text "\n", rfl, trivial⟩

/-- An extra detail whose name and value are there. -/
def ObsNameValue.Named (d : ObsNameValue) : Prop := d.name ≠ none ∧ d.value ≠ none

/-- Extra details with names and values are printed. -/
theorem formatExtraDetails_described {details : List ObsNameValue} (h : ∀ d ∈ details, d.Named)
    (i : ℕ) :
    ∃ t, formatExtraDetails i details = .ok t ∧
      Described ((details.zipIdx i).map extraDetailItem) t := by
  induction details generalizing i with
  | nil => exact ⟨[], rfl, described_nil⟩
  | cons d rest ih =>
    obtain ⟨hd, hrest⟩ := List.forall_mem_cons.mp h
    obtain ⟨t, ht, hdescribed⟩ := ih hrest (i + 1)
    obtain ⟨name, hname⟩ := Option.ne_none_iff_exists'.mp hd.1
    obtain ⟨value, hvalue⟩ := Option.ne_none_iff_exists'.mp hd.2
    have hclose : text "):\n   " = text ")" ++ text ":\n   " := by decide +kernel
    have hprint : formatExtraDetails i (d :: rest) =
        .ok (text "Error Extra Detail(" ++ (decimal i).bytes ++ text "):\n   " ++ name.bytes ++
          text ":" ++ value.bytes ++ text "\n" ++ t) := by
      rw [formatExtraDetails, hname, hvalue, ht]
      rfl
    refine ⟨_, hprint, ?_⟩
    rw [List.zipIdx_cons, List.map_cons, hclose]
    refine hdescribed.cons
      ⟨text ":\n   " ++ name.bytes ++ (text ":" ++ value.bytes ++ text "\n"), ?_, ?_⟩
    · simp only [extraDetailItem, List.append_assoc]
    · simp only [extraDetailItem, hname, hvalue]
      exact ⟨text ":\n   ", _, rfl, text ":", text "\n", rfl, trivial⟩

/-- Only a string that is there can be formatted. -/
theorem ne_none_of_formatCString {s : Option CString} {t : Bytes} (h : formatCString s = .ok t) :
    s ≠ none := by
  intro hnone
  rw [hnone] at h
  exact absurd h (by nofun)

/-- **The loop over the extra details does not look before it prints.** What it prints at all has
names and values. -/
theorem named_of_formatExtraDetails {details : List ObsNameValue} {i : ℕ} {t : Bytes}
    (h : formatExtraDetails i details = .ok t) : ∀ d ∈ details, d.Named := by
  induction details generalizing i t with
  | nil => exact List.forall_mem_nil _
  | cons d rest ih =>
    rw [formatExtraDetails] at h
    -- the three places where the loop body can throw
    obtain ⟨name, hname, h⟩ := exists_of_bind_eq_ok h
    obtain ⟨value, hvalue, h⟩ := exists_of_bind_eq_ok h
    obtain ⟨tail, htail, -⟩ := exists_of_bind_eq_ok h
    rw [List.forall_mem_cons]
    exact ⟨⟨ne_none_of_formatCString hname, ne_none_of_formatCString hvalue⟩, ih htail⟩

/-! ## The whole text -/

/-- **What is printed tells everything, in order.** -/
theorem formatErrorDetails_described {error : ObsErrorDetails}
    (h : ∀ d ∈ error.extraDetails, d.Named) :
    ∃ t, formatErrorDetails error = .ok t ∧ Described error.items t := by
  obtain ⟨extra, hextra, hdescribed⟩ := formatExtraDetails_described h 0
  have hmessage : text "Error Message: \n   " = text "Error Message" ++ text ": \n   " := by
    decide +kernel
  have hresource : text "Error Resource: \n  " = text "Error Resource" ++ text ": \n  " := by
    decide +kernel
  have hfurther : text "Error further_details: \n   " =
      text "Error further_details" ++ text ": \n   " := by
    decide +kernel
  unfold formatErrorDetails
  rw [hextra, hmessage, hresource, hfurther]
  exact ⟨_, rfl, ((((described_field _ _ error.message).append
    (described_field _ _ error.resource)).append
    (described_field _ _ error.furtherDetails)).append hdescribed).append
    (formatErrorHeaders_described error.errorHeaders 0)⟩

/-- Details that could be formatted had a name and a value each. -/
theorem named_of_formatErrorDetails {error : ObsErrorDetails} {t : Bytes}
    (h : formatErrorDetails error = .ok t) : ∀ d ∈ error.extraDetails, d.Named := by
  unfold formatErrorDetails at h
  obtain ⟨extra, hextra, -⟩ := exists_of_bind_eq_ok h
  exact named_of_formatExtraDetails hextra

/-! ## What an operation throws -/

/-- The error carries what it was thrown with, and its text tells all of it. -/
structure Error.Carries (e : Error) (msg : Bytes) (status : ObsStatus) (error : ObsErrorDetails) :
    Prop where
  keepsMsg : e.msg = msg
  keepsStatus : e.status = status
  tellsDetails : Described error.items e.detailsText
  tellsMsg : ∀ obsGetStatusName, ∃ a b c, e.what obsGetStatusName =
    a ++ msg ++ b ++ (obsGetStatusName status).bytes ++ c ++ e.detailsText

/-- The operation ends in a `HuaweiCloudObs::Error`. -/
def Raises {α : Type*} (result : Except Failure α) (msg : Bytes) (status : ObsStatus)
    (error : ObsErrorDetails) : Prop :=
  ∃ e : Error, result = .error (.exception (.error e)) ∧ e.Carries msg status error

/-- Whatever is thrown with these details is a `HuaweiCloudObs::Error` that carries its message
and status, and so is what each operation throws whose request fails with them. Operations get as
far as their `throw` if their key can be read, and what they print in place of missing headers. -/
structure ErrorNeverLost (error : ObsErrorDetails) : Prop where
  printed : ∃ t, formatErrorDetails error = .ok t ∧ Described error.items t
  thrown : ∀ msg status, ∃ e, thrownError msg status error = .error e ∧
    e.Carries msg status error
  putObject : ∀ (call : PutCall) (B : Bucket) (key object : StringView) (k : CString),
    key.Reads k →
    let reply := (call.serve B k object.chars).2
    reply.Prints object → reply.status ≠ .OK → reply.errorDetails.getD {} = error →
      Raises (putObject call B key object).2 (putObjectMessage key object) reply.status error
  appendObject : ∀ (call : AppendCall) (B : Bucket) (key object : StringView) (k : CString)
    (startPos : UInt64), key.Reads k →
    let reply := (call.serve B k (decimal startPos.toNat) object.chars).2
    reply.Prints object → reply.status ≠ .OK → reply.errorDetails.getD {} = error →
      Raises (appendObject call B key object startPos).2
        (appendObjectMessage key object startPos reply.nextAppendPosition) reply.status error
  -- a deletion has no buffer it could print
  deleteObject : ∀ (call : DeleteCall) (B : Bucket) (key : StringView) (k : CString),
    key.Reads k →
    let reply := (call.serve B k).2
    reply.properties ≠ none → reply.status ≠ .OK → reply.errorDetails.getD {} = error →
      Raises (deleteObject call B key).2 (text "Error in delete_object, key: " ++ key.chars)
        reply.status error
  batchDeleteObjects : ∀ (call : BatchDeleteCall) (B : Bucket) (keys : List CString),
    0 < keys.length → keys.length ≤ 1000 →
    let reply := (call.serve B keys).2
    reply.properties ≠ none → reply.status ≠ .OK → reply.errorDetails.getD {} = error →
      Raises (batchDeleteObjects call B keys).2 (batchDeleteObjectsMessage keys.length)
        reply.status error

/-- The constructor keeps its arguments and prints the details behind them. -/
theorem thrownError_carries {error : ObsErrorDetails} (h : ∀ d ∈ error.extraDetails, d.Named)
    (msg : Bytes) (status : ObsStatus) :
    ∃ e, thrownError msg status error = .error e ∧ e.Carries msg status error := by
  obtain ⟨t, ht, hdescribed⟩ := formatErrorDetails_described h
  refine ⟨⟨msg, status, error, t⟩, ?_, ⟨rfl, rfl, hdescribed, fun _ => ⟨_, _, _, rfl⟩⟩⟩
  unfold thrownError
  rw [ht]

/-- The test all operations end with. -/
theorem raises_of_status {α : Type*} {error : ObsErrorDetails}
    (h : ∀ d ∈ error.extraDetails, d.Named) (msg : Bytes) {reply : Reply} (result : α)
    (hstatus : reply.status ≠ .OK) (hdetails : reply.errorDetails.getD {} = error) :
    Raises (if reply.status = .OK then .ok result
      else .error (.exception (thrownError msg reply.status (reply.errorDetails.getD {}))))
      msg reply.status error := by
  obtain ⟨e, he, hcarries⟩ := thrownError_carries h msg reply.status
  refine ⟨e, ?_, hcarries⟩
  rw [if_neg hstatus, hdetails, he]

/-- A refused deletion raises the Error with the message, status and details of its request. -/
theorem raises_deletionResult {error : ObsErrorDetails} (h : ∀ d ∈ error.extraDetails, d.Named)
    (msg : Bytes) {reply : Reply} (hproperties : reply.properties ≠ none)
    (hstatus : reply.status ≠ .OK) (hdetails : reply.errorDetails.getD {} = error) :
    Raises (deletionResult msg reply) msg reply.status error := by
  obtain ⟨p, hp⟩ := Option.ne_none_iff_exists'.mp hproperties
  unfold deletionResult
  rw [hp]
  exact raises_of_status h msg () hstatus hdetails

/-- **When an error is never lost.** Building an error with some details succeeds, tells all of
them in order, and reaches the caller of every operation, exactly when no extra detail has a NULL
name or a NULL value. The other pointers may be NULL. -/
theorem errorNeverLost_iff (error : ObsErrorDetails) :
    ErrorNeverLost error ↔ ∀ d ∈ error.extraDetails, d.Named := by
  constructor
  · intro h
    obtain ⟨t, ht, -⟩ := h.printed
    exact named_of_formatErrorDetails ht
  · intro h
    -- each operation in one line, then the test it ends with
    exact {
      printed := formatErrorDetails_described h
      thrown := thrownError_carries h
      putObject := by
        intro call B key object k hkey reply hprints hstatus hdetails
        rw [putObject_eq call B hkey hprints]
        exact raises_of_status h _ () hstatus hdetails
      appendObject := by
        intro call B key object k startPos hkey reply hprints hstatus hdetails
        rw [appendObject_eq call B hkey startPos hprints]
        exact raises_of_status h _ reply.nextAppendPosition hstatus hdetails
      deleteObject := by
        intro call B key k hkey reply hproperties hstatus hdetails
        rw [deleteObject_eq call B hkey]
        exact raises_deletionResult h _ hproperties hstatus hdetails
      batchDeleteObjects := by
        intro call B keys hpos hmax reply hproperties hstatus hdetails
        rw [batchDeleteObjects_eq call B hpos hmax]
        exact raises_deletionResult h _ hproperties hstatus hdetails }

/-- Details with one extra detail that has a value and no name. -/
def namelessDetails : ObsErrorDetails := { extraDetails := [⟨none, some (cstr "v")⟩] }

/-- **An error that is lost.** With a nameless extra detail every `throw Error` throws what `fmt`
does, whatever the message and the status. -/
theorem nameless_detail_loses_error :
    (∀ msg status, thrownError msg status namelessDetails = .formatError) ∧
      ¬ ErrorNeverLost namelessDetails := by
  refine ⟨fun _ _ => rfl, ?_⟩
  intro h
  obtain ⟨t, ht, -⟩ := h.printed
  exact absurd ht (by nofun)

end ObsBench
