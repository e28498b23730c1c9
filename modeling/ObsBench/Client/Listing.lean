import ObsBench.Client.Callbacks
import ObsBench.Service.Listing

/-!
# `list_objects`

The client lists a bucket page by page. The callback collects the keys of a page into the
result and into `batch_keys`; the last key of the page is the marker of the next request, and
a page without keys ends the loop. Neither `is_truncated` nor `next_marker` is looked at.

Prefix, delimiter, start key and markers cross a `const char *` interface, so they are C strings:
what a caller's `std::string` holds behind a NUL is not sent.

The loop has no bound of its own, so it runs on fuel, and `Returns` is what a run with enough
fuel gives. Its results are stated through `Scan.Run`, which the loop follows step by step.

* **`deliver_plain`**: what the callbacks of one page leave in the data.
* **`listObjectsLoop_turn`**: what one turn of the loop can do.
* **`listObjectsLoop_of_run`**, **`run_of_listObjectsLoop`**: the loop is the marker scan of
  the pages it is shown, as far as the progress bar can be shown.
-/

namespace ObsBench

/-- With enough fuel, `f` ends with `result`. -/
def Returns {α : Type*} (f : ℕ → Option α) (result : α) : Prop :=
  ∃ enough, ∀ fuel, enough ≤ fuel → f fuel = some result

theorem Returns.unique {α : Type*} {f : ℕ → Option α} {a b : α} (ha : Returns f a)
    (hb : Returns f b) : a = b := by
  obtain ⟨n, hn⟩ := ha
  obtain ⟨m, hm⟩ := hb
  exact Option.some.inj
    ((hn (max n m) (le_max_left n m)).symm.trans (hm (max n m) (le_max_right n m)))

/-! ## The operation -/

/-- `HuaweiCloudObs::get_approximate_object_count`; the callback data is left uninitialised. -/
def getApproximateObjectCount (reply : StorageReply) : Except Failure UInt64 := do
  let data ← ObjectCallbackData.finish reply.toReply {}
  if data.common.retStatus ≠ .OK then .error .abort
  else
    match stoull reply.objNum with
    | .ok count => return count
    | .error e => .error (.exception (.stoull e))

/-- `s.empty() ? NULL : s.c_str()`. -/
def cStrOrNull (s : CString) : Option CString := if s = [] then none else some s

def listRequest (keyPrefix delimiter nextStartKey : CString) : ListRequest where
  keyPrefix := cStrOrNull keyPrefix
  marker := cStrOrNull nextStartKey
  delimiter := cStrOrNull delimiter
  maxkeys := 1000

/-- The callbacks of one page request: the headers, the page in the pieces the service cuts it
into, the end. The list callback's invocations are kept beside the data. -/
def ListReply.deliver (reply : ListReply) (data : ListObjectCallbackData) :
    List ListObjectsInvocation × Except Failure ListObjectCallbackData :=
  match responsePropertiesCallback reply.properties (.listObject data) with
  | .error e => ([], .error e)
  | .ok (.object _) => ([], .error .undefinedBehaviour)
  | .ok (.listObject data) =>
    let (made, result) := deliverInvocations reply.invocations data
    (made, result.map fun data =>
      { data with common := responseCompleteCallback reply.status reply.errorDetails data.common })

/-- One turn of the loop: the request, the callback data the SDK gets with it, and the reply. -/
structure PageRequest where
  request : ListRequest
  data : ListObjectCallbackData
  reply : ListReply

/-- The page request of a turn. Its page is collected into an emptied `batch_keys`. -/
def pageRequest (calls : ℕ → ListRequest → ListReply) (keyPrefix delimiter : CString) (n : ℕ)
    (nextStartKey : CString) (data : ListObjectCallbackData) : PageRequest where
  request := listRequest keyPrefix delimiter nextStartKey
  data := { data with batchKeys := [] }
  reply := calls n (listRequest keyPrefix delimiter nextStartKey)

/-- The `while (true)` of `list_objects`, with `n` requests made. It gives the page requests it
makes and the data at the `break`, and no data when the fuel ends first. -/
def listObjectsLoop (calls : ℕ → ListRequest → ListReply) (keyPrefix delimiter : CString) :
    ℕ → ℕ → CString → ListObjectCallbackData →
      List PageRequest × Option (Except Failure ListObjectCallbackData)
  | 0, _, _, _ => ([], none)
  | fuel + 1, n, nextStartKey, data =>
    let page := pageRequest calls keyPrefix delimiter n nextStartKey data
    match (page.reply.deliver page.data).2 with
    | .error e => ([page], some (.error e))
    | .ok data =>
      if data.common.retStatus ≠ .OK then ([page], some (.error .abort))
      else
        -- `batch_keys.empty()` ends the loop, `batch_keys.back()` is the next marker
        match data.batchKeys.getLast? with
        | none => ([page], some (.ok data))
        | some last =>
          let (pages, result) := listObjectsLoop calls keyPrefix delimiter fuel (n + 1) last data
          (page :: pages, result)

/-- The initial `approximate_key_count`: only a listing of the whole bucket asks for it. -/
def approximateKeyCount (storage : StorageReply) (startKey keyPrefix delimiter : CString) :
    Except Failure (Option UInt64) :=
  let listAll := startKey.isEmpty && keyPrefix.isEmpty && delimiter.isEmpty
  if listAll then (getApproximateObjectCount storage).map some else .ok none

/-- `HuaweiCloudObs::list_objects`, with the page requests it makes. -/
def listObjectsRun (storage : StorageReply) (calls : ℕ → ListRequest → ListReply)
    (startKey keyPrefix delimiter : CString) (fuel : ℕ) :
    List PageRequest × Option (Except Failure (List CString)) :=
  match approximateKeyCount storage startKey keyPrefix delimiter with
  | .error e => ([], some (.error e))
  | .ok approximateKeyCount =>
    let (pages, result) :=
      listObjectsLoop calls keyPrefix delimiter fuel 0 startKey { approximateKeyCount }
    (pages, result.map (·.map (·.keys)))

/-- `HuaweiCloudObs::list_objects`: the keys, with the number of page requests made. -/
def listObjects (storage : StorageReply) (calls : ℕ → ListRequest → ListReply)
    (startKey keyPrefix delimiter : CString) (fuel : ℕ) :
    Option (Except Failure (List CString × ℕ)) :=
  let (pages, result) := listObjectsRun storage calls startKey keyPrefix delimiter fuel
  result.map (·.map fun keys => (keys, pages.length))

/-- The page requests of `list_objects`. -/
def listObjectsPages (storage : StorageReply) (calls : ℕ → ListRequest → ListReply)
    (startKey keyPrefix delimiter : CString) (fuel : ℕ) : List PageRequest :=
  (listObjectsRun storage calls startKey keyPrefix delimiter fuel).1

/-- `list_objects()` with the default arguments of its declaration. -/
def listObjectsDefault (storage : StorageReply) (calls : ℕ → ListRequest → ListReply) :
    ℕ → Option (Except Failure (List CString × ℕ)) :=
  listObjects storage calls (cstr "") (cstr "") (cstr "/")

/-- An empty string is passed as `NULL`, which the service reads as empty. -/
@[simp] theorem cStrOrNull_getD (s : CString) : (cStrOrNull s).getD [] = s := by
  unfold cStrOrNull
  split
  · next h => rw [h, Option.getD_none]
  · rfl

/-- A key is listed under its own name unless the delimiter follows its prefix. -/
theorem direct_listRequest {keyPrefix delimiter marker k : CString} :
    (listRequest keyPrefix delimiter marker).direct k ↔
      (delimiter ≠ [] → ¬ delimiter <:+: k.drop keyPrefix.length) := by
  by_cases hdelim : delimiter = []
  · simp [ListRequest.direct, listRequest, cStrOrNull, hdelim]
  · have hkeep : cStrOrNull delimiter = some delimiter := by rw [cStrOrNull, if_neg hdelim]
    simp [ListRequest.direct, listRequest, hkeep, ListRequest.behind, hdelim]

/-! ## One page -/

/-- What a page leaves in the data: its keys in both collections, and the status. -/
def ListReply.delivered (reply : ListReply) (data : ListObjectCallbackData) :
    ListObjectCallbackData :=
  { data with
    common := ⟨reply.status, reply.errorDetails.getD {}⟩
    keys := data.keys ++ reply.contents
    batchKeys := data.batchKeys ++ reply.contents }

/-- With plain headers the properties callback leaves a listing alone. -/
theorem responsePropertiesCallback_plain {reply : ListReply} (h : reply.Plain)
    (data : ListObjectCallbackData) :
    responsePropertiesCallback reply.properties (.listObject data) = .ok (.listObject data) := by
  obtain ⟨p, hp, hnone⟩ := h
  simp only [responsePropertiesCallback, hp, hnone]

/-- **A page with plain headers that can be shown** is handed over as a whole. -/
theorem deliver_plain {reply : ListReply} (h : reply.Plain) {data : ListObjectCallbackData}
    (hshows : data.ShowsPage reply.invocations) :
    reply.deliver data = (reply.invocations, .ok (reply.delivered data)) := by
  rw [ListReply.deliver, responsePropertiesCallback_plain h]
  dsimp only
  rw [deliverInvocations_ok hshows]
  rfl

/-- A page that cannot be shown is handed over up to a call of `print_progress` that is not
defined. -/
theorem deliver_not_shown {reply : ListReply} (h : reply.Plain) {data : ListObjectCallbackData}
    (hshows : ¬ data.ShowsPage reply.invocations) :
    (reply.deliver data).2 = .error .undefinedBehaviour := by
  rw [ListReply.deliver, responsePropertiesCallback_plain h]
  dsimp only
  rw [deliverInvocations_error hshows]
  rfl

/-- All other headers it takes for those of a single object. -/
theorem deliver_not_plain {reply : ListReply} (h : ¬ reply.Plain) (data : ListObjectCallbackData) :
    reply.deliver data = ([], .error .undefinedBehaviour) := by
  have hheaders : responsePropertiesCallback reply.properties (.listObject data) =
      .error .undefinedBehaviour := by
    cases hp : reply.properties with
    | none => rfl
    | some p =>
      cases hn : p.obsNextAppendPosition with
      | some position => simp only [responsePropertiesCallback, hn]
      | none => exact absurd ⟨p, hp, hn⟩ h
  rw [ListReply.deliver, hheaders]

/-! ## One turn of the loop -/

/-- The page completes, and its keys can be shown. -/
def PageRequest.Delivers (page : PageRequest) : Prop :=
  page.reply.Completes ∧ page.data.ShowsPage page.reply.invocations

section Turn

variable (calls : ℕ → ListRequest → ListReply) (keyPrefix delimiter : CString)

/-- A page that is delivered ends the loop if it is empty; if not, its last key is the marker of
the next request. -/
theorem listObjectsLoop_of_delivers {n : ℕ} {marker : CString} {data : ListObjectCallbackData}
    (h : (pageRequest calls keyPrefix delimiter n marker data).Delivers) (fuel : ℕ) :
    let page := pageRequest calls keyPrefix delimiter n marker data
    listObjectsLoop calls keyPrefix delimiter (fuel + 1) n marker data =
      match page.reply.contents.getLast? with
      | none => ([page], some (.ok (page.reply.delivered page.data)))
      | some last =>
        let rest := listObjectsLoop calls keyPrefix delimiter fuel (n + 1) last
          (page.reply.delivered page.data)
        (page :: rest.1, rest.2) := by
  obtain ⟨⟨hplain, hstatus⟩, hshows⟩ := h
  intro page
  have hgoesOn : ¬ (page.reply.delivered page.data).common.retStatus ≠ .OK := not_not.mpr hstatus
  rw [listObjectsLoop]
  dsimp only
  rw [deliver_plain hplain hshows]
  dsimp only
  rw [if_neg hgoesOn]
  rfl

/-- Any other page ends it with a failure; a page that completes could not be shown. -/
theorem listObjectsLoop_of_not_delivers {n : ℕ} {marker : CString} {data : ListObjectCallbackData}
    (h : ¬ (pageRequest calls keyPrefix delimiter n marker data).Delivers) :
    let page := pageRequest calls keyPrefix delimiter n marker data
    ∃ e, (∀ fuel, listObjectsLoop calls keyPrefix delimiter (fuel + 1) n marker data =
      ([page], some (.error e))) ∧ (page.reply.Completes → e = .undefinedBehaviour) := by
  intro page
  have hfails : ∀ e, (page.reply.deliver page.data).2 = .error e → ∀ fuel,
      listObjectsLoop calls keyPrefix delimiter (fuel + 1) n marker data =
        ([page], some (.error e)) := by
    intro e hdeliver fuel
    rw [listObjectsLoop]
    dsimp only
    rw [hdeliver]
  by_cases hplain : page.reply.Plain
  · by_cases hshows : page.data.ShowsPage page.reply.invocations
    · -- the assertion on the status
      have hstatus : (page.reply.delivered page.data).common.retStatus ≠ .OK :=
        fun hok => h ⟨⟨hplain, hok⟩, hshows⟩
      refine ⟨.abort, fun fuel => ?_, fun hcompletes => absurd hcompletes.2 hstatus⟩
      rw [listObjectsLoop]
      dsimp only
      rw [deliver_plain hplain hshows]
      dsimp only
      rw [if_pos hstatus]
    · exact ⟨_, hfails _ (deliver_not_shown hplain hshows), fun _ => rfl⟩
  · exact ⟨_, hfails _ (congrArg Prod.snd (deliver_not_plain hplain page.data)), fun _ => rfl⟩

/-- **What a turn can do.** It ends the loop, and it returns only on an empty page that is
delivered, or the loop goes on from the last key of a page that is. -/
theorem listObjectsLoop_turn (n : ℕ) (marker : CString) (data : ListObjectCallbackData) :
    let page := pageRequest calls keyPrefix delimiter n marker data
    (∃ result, (∀ fuel, listObjectsLoop calls keyPrefix delimiter (fuel + 1) n marker data =
        ([page], some result)) ∧
      ∀ last, result = .ok last →
        page.Delivers ∧ page.reply.contents = [] ∧ last = page.reply.delivered page.data) ∨
    ∃ k, page.Delivers ∧ page.reply.contents.getLast? = some k ∧ ∀ fuel,
      listObjectsLoop calls keyPrefix delimiter (fuel + 1) n marker data =
        let rest := listObjectsLoop calls keyPrefix delimiter fuel (n + 1) k
          (page.reply.delivered page.data)
        (page :: rest.1, rest.2) := by
  intro page
  by_cases hdelivers : page.Delivers
  · have hturn := listObjectsLoop_of_delivers calls keyPrefix delimiter hdelivers
    cases hlast : page.reply.contents.getLast? with
    | none =>
      simp only [page, hlast] at hturn
      exact .inl ⟨_, hturn, fun last h => ⟨hdelivers, List.getLast?_eq_none_iff.mp hlast,
        (Except.ok.inj h).symm⟩⟩
    | some k =>
      simp only [page, hlast] at hturn
      exact .inr ⟨k, hdelivers, rfl, hturn⟩
  · obtain ⟨e, hturn, -⟩ := listObjectsLoop_of_not_delivers calls keyPrefix delimiter hdelivers
    exact .inl ⟨.error e, hturn, nofun⟩

end Turn

/-! ## The loop as a marker scan -/

def shownPage (calls : ℕ → ListRequest → ListReply) (keyPrefix delimiter : CString) (n : ℕ)
    (marker : CString) : List CString :=
  (calls n (listRequest keyPrefix delimiter marker)).contents

/-- A page with a key is handed over in an invocation. -/
theorem invocations_ne_nil {reply : ListReply} {k : CString}
    (h : reply.contents.getLast? = some k) : reply.invocations ≠ [] := by
  intro hnone
  rw [ListReply.contents, hnone] at h
  exact absurd h (Option.some_ne_none k).symm

section Scan

variable {calls : ℕ → ListRequest → ListReply} {keyPrefix delimiter : CString}

/-- If every page completes and all keys of a scan of the shown pages can be shown, the scan is a
run of the loop. Induction on the scan, each of whose steps is one turn of the loop. -/
theorem listObjectsLoop_of_run
    (hcalls : ∀ n marker, (calls n (listRequest keyPrefix delimiter marker)).Completes)
    {n requests : ℕ} {marker : CString} {keys : List CString}
    (h : Scan.Run (shownPage calls keyPrefix delimiter) n marker keys requests)
    (data : ListObjectCallbackData)
    (hshows : (calls n (listRequest keyPrefix delimiter marker)).invocations = [] ∨
      data.Shows (data.keys.length + keys.length)) :
    ∃ pages last, n + pages.length = requests ∧ last.keys = data.keys ++ keys ∧
      ∃ enough, ∀ fuel, enough ≤ fuel →
        listObjectsLoop calls keyPrefix delimiter fuel n marker data =
          (pages, some (.ok last)) := by
  induction h generalizing data with
  | @stop n marker hnone =>
    set page := pageRequest calls keyPrefix delimiter n marker data with hpage
    -- an empty page is the `break`
    have hempty : page.reply.contents = [] := List.getLast?_eq_none_iff.mp hnone
    have hdelivers : page.Delivers := by
      refine ⟨hcalls n marker, hshows.imp_right fun hshown => hshown.mono ?_⟩
      show data.keys.length + page.reply.contents.length ≤ _
      rw [hempty]
    refine ⟨[page], page.reply.delivered page.data, rfl, ?_, 1, fun fuel hfuel => ?_⟩
    · show data.keys ++ page.reply.contents = _
      rw [hempty]
    · obtain ⟨fuel, rfl⟩ := Nat.exists_eq_add_of_le' hfuel
      rw [listObjectsLoop_of_delivers calls keyPrefix delimiter hdelivers, ← hpage, hempty]
      rfl
  | @more n requests marker k rest hlast _ ih =>
    set page := pageRequest calls keyPrefix delimiter n marker data with hpage
    have hkey : page.reply.contents.getLast? = some k := hlast
    have hall := hshows.resolve_left (invocations_ne_nil hkey)
    rw [List.length_append, ← Nat.add_assoc] at hall
    have hdelivers : page.Delivers := by
      refine ⟨hcalls n marker, .inr (hall.mono ?_)⟩
      show data.keys.length + page.reply.contents.length ≤ _
      exact Nat.le_add_right _ _
    -- the rest of the scan starts with the keys of this page collected
    have hrest : (page.reply.delivered page.data).Shows
        ((page.reply.delivered page.data).keys.length + rest.length) := by
      refine hall.mono (le_of_eq ?_)
      show (data.keys ++ page.reply.contents).length + rest.length = _
      rw [List.length_append]
      rfl
    obtain ⟨pages, last, hlength, hkeys, enough, hloop⟩ :=
      ih (page.reply.delivered page.data) (.inr hrest)
    refine ⟨page :: pages, last, ?_, ?_, enough + 1, fun fuel hfuel => ?_⟩
    · rw [List.length_cons, ← hlength]
      omega
    · rw [hkeys, ← List.append_assoc]
      rfl
    · obtain ⟨fuel, rfl⟩ := Nat.exists_eq_add_of_le' (le_trans (Nat.le_add_left 1 enough) hfuel)
      rw [listObjectsLoop_of_delivers calls keyPrefix delimiter hdelivers, ← hpage, hkey]
      dsimp only
      rw [hloop fuel (by omega)]

/-- A run of the loop that reaches the `break` is a scan of the shown pages, whatever the pages
are, and all its keys could be shown. Induction on the fuel. -/
theorem run_of_listObjectsLoop {fuel n : ℕ} {marker : CString} {data last : ListObjectCallbackData}
    {pages : List PageRequest}
    (h : listObjectsLoop calls keyPrefix delimiter fuel n marker data = (pages, some (.ok last))) :
    Scan.Run (shownPage calls keyPrefix delimiter) n marker (pages.flatMap (·.reply.contents))
        (n + pages.length) ∧
      last.keys = data.keys ++ pages.flatMap (·.reply.contents) ∧
      ((calls n (listRequest keyPrefix delimiter marker)).invocations = [] ∨
        data.Shows last.keys.length) := by
  induction fuel generalizing n marker data pages with
  | zero => exact absurd (congrArg Prod.snd h) (Option.some_ne_none _).symm
  | succ fuel ih =>
    rcases listObjectsLoop_turn calls keyPrefix delimiter n marker data with hend | hmore
    · obtain ⟨result, hloop, hbreak⟩ := hend
      rw [hloop fuel] at h
      obtain ⟨rfl, hresult⟩ := Prod.mk.inj h
      obtain ⟨hdelivers, hempty, rfl⟩ := hbreak last (Option.some.inj hresult)
      rw [List.flatMap_singleton, hempty]
      refine ⟨.stop (List.getLast?_eq_none_iff.mpr hempty), congrArg (data.keys ++ ·) hempty, ?_⟩
      refine hdelivers.2.imp_right fun hshown => ?_
      show data.Shows (data.keys ++ ListReply.contents _).length
      rw [List.length_append]
      exact hshown
    · obtain ⟨k, hdelivers, hlast, hloop⟩ := hmore
      rw [hloop fuel] at h
      set page := pageRequest calls keyPrefix delimiter n marker data
      cases hrest : listObjectsLoop calls keyPrefix delimiter fuel (n + 1) k
          (page.reply.delivered page.data) with
      | mk later result =>
        rw [hrest] at h
        obtain ⟨rfl, rfl⟩ := Prod.mk.inj h
        -- the rest of the loop is the rest of the scan
        obtain ⟨hrun, hkeys, hshows⟩ := ih hrest
        have hlength : n + (page :: later).length = n + 1 + later.length := by
          rw [List.length_cons]
          omega
        have hshown : data.Shows (page.reply.delivered page.data).keys.length := by
          show data.Shows (data.keys ++ page.reply.contents).length
          rw [List.length_append]
          exact hdelivers.2.resolve_left (invocations_ne_nil hlast)
        rw [List.flatMap_cons, hlength]
        refine ⟨.more hlast hrun, ?_, .inr ?_⟩
        · rw [hkeys, ← List.append_assoc]
          rfl
        · rcases hshows with hnone | hlater
          · -- nothing is collected behind a page that is not handed over
            have hempty : shownPage calls keyPrefix delimiter (n + 1) k = [] := by
              rw [shownPage, ListReply.contents, hnone]
              rfl
            rw [hkeys, hrun.eq_nil hempty, List.append_nil]
            exact hshown
          · exact hlater

end Scan

/-! ## The whole operation -/

/-- A reported number of objects is read back. -/
theorem getApproximateObjectCount_reports {reply : StorageReply} {n : ℕ} (h : reply.Reports n) :
    getApproximateObjectCount reply = .ok (UInt64.ofNat n) := by
  obtain ⟨⟨p, hp⟩, hstatus, hn, hnum⟩ := h
  obtain ⟨done, hdone, hok, -⟩ := finish_uninitialised ⟨p, hp⟩
  simp only [getApproximateObjectCount, hdone, bind, Except.bind, hok, hstatus, hnum,
    stoull_decimal hn]
  rfl

/-- Any count that can be read lets the call return. -/
theorem getApproximateObjectCount_counts {reply : StorageReply} (h : reply.Counts) :
    ∃ count, getApproximateObjectCount reply = .ok count := by
  obtain ⟨n, hn⟩ := h
  exact ⟨_, getApproximateObjectCount_reports hn⟩

section Whole

variable {storage : StorageReply} {calls : ℕ → ListRequest → ListReply}
  {startKey keyPrefix delimiter : CString}

/-- Only a listing of the whole bucket has a count, and it is what the service reports. -/
theorem approximateKeyCount_shows {reported : ℕ}
    (hstorage : startKey = [] → keyPrefix = [] → delimiter = [] → storage.Reports reported) :
    ∃ count, approximateKeyCount storage startKey keyPrefix delimiter = .ok count ∧
      ∀ n, ({ approximateKeyCount := count } : ListObjectCallbackData).Shows n ↔
        (startKey = [] → keyPrefix = [] → delimiter = [] → 100 * n < 2 ^ 31 * reported) := by
  by_cases hall : startKey = [] ∧ keyPrefix = [] ∧ delimiter = []
  · obtain ⟨rfl, rfl, rfl⟩ := hall
    have hreports := hstorage rfl rfl rfl
    refine ⟨some (UInt64.ofNat reported), ?_, fun n => ?_⟩
    · rw [approximateKeyCount, getApproximateObjectCount_reports hreports]
      rfl
    · have hcount : (UInt64.ofNat reported).toNat = reported := by
        rw [UInt64.toNat_ofNat']
        exact Nat.mod_eq_of_lt hreports.2.2.1
      simp [ListObjectCallbackData.Shows, hcount]
  · refine ⟨none, ?_, fun n => ⟨fun _ hstart hpre hdelim => ?_, fun _ => nofun⟩⟩
    · unfold approximateKeyCount
      rw [if_neg]
      simpa [and_assoc] using hall
    · exact absurd ⟨hstart, hpre, hdelim⟩ hall

theorem listObjects_of_run {reported : ℕ}
    (hstorage : startKey = [] → keyPrefix = [] → delimiter = [] → storage.Reports reported)
    (hcalls : ∀ n marker, (calls n (listRequest keyPrefix delimiter marker)).Completes)
    {requests : ℕ} {keys : List CString}
    (h : Scan.Run (shownPage calls keyPrefix delimiter) 0 startKey keys requests)
    (hprogress : startKey = [] → keyPrefix = [] → delimiter = [] →
      (calls 0 (listRequest keyPrefix delimiter startKey)).invocations = [] ∨
        100 * keys.length < 2 ^ 31 * reported) :
    Returns (listObjects storage calls startKey keyPrefix delimiter) (.ok (keys, requests)) := by
  obtain ⟨count, hcount, hshows⟩ := approximateKeyCount_shows hstorage
  have hshown : (calls 0 (listRequest keyPrefix delimiter startKey)).invocations = [] ∨
      ({ approximateKeyCount := count } : ListObjectCallbackData).Shows (0 + keys.length) := by
    rw [hshows, Nat.zero_add]
    by_cases hnone : (calls 0 (listRequest keyPrefix delimiter startKey)).invocations = []
    · exact .inl hnone
    · exact .inr fun hstart hpre hdelim => (hprogress hstart hpre hdelim).resolve_left hnone
  obtain ⟨pages, last, hlength, hkeys, enough, hloop⟩ :=
    listObjectsLoop_of_run hcalls h { approximateKeyCount := count } hshown
  refine ⟨enough, fun fuel hfuel => ?_⟩
  rw [Nat.zero_add] at hlength
  rw [listObjects, listObjectsRun, hcount]
  dsimp only
  rw [hloop fuel hfuel]
  simp [Except.map, hkeys, hlength]

/-- A listing without a progress bar is the scan of its pages. -/
theorem listObjects_of_run_of_delimiter
    (hdelimiter : delimiter ≠ [])
    (hcalls : ∀ n marker, (calls n (listRequest keyPrefix delimiter marker)).Completes)
    {requests : ℕ} {keys : List CString}
    (h : Scan.Run (shownPage calls keyPrefix delimiter) 0 startKey keys requests) :
    Returns (listObjects storage calls startKey keyPrefix delimiter) (.ok (keys, requests)) :=
  have hstorage : startKey = [] → keyPrefix = [] → delimiter = [] → storage.Reports 0 :=
    fun _ _ hnone => absurd hnone hdelimiter
  listObjects_of_run hstorage hcalls h fun _ _ hnone => absurd hnone hdelimiter

/-- A listing that returned has run its loop to the `break`. -/
theorem loop_of_listObjects {fuel requests : ℕ} {keys : List CString}
    (h : listObjects storage calls startKey keyPrefix delimiter fuel =
      some (.ok (keys, requests))) :
    ∃ count last, approximateKeyCount storage startKey keyPrefix delimiter = .ok count ∧
      listObjectsLoop calls keyPrefix delimiter fuel 0 startKey { approximateKeyCount := count } =
        (listObjectsPages storage calls startKey keyPrefix delimiter fuel, some (.ok last)) ∧
      keys = last.keys ∧
      requests = (listObjectsPages storage calls startKey keyPrefix delimiter fuel).length := by
  unfold listObjects at h
  unfold listObjectsPages
  unfold listObjectsRun at h ⊢
  cases hcount : approximateKeyCount storage startKey keyPrefix delimiter with
  | error e =>
    rw [hcount] at h
    exact absurd (Option.some.inj h) (by nofun)
  | ok count =>
    rw [hcount] at h
    dsimp only at h ⊢
    cases hloop : listObjectsLoop calls keyPrefix delimiter fuel 0 startKey
        { approximateKeyCount := count } with
    | mk pages result =>
      rw [hloop] at h
      cases result with
      | none => exact absurd h (Option.some_ne_none _).symm
      | some result =>
        cases result with
        | error e => exact absurd (Option.some.inj h) (by nofun)
        | ok last =>
          obtain ⟨rfl, rfl⟩ := Prod.mk.inj (Except.ok.inj (Option.some.inj h))
          exact ⟨count, last, rfl, hloop, rfl, rfl⟩

/-- **What a listing returns is counted and collected from its page requests.** -/
theorem listObjects_pages {fuel requests : ℕ} {keys : List CString}
    (h : listObjects storage calls startKey keyPrefix delimiter fuel =
      some (.ok (keys, requests))) :
    requests = (listObjectsPages storage calls startKey keyPrefix delimiter fuel).length ∧
      keys = (listObjectsPages storage calls startKey keyPrefix delimiter fuel).flatMap
        (·.reply.contents) := by
  obtain ⟨count, last, -, hloop, rfl, rfl⟩ := loop_of_listObjects h
  exact ⟨rfl, (run_of_listObjectsLoop hloop).2.1⟩

/-- A listing that returned is a scan of the pages it was shown. -/
theorem run_of_listObjects {fuel requests : ℕ} {keys : List CString}
    (h : listObjects storage calls startKey keyPrefix delimiter fuel =
      some (.ok (keys, requests))) :
    Scan.Run (shownPage calls keyPrefix delimiter) 0 startKey keys requests := by
  obtain ⟨hrequests, hkeys⟩ := listObjects_pages h
  obtain ⟨count, last, -, hloop, -, -⟩ := loop_of_listObjects h
  have hrun := (run_of_listObjectsLoop hloop).1
  rwa [Nat.zero_add, ← hrequests, ← hkeys] at hrun

/-- A listing of the whole bucket that returned could show its keys. -/
theorem progress_of_listObjects {reported fuel requests : ℕ} {keys : List CString}
    (hstorage : startKey = [] → keyPrefix = [] → delimiter = [] → storage.Reports reported)
    (h : listObjects storage calls startKey keyPrefix delimiter fuel =
      some (.ok (keys, requests))) :
    startKey = [] → keyPrefix = [] → delimiter = [] →
      (calls 0 (listRequest keyPrefix delimiter startKey)).invocations = [] ∨
        100 * keys.length < 2 ^ 31 * reported := by
  intro hstart hpre hdelim
  obtain ⟨count, last, hcount, hloop, rfl, -⟩ := loop_of_listObjects h
  obtain ⟨count', hcount', hshows⟩ := approximateKeyCount_shows hstorage
  obtain rfl : count = count' := Except.ok.inj (hcount.symm.trans hcount')
  exact (run_of_listObjectsLoop hloop).2.2.imp_right fun hshown =>
    (hshows _).mp hshown hstart hpre hdelim

end Whole

end ObsBench
