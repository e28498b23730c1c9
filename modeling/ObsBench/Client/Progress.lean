import ObsBench.Client.ListingRequests

/-!
# The progress bar of a listing

A listing of the whole bucket first asks how many objects there are, and the list callback shows
the number of keys collected so far as a part of that count. The count is only approximate, and
nothing keeps the keys below it.

* **`loopPages_progress`**: the calls of a run are those of its deliveries, one after the other.
* **`listObjectsProgress_inRange_iff`**: the runs all of whose calls stay in range.
* **`progress_never_goes_back`**: the calls of a run, one after the other.
-/

namespace ObsBench

/-! ## The calls of a listing -/

/-- The calls during a sequence of invocations, each after the keys of its invocation are
collected. -/
def invocationsProgress : List ListObjectsInvocation → ListObjectCallbackData → List ProgressCall
  | [], _ => []
  | inv :: rest, data =>
    (data.collect inv).progressCall.toList ++ invocationsProgress rest (data.collect inv)

/-- The invocations of the list callback that a page request leads to, the last of which may not
return. -/
def PageRequest.deliveries (page : PageRequest) : List ListObjectsInvocation :=
  (page.reply.deliver page.data).1

def PageRequest.progress (page : PageRequest) : List ProgressCall :=
  invocationsProgress page.deliveries page.data

/-- The deliveries to the list callback in a run of `list_objects`. -/
def listObjectsDeliveries (storage : StorageReply) (calls : ℕ → ListRequest → ListReply)
    (startKey keyPrefix delimiter : CString) (fuel : ℕ) : List ListObjectsInvocation :=
  (listObjectsPages storage calls startKey keyPrefix delimiter fuel).flatMap (·.deliveries)

/-- The calls of `print_progress` in a run of `list_objects`. -/
def listObjectsProgress (storage : StorageReply) (calls : ℕ → ListRequest → ListReply)
    (startKey keyPrefix delimiter : CString) (fuel : ℕ) : List ProgressCall :=
  (listObjectsPages storage calls startKey keyPrefix delimiter fuel).flatMap (·.progress)

/-- The calls depend on the collected keys and the count, not on `batch_keys`. -/
theorem invocationsProgress_congr {data data' : ListObjectCallbackData}
    (hkeys : data.keys = data'.keys)
    (hcount : data.approximateKeyCount = data'.approximateKeyCount)
    (invs : List ListObjectsInvocation) :
    invocationsProgress invs data = invocationsProgress invs data' := by
  induction invs generalizing data data' with
  | nil => rfl
  | cons inv rest ih =>
    have hnext : (data.collect inv).keys = (data'.collect inv).keys :=
      congrArg (· ++ inv.contents) hkeys
    have hcall : (data.collect inv).progressCall = (data'.collect inv).progressCall := by
      unfold ListObjectCallbackData.progressCall
      rw [hnext]
      exact congrArg _ hcount
    rw [invocationsProgress, invocationsProgress, hcall, ih hnext hcount]

/-- Callbacks print in their order, each from what the earlier ones left in the data. -/
theorem invocationsProgress_append (invs invs' : List ListObjectsInvocation)
    (data : ListObjectCallbackData) :
    invocationsProgress (invs ++ invs') data =
      invocationsProgress invs data ++ invocationsProgress invs' (data.collectAll invs) := by
  induction invs generalizing data with
  | nil =>
    have hnothing : data.collectAll [] = data := by simp [ListObjectCallbackData.collectAll]
    rw [hnothing]
    rfl
  | cons inv rest ih =>
    rw [List.cons_append, collectAll_cons, invocationsProgress, invocationsProgress, ih,
      List.append_assoc]

/-- Without a count nothing is shown. -/
theorem invocationsProgress_none {data : ListObjectCallbackData}
    (h : data.approximateKeyCount = none) (invs : List ListObjectsInvocation) :
    invocationsProgress invs data = [] := by
  induction invs generalizing data with
  | nil => rfl
  | cons inv rest ih =>
    have hcall : (data.collect inv).progressCall = none := Option.map_eq_none_iff.mpr h
    have hrest : invocationsProgress rest (data.collect inv) = [] := ih h
    rw [invocationsProgress, hcall, hrest]
    rfl

/-- An invocation shows the keys there are after it. -/
theorem invocationsProgress_cons {data : ListObjectCallbackData} {count : UInt64}
    (h : data.approximateKeyCount = some count) (inv : ListObjectsInvocation)
    (rest : List ListObjectsInvocation) :
    invocationsProgress (inv :: rest) data =
      ⟨(data.keys ++ inv.contents).length, count.toNat⟩ ::
        invocationsProgress rest (data.collect inv) := by
  have hcall : (data.collect inv).progressCall =
      some ⟨(data.keys ++ inv.contents).length, count.toNat⟩ :=
    Option.map_eq_some_iff.mpr ⟨count, h, rfl⟩
  rw [invocationsProgress, hcall]
  rfl

/-- **A sequence of invocations stays in range when its last one does.** The keys only grow, and
the count stays. -/
theorem invocationsProgress_inRange_iff {data : ListObjectCallbackData} {count : UInt64}
    (h : data.approximateKeyCount = some count) (invs : List ListObjectsInvocation) :
    (∀ call ∈ invocationsProgress invs data, call.InRange) ↔
      invs = [] ∨
        100 * (data.keys.length + (invs.flatMap (·.contents)).length) < 101 * count.toNat := by
  induction invs generalizing data with
  | nil => simp [invocationsProgress]
  | cons inv rest ih =>
    have hnext : (data.collect inv).approximateKeyCount = some count := h
    rw [invocationsProgress_cons h, List.forall_mem_cons, inRange_iff, ih hnext]
    show 100 * (data.keys ++ inv.contents).length < 101 * count.toNat ∧
      (rest = [] ∨ 100 * ((data.keys ++ inv.contents).length + _) < 101 * count.toNat) ↔ _
    rw [List.length_append, List.flatMap_cons, List.length_append]
    -- the first call asks for no more than a later one
    cases rest with
    | nil => simp
    | cons inv' rest => simp; omega

/-! ## A run -/

section Run

variable (calls : ℕ → ListRequest → ListReply) (keyPrefix delimiter : CString)

/-- The invocations of a page that is delivered are those of its reply. -/
theorem deliveries_of_delivers {page : PageRequest} (h : page.Delivers) :
    page.deliveries = page.reply.invocations := by
  rw [PageRequest.deliveries, deliver_plain h.1.1 h.2]

/-- **The progress of a run follows its deliveries.** Induction on the fuel; each turn of the loop
starts from the keys the turns before it have collected. -/
theorem loopPages_progress (fuel n : ℕ) (marker : CString) (data : ListObjectCallbackData) :
    (listObjectsLoop calls keyPrefix delimiter fuel n marker data).1.flatMap (·.progress) =
      invocationsProgress
        ((listObjectsLoop calls keyPrefix delimiter fuel n marker data).1.flatMap (·.deliveries))
        data := by
  induction fuel generalizing n marker data with
  | zero => rfl
  | succ fuel ih =>
    -- `batch_keys` is emptied for the page, which the calls do not see
    have hpage : (pageRequest calls keyPrefix delimiter n marker data).progress =
        invocationsProgress (pageRequest calls keyPrefix delimiter n marker data).deliveries
          data := by
      unfold PageRequest.progress
      apply invocationsProgress_congr <;> rfl
    rcases listObjectsLoop_turn calls keyPrefix delimiter n marker data with hend | hmore
    · obtain ⟨_, hloop, -⟩ := hend
      rw [hloop fuel, List.flatMap_singleton, List.flatMap_singleton, hpage]
    · obtain ⟨k, hdelivers, -, hloop⟩ := hmore
      rw [hloop fuel]
      dsimp only
      rw [List.flatMap_cons, List.flatMap_cons, hpage, ih, invocationsProgress_append,
        deliveries_of_delivers hdelivers]
      congr 1
      apply invocationsProgress_congr <;> rfl

end Run

/-- **When the progress bar stays in range.** In every run of a listing of the whole bucket, every
call of `print_progress` stays in range exactly when the pages deliver, to a callback invoked at
all, less than 101 keys for each hundred the bucket reported. -/
theorem listObjectsProgress_inRange_iff (storage : StorageReply)
    (calls : ℕ → ListRequest → ListReply) :
    (∀ fuel, ∀ call ∈ listObjectsProgress storage calls [] [] [] fuel, call.InRange) ↔
      ∀ count, getApproximateObjectCount storage = .ok count → ∀ fuel,
        listObjectsDeliveries storage calls [] [] [] fuel = [] ∨
          100 * ((listObjectsDeliveries storage calls [] [] [] fuel).flatMap (·.contents)).length <
            101 * count.toNat := by
  unfold listObjectsProgress listObjectsDeliveries listObjectsPages listObjectsRun
    approximateKeyCount
  cases hcount : getApproximateObjectCount storage with
  -- without a count there is no run
  | error e => simp [Except.map]
  | ok count =>
    simp only [Except.map, List.isEmpty_nil, Bool.and_self, if_true, Except.ok.injEq,
      forall_eq']
    simp only [loopPages_progress]
    constructor
    · intro h fuel
      have := (invocationsProgress_inRange_iff rfl _).mp (h fuel)
      simpa using this
    · intro h fuel
      apply (invocationsProgress_inRange_iff rfl _).mpr
      simpa using h fuel

/-- A page without keys that is delivered to the callback. -/
def emptyPage : ListReply := ⟨⟨some {}, .OK, none⟩, [⟨false, none, [], []⟩]⟩

/-- **A progress bar out of range.** An empty bucket counts no objects, and its one page is
delivered to the callback without keys: the call divides by zero. -/
theorem progress_divides_by_zero :
    printProgress 0 0 false = .error .undefinedBehaviour ∧
      ∃ call ∈ listObjectsProgress (.ofCount 0) (fun _ _ => emptyPage) [] [] [] 1,
        call = ⟨0, 0⟩ ∧ ¬ call.InRange := by
  refine ⟨rfl, ⟨0, 0⟩, ?_, rfl, ?_⟩
  · unfold listObjectsProgress listObjectsPages listObjectsRun approximateKeyCount
    rw [getApproximateObjectCount_reports (StorageReply.ofCount_reports (n := 0) (by decide))]
    exact List.mem_singleton.mpr rfl
  · rw [inRange_iff]
    decide

/-! ## The bar never goes back -/

/-- A later call shows as many keys or more, of the same count. -/
def ProgressCall.Before (earlier later : ProgressCall) : Prop :=
  earlier.iter ≤ later.iter ∧ earlier.maxIter = later.maxIter

/-- The bar of a later call is no shorter. -/
theorem ProgressCall.Before.bar_le {earlier later : ProgressCall} (h : earlier.Before later)
    {b b' : ProgressBar} (hb : printProgress earlier.iter earlier.maxIter false = .ok b)
    (hb' : printProgress later.iter later.maxIter false = .ok b') :
    b.val ≤ b'.val ∧ b.lpad ≤ b'.lpad := by
  obtain ⟨hiter, hmax⟩ := h
  rcases Nat.eq_zero_or_pos earlier.maxIter with hzero | hpos
  · rw [hzero] at hb
    cases hb
  · rw [printProgress_eq hpos] at hb
    rw [printProgress_eq (hmax ▸ hpos), ← hmax] at hb'
    split at hb
    · split at hb'
      · cases hb
        cases hb'
        have hval := Nat.div_le_div_right (c := earlier.maxIter) (Nat.mul_le_mul_right 100 hiter)
        have hlpad := Nat.div_le_div_right (c := earlier.maxIter) (Nat.mul_le_mul_right 60 hiter)
        exact ⟨Int.ofNat_le.mpr hval, Int.ofNat_le.mpr hlpad⟩
      · cases hb'
    · cases hb

/-- Induction on the invocations, the later of which start from the keys of the earlier. -/
theorem invocationsProgress_before {data : ListObjectCallbackData} {count : UInt64}
    (h : data.approximateKeyCount = some count) (invs : List ListObjectsInvocation) :
    (∀ call ∈ invocationsProgress invs data,
      data.keys.length ≤ call.iter ∧ call.maxIter = count.toNat) ∧
    (invocationsProgress invs data).Pairwise ProgressCall.Before ∧
    ∀ last ∈ (invocationsProgress invs data).getLast?,
      last.iter = (data.keys ++ invs.flatMap (·.contents)).length := by
  induction invs generalizing data with
  | nil => exact ⟨List.forall_mem_nil _, .nil, nofun⟩
  | cons inv rest ih =>
    have hnext : (data.collect inv).approximateKeyCount = some count := h
    have hkeys : (data.collect inv).keys = data.keys ++ inv.contents := rfl
    have hle : data.keys.length ≤ (data.keys ++ inv.contents).length := by
      rw [List.length_append]
      exact Nat.le_add_right ..
    -- the later calls start from more keys, so the first call is before all of them
    obtain ⟨hall, hpairwise, hlast⟩ := ih hnext
    rw [hkeys] at hall hlast
    rw [invocationsProgress_cons h]
    refine ⟨List.forall_mem_cons.mpr ⟨⟨hle, rfl⟩, fun call hmem => ?_⟩,
      .cons (fun call hmem => ?_) hpairwise, ?_⟩
    · exact ⟨hle.trans (hall call hmem).1, (hall call hmem).2⟩
    · exact ⟨(hall call hmem).1, (hall call hmem).2.symm⟩
    · rw [List.flatMap_cons, ← List.append_assoc]
      cases rest with
      | nil =>
        rintro last ⟨⟩
        rw [List.flatMap_nil, List.append_nil]
        rfl
      | cons inv' rest =>
        rw [invocationsProgress_cons hnext] at hlast ⊢
        rw [List.getLast?_cons_cons]
        exact hlast

/-- A listing that returns has had all its pages delivered. -/
theorem deliveries_of_ok {calls : ℕ → ListRequest → ListReply} {keyPrefix delimiter : CString}
    {fuel n : ℕ} {marker : CString} {data last : ListObjectCallbackData} {pages : List PageRequest}
    (h : listObjectsLoop calls keyPrefix delimiter fuel n marker data = (pages, some (.ok last))) :
    ∀ page ∈ pages, page.deliveries = page.reply.invocations := by
  induction fuel generalizing n marker data pages with
  | zero => exact absurd (congrArg Prod.snd h) (Option.some_ne_none _).symm
  | succ fuel ih =>
    rcases listObjectsLoop_turn calls keyPrefix delimiter n marker data with hend | hmore
    · obtain ⟨result, hloop, hbreak⟩ := hend
      rw [hloop fuel] at h
      obtain ⟨rfl, hresult⟩ := Prod.mk.inj h
      rw [List.forall_mem_singleton]
      exact deliveries_of_delivers (hbreak last (Option.some.inj hresult)).1
    · obtain ⟨k, hdelivers, -, hloop⟩ := hmore
      rw [hloop fuel] at h
      obtain ⟨rfl, hresult⟩ := Prod.mk.inj h
      rw [List.forall_mem_cons]
      exact ⟨deliveries_of_delivers hdelivers, ih (Prod.ext rfl hresult)⟩

/-- The keys a listing returns are those its deliveries brought. -/
theorem listObjects_deliveries {storage : StorageReply} {calls : ℕ → ListRequest → ListReply}
    {startKey keyPrefix delimiter : CString} {fuel requests : ℕ} {keys : List CString}
    (h : listObjects storage calls startKey keyPrefix delimiter fuel =
      some (.ok (keys, requests))) :
    (listObjectsDeliveries storage calls startKey keyPrefix delimiter fuel).flatMap (·.contents) =
      keys := by
  obtain ⟨count, last, -, hloop, -⟩ := loop_of_listObjects h
  rw [(listObjects_pages h).2, listObjectsDeliveries, List.flatMap_assoc]
  exact List.flatMap_congr fun page hpage => by
    rw [deliveries_of_ok hloop page hpage, ListReply.contents]

/-- **The bar never goes back.** In every run of `list_objects` the calls of `print_progress` show
as many keys as the calls before them or more, all of the same count; so bar and percentage only
grow. The last one before the listing returns shows all keys it returns. -/
theorem progress_never_goes_back (storage : StorageReply) (calls : ℕ → ListRequest → ListReply)
    (startKey keyPrefix delimiter : CString) (fuel : ℕ) :
    let shown := listObjectsProgress storage calls startKey keyPrefix delimiter fuel
    shown.Pairwise (fun earlier later => earlier.Before later ∧ ∀ b b',
      printProgress earlier.iter earlier.maxIter false = .ok b →
      printProgress later.iter later.maxIter false = .ok b' →
      b.val ≤ b'.val ∧ b.lpad ≤ b'.lpad) ∧
    ∀ keys requests,
      listObjects storage calls startKey keyPrefix delimiter fuel = some (.ok (keys, requests)) →
      ∀ last ∈ shown.getLast?, last.iter = keys.length := by
  intro shown
  -- a listing shows nothing, or what its deliveries print from no keys on
  have hshown : shown = [] ∨ ∃ count, ∃ data : ListObjectCallbackData, data.keys = [] ∧
      data.approximateKeyCount = some count ∧
      shown = invocationsProgress
        (listObjectsDeliveries storage calls startKey keyPrefix delimiter fuel) data := by
    unfold shown listObjectsProgress listObjectsDeliveries listObjectsPages listObjectsRun
    cases approximateKeyCount storage startKey keyPrefix delimiter with
    | error e => exact .inl rfl
    | ok count =>
      dsimp only
      rw [loopPages_progress]
      cases count with
      | none => exact .inl (invocationsProgress_none rfl _)
      | some count => exact .inr ⟨count, _, rfl, rfl, rfl⟩
  rcases hshown with hnil | ⟨count, data, hkeys, hcount, hshown⟩
  · rw [hnil]
    exact ⟨.nil, nofun⟩
  · obtain ⟨-, hpairwise, hlast⟩ := invocationsProgress_before hcount
      (listObjectsDeliveries storage calls startKey keyPrefix delimiter fuel)
    rw [hshown]
    refine ⟨hpairwise.imp fun hbefore => ⟨hbefore, fun b b' => hbefore.bar_le⟩, ?_⟩
    intro keys requests hreturned last hmem
    rw [hlast last hmem, hkeys, List.nil_append, listObjects_deliveries hreturned]

end ObsBench
