import ObsBench.Client.ListingService

/-!
# How many pages a listing requests

The loop of `list_objects` neither counts its requests nor looks at `is_truncated`. It ends since
the last key of a page becomes the next marker: whatever the pages, fewer matching keys lie ahead
of it. This bounds the requests of every run, also of one that an assertion ends.

* **`length_pages_le`**: at most one request for each key ahead, and one more.
* **`listObjects_requests`**: the bound for the operation, and the exact number on full pages.
-/

namespace ObsBench

/-! ## The requests of a run -/

section Requests

variable {calls : ℕ → ListRequest → ListReply} {keyPrefix delimiter : CString}

/-- A loop that its fuel ends has made a request for each unit of it. -/
theorem length_pages_of_none {fuel n : ℕ} {marker : CString} {data : ListObjectCallbackData}
    (h : (listObjectsLoop calls keyPrefix delimiter fuel n marker data).2 = none) :
    (listObjectsLoop calls keyPrefix delimiter fuel n marker data).1.length = fuel := by
  induction fuel generalizing n marker data with
  | zero => rfl
  | succ fuel ih =>
    rcases listObjectsLoop_turn calls keyPrefix delimiter n marker data with hend | hmore
    · obtain ⟨result, hloop, -⟩ := hend
      rw [hloop fuel] at h
      exact absurd h (Option.some_ne_none _)
    · obtain ⟨k, -, -, hloop⟩ := hmore
      rw [hloop fuel] at h ⊢
      exact congrArg (· + 1) (ih h)

/-- A loop that has ended does not depend on the fuel that is left. -/
theorem listObjectsLoop_of_le {fuel fuel' n : ℕ} {marker : CString} {data : ListObjectCallbackData}
    (h : (listObjectsLoop calls keyPrefix delimiter fuel n marker data).2 ≠ none)
    (hle : fuel ≤ fuel') :
    listObjectsLoop calls keyPrefix delimiter fuel' n marker data =
      listObjectsLoop calls keyPrefix delimiter fuel n marker data := by
  induction fuel generalizing fuel' n marker data with
  | zero => exact absurd rfl h
  | succ fuel ih =>
    obtain ⟨more, rfl⟩ := Nat.exists_eq_add_of_le' (le_trans (Nat.le_add_left 1 fuel) hle)
    rcases listObjectsLoop_turn calls keyPrefix delimiter n marker data with hend | hmore
    · obtain ⟨result, hloop, -⟩ := hend
      rw [hloop fuel, hloop more]
    · obtain ⟨k, -, -, hloop⟩ := hmore
      rw [hloop fuel] at h
      rw [hloop fuel, hloop more, ih h (show fuel ≤ more by omega)]

/-- **The marker uses up the keys ahead of it.** If every page shows only keys of `S` after its
marker, a run makes at most one request for each key of `S` ahead, and one more. Induction on the
fuel; every turn that is not the last moves the marker to a key of `S`. -/
theorem length_pages_le {S : Finset CString}
    (hpages : ∀ n marker, ∀ k ∈ (calls n (listRequest keyPrefix delimiter marker)).contents,
      marker < k ∧ k ∈ S) (fuel n : ℕ) (marker : CString) (data : ListObjectCallbackData) :
    (listObjectsLoop calls keyPrefix delimiter fuel n marker data).1.length ≤
      (Scan.ahead S marker).card + 1 := by
  induction fuel generalizing n marker data with
  | zero => exact Nat.zero_le _
  | succ fuel ih =>
    rcases listObjectsLoop_turn calls keyPrefix delimiter n marker data with hend | hmore
    · obtain ⟨_, hloop, -⟩ := hend
      rw [hloop fuel, List.length_singleton]
      omega
    · obtain ⟨k, -, hlast, hloop⟩ := hmore
      obtain ⟨hafter, hk⟩ := hpages n marker k (List.mem_of_getLast? hlast)
      -- the next marker is a key of `S` itself
      have hless := Scan.card_ahead_lt hk hafter
      rw [hloop fuel]
      dsimp only
      rw [List.length_cons]
      exact Nat.succ_le_succ ((ih (n + 1) k _).trans hless)

end Requests

/-! ## The whole operation -/

/-- A listing that makes at most `bound` requests, whatever the fuel, ends. -/
theorem returns_of_pages_le {storage : StorageReply} {calls : ℕ → ListRequest → ListReply}
    {startKey keyPrefix delimiter : CString} {bound : ℕ}
    (h : ∀ fuel,
      (listObjectsPages storage calls startKey keyPrefix delimiter fuel).length ≤ bound) :
    ∃ result, Returns (listObjects storage calls startKey keyPrefix delimiter) result := by
  unfold listObjectsPages at h
  unfold listObjects
  unfold listObjectsRun at h ⊢
  cases hcount : approximateKeyCount storage startKey keyPrefix delimiter with
  | error e => exact ⟨.error e, 0, fun _ _ => rfl⟩
  | ok count =>
    simp only [hcount] at h
    cases hloop : listObjectsLoop calls keyPrefix delimiter (bound + 1) 0 startKey
        { approximateKeyCount := count } with
    | mk pages result =>
      cases result with
      | none =>
        -- more requests than the bound allows
        have hall := length_pages_of_none (congrArg Prod.snd hloop)
        have hbound := h (bound + 1)
        omega
      | some result =>
        have hended : (listObjectsLoop calls keyPrefix delimiter (bound + 1) 0 startKey
            { approximateKeyCount := count }).2 ≠ none := by
          rw [hloop]
          exact Option.some_ne_none _
        refine ⟨result.map fun last => (last.keys, pages.length), bound + 1, fun fuel hfuel => ?_⟩
        dsimp only
        rw [listObjectsLoop_of_le hended hfuel, hloop]
        cases result <;> rfl

/-- The keys of a bucket that a listing may show. -/
def Bucket.matching (B : Bucket) (keyPrefix delimiter : CString) : Finset CString :=
  B.keys.filter fun k =>
    keyPrefix <+: k ∧ (delimiter ≠ [] → ¬ delimiter <:+: k.drop keyPrefix.length)

/-- Without a delimiter the names of a listing are the matching keys. -/
theorem entries_without_delimiter (B : Bucket) (keyPrefix marker : CString) :
    B.entries (listRequest keyPrefix [] marker) = B.matching keyPrefix [] := by
  rw [Bucket.entries_of_direct (fun _ _ _ => rfl)]
  ext k
  simp [Bucket.matching, listRequest]

/-- Without a delimiter a page that is filled is the next thousand matching keys. -/
theorem shownPage_without_delimiter {B : Bucket} {calls : ℕ → ListRequest → ListReply}
    {keyPrefix : CString}
    (hfills : ∀ n marker, (calls n (listRequest keyPrefix [] marker)).Fills B
      (listRequest keyPrefix [] marker)) (n : ℕ) (marker : CString) :
    shownPage calls keyPrefix [] n marker =
      (Scan.after ((B.matching keyPrefix []).sort (· ≤ ·)) marker).take 1000 := by
  have hdirect : ∀ k, (listRequest keyPrefix [] marker).direct k = true := fun _ => rfl
  rw [shownPage, hfills n marker, List.filter_eq_self.mpr fun k _ => hdirect k, Bucket.ahead,
    entries_without_delimiter]
  simp only [listRequest, cStrOrNull_getD]

/-- A listing of filled pages without a delimiter makes one request for each thousand keys, and one
more. -/
theorem requests_of_run {B : Bucket} {calls : ℕ → ListRequest → ListReply}
    {startKey keyPrefix : CString} {requests : ℕ} {keys : List CString}
    (hfills : ∀ n marker, (calls n (listRequest keyPrefix [] marker)).Fills B
      (listRequest keyPrefix [] marker))
    (hrun : Scan.Run (shownPage calls keyPrefix []) 0 startKey keys requests) :
    requests = ((Scan.ahead (B.matching keyPrefix []) startKey).card + 999) / 1000 + 1 := by
  have hsize : 0 < 1000 := by decide
  have hsorted : ((B.matching keyPrefix []).sort (· ≤ ·)).Pairwise (· < ·) :=
    (Finset.sortedLT_sort _).pairwise
  have hlength : (Scan.after ((B.matching keyPrefix []).sort (· ≤ ·)) startKey).length =
      (Scan.ahead (B.matching keyPrefix []) startKey).card := by
    rw [Scan.after, Scan.after_sort, Finset.length_sort]
    rfl
  rw [hrun.count_of_filled hsorted hsize (shownPage_without_delimiter hfills),
    Batches.length_batches hsize, hlength]
  omega

/-- **Listing terminates.** If a page for a marker shows only matching keys after that marker, a
listing makes at most one request for each matching key after the start key, and one more, however
it ends. Without a delimiter, and on pages that are filled, it returns after one request for each
thousand keys, and one more, exactly when its progress bar is defined. -/
theorem listObjects_requests (storage : StorageReply) {calls : ℕ → ListRequest → ListReply}
    {B : Bucket} {startKey keyPrefix delimiter : CString}
    (hpages : ∀ n marker, ∀ k ∈ (calls n (listRequest keyPrefix delimiter marker)).contents,
      marker < k ∧ k ∈ B.matching keyPrefix delimiter) :
    (∃ result, Returns (listObjects storage calls startKey keyPrefix delimiter) result) ∧
    (∀ fuel, (listObjectsPages storage calls startKey keyPrefix delimiter fuel).length ≤
      (Scan.ahead (B.matching keyPrefix delimiter) startKey).card + 1) ∧
    ∀ reported, delimiter = [] →
      (startKey = [] → keyPrefix = [] → delimiter = [] → storage.Reports reported) →
      (∀ n marker, (calls n (listRequest keyPrefix delimiter marker)).Completes) →
      (∀ n marker, (calls n (listRequest keyPrefix delimiter marker)).Fills B
        (listRequest keyPrefix delimiter marker)) →
      ((∃ keys enough, ∀ fuel, enough ≤ fuel →
        listObjects storage calls startKey keyPrefix delimiter fuel = some (.ok (keys,
          ((Scan.ahead (B.matching keyPrefix delimiter) startKey).card + 999) / 1000 + 1)) ∧
        (listObjectsPages storage calls startKey keyPrefix delimiter fuel).length =
          ((Scan.ahead (B.matching keyPrefix delimiter) startKey).card + 999) / 1000 + 1) ↔
        B.ProgressDefined (calls 0 (listRequest keyPrefix delimiter startKey)) startKey keyPrefix
          delimiter reported) := by
  have hbound : ∀ fuel, (listObjectsPages storage calls startKey keyPrefix delimiter fuel).length ≤
      (Scan.ahead (B.matching keyPrefix delimiter) startKey).card + 1 := by
    intro fuel
    unfold listObjectsPages listObjectsRun
    cases approximateKeyCount storage startKey keyPrefix delimiter with
    | error e => exact Nat.zero_le _
    | ok count => exact length_pages_le hpages fuel 0 startKey _
  refine ⟨returns_of_pages_le hbound, hbound, ?_⟩
  intro reported hdelimiter hstorage hcalls hfills
  constructor
  · intro h
    obtain ⟨keys, enough, hlist⟩ := h
    exact progressDefined_of_returns hstorage hfills
      ⟨enough, fun fuel hfuel => (hlist fuel hfuel).1⟩
  · intro hprogress
    obtain ⟨keys, requests, hreturns⟩ := returns_of_progressDefined hstorage hcalls hfills hprogress
    subst hdelimiter
    -- the scan behind the listing fixes the number of its requests
    obtain rfl := requests_of_run hfills (run_of_returns hreturns)
    obtain ⟨enough, hlist⟩ := hreturns
    exact ⟨keys, enough, fun fuel hfuel =>
      ⟨hlist fuel hfuel, (listObjects_pages (hlist fuel hfuel)).1.symm⟩⟩

/-- Without prefix and delimiter a page shows keys after its marker, and no others. -/
theorem mem_listPage_matching {B : Bucket} {marker k : CString}
    (hk : k ∈ (B.listPage (listRequest [] [] marker)).contents) :
    marker < k ∧ k ∈ B.matching [] [] := by
  have hshown : k ∈ shownPage (fun _ => B.listPage) [] [] 0 marker := hk
  rw [shownPage_without_delimiter fun _ _ => Bucket.listPage_fills _ _] at hshown
  have hmem := List.mem_filter.mp (List.mem_of_mem_take hshown)
  exact ⟨by simpa using hmem.2, by simpa using hmem.1⟩

/-- A bucket with two keys is listed with two requests where they are counted. -/
theorem listObjects_requests_two :
    ∃ keys enough, ∀ fuel, enough ≤ fuel →
      listObjects (.ofCount 2) (fun _ => (Bucket.ofKeys [cstr "a", cstr "b"]).listPage) [] [] []
        fuel = some (.ok (keys, 2)) := by
  set B := Bucket.ofKeys [cstr "a", cstr "b"] with hB
  have hcard : (Scan.ahead (B.matching [] []) []).card = 2 := by
    rw [hB]
    decide
  have hshown : (B.ahead (listRequest [] [] [])).length ≤ 2 := by
    have hkeys : (B.matching [] []).card = 2 := by
      rw [hB]
      decide
    rw [← hkeys, ← entries_without_delimiter B [] [], ← Finset.length_sort (· ≤ ·)]
    exact List.length_filter_le ..
  have hpages : ∀ (_ : ℕ) marker, ∀ k ∈ (B.listPage (listRequest [] [] marker)).contents,
      marker < k ∧ k ∈ B.matching [] [] := fun _ _ _ => mem_listPage_matching
  have hlisting := (@listObjects_requests (.ofCount 2) (fun _ => B.listPage) B [] [] [] hpages).2.2
    2 rfl
    (fun _ _ _ => StorageReply.ofCount_reports (by decide))
    (fun _ _ => Bucket.listPage_completes _ _) (fun _ _ => Bucket.listPage_fills _ _)
  obtain ⟨keys, enough, hreturns⟩ := hlisting.mpr fun _ _ _ => .inr (by omega)
  refine ⟨keys, enough, fun fuel hfuel => ?_⟩
  rw [(hreturns fuel hfuel).1, hcard]

/-- **A listing that ends too early.** The bucket has one key, so it takes two requests to list;
but none is reported, and the progress bar for the first page divides by zero. -/
theorem listObjects_requests_uncounted :
    let B := Bucket.ofKeys [cstr "a"]
    (∀ marker, (B.listPage (listRequest [] [] marker)).Completes ∧
      (B.listPage (listRequest [] [] marker)).Fills B (listRequest [] [] marker) ∧
      ∀ k ∈ (B.listPage (listRequest [] [] marker)).contents,
        marker < k ∧ k ∈ B.matching [] []) ∧
    (StorageReply.ofCount 0).Reports 0 ∧
    ((Scan.ahead (B.matching [] []) []).card + 999) / 1000 + 1 = 2 ∧
    ∀ fuel,
      listObjects (.ofCount 0) (fun _ => B.listPage) [] [] [] (fuel + 1) =
        some (.error .undefinedBehaviour) ∧
      (listObjectsPages (.ofCount 0) (fun _ => B.listPage) [] [] [] (fuel + 1)).length = 1 := by
  intro B
  have hreports := StorageReply.ofCount_reports (n := 0) (by decide)
  refine ⟨fun marker => ⟨Bucket.listPage_completes _ _, Bucket.listPage_fills _ _,
    fun _ => mem_listPage_matching⟩, hreports, by decide, fun fuel => ?_⟩
  obtain ⟨count, hcount, hshows⟩ : ∃ count, approximateKeyCount (.ofCount 0) [] [] [] = .ok count ∧
      _ := approximateKeyCount_shows fun _ _ _ => hreports
  -- whatever is collected, a fraction of nothing cannot be shown
  have hnever : ∀ n, ¬ ({ approximateKeyCount := count } : ListObjectCallbackData).Shows n := by
    intro n
    rw [hshows, not_forall]
    exact ⟨rfl, fun h => absurd (h rfl rfl) (by omega)⟩
  set page := pageRequest (fun _ => B.listPage) [] [] 0 [] { approximateKeyCount := count }
  have hundelivered : ¬ page.Delivers := fun h =>
    h.2.elim (fun hnone => absurd hnone (List.cons_ne_nil _ _)) (hnever _)
  obtain ⟨e, hloop, he⟩ := listObjectsLoop_of_not_delivers _ _ _ hundelivered
  obtain rfl := he (Bucket.listPage_completes _ _)
  rw [listObjects, listObjectsPages, listObjectsRun, hcount]
  dsimp only
  rw [hloop fuel]
  exact ⟨rfl, rfl⟩

end ObsBench
