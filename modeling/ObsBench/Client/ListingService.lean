import ObsBench.Client.Listing

/-!
# Listings against the service

What `list_objects` returns when its pages are cut from a bucket. Without a delimiter every
entry is a key and the loop is a plain marker scan, which is safe even while others write to
the bucket. With a delimiter a page may consist of common prefixes alone, and the loop takes
such a page for the last one.

* **`listObjects_concurrent`**: a listing without a delimiter under foreign updates.
* **`listed_of_run`**: a listing with the default arguments under foreign updates.
* **`listObjects_exact_iff`**: the buckets for which a listing returns, and is complete.
* **`crowded_incomplete`**: a bucket for which it is not.
-/

namespace ObsBench

/-! ## Listings without a delimiter -/

/-- Without a delimiter a page is cut from the keys with the prefix, none of them rolled up. -/
theorem serves_without_delimiter {reply : ListReply} {B : Bucket} {keyPrefix marker : CString}
    (h : reply.Pages B (listRequest keyPrefix [] marker)) :
    Scan.Serves (B.keys.filter (keyPrefix <+: ·)) marker reply.contents := by
  simpa only [listRequest, cStrOrNull_getD] using h.serves fun _ _ _ => rfl

/-- **Listing under concurrent writers.** `B n` is the bucket when page request `n` is served,
and nothing relates one `B n` to the next. A listing that returns is strictly increasing; it is
made of pages each of which held only keys present at its own request; and a matching key that
is present at every request is returned. -/
theorem listObjects_concurrent {storage : StorageReply} {calls : ℕ → ListRequest → ListReply}
    {startKey keyPrefix : CString} {B : ℕ → Bucket}
    (hpages : ∀ n marker, (calls n (listRequest keyPrefix [] marker)).Pages (B n)
      (listRequest keyPrefix [] marker))
    {fuel requests : ℕ} {keys : List CString}
    (h : listObjects storage calls startKey keyPrefix [] fuel = some (.ok (keys, requests))) :
    keys.Pairwise (· < ·) ∧ (∀ k ∈ keys, keyPrefix <+: k ∧ startKey < k) ∧
      (∃ pages : List (List CString), pages.length = requests ∧ keys = pages.flatten ∧
        ∀ n page, pages[n]? = some page →
          (∃ marker, page = (calls n (listRequest keyPrefix [] marker)).contents) ∧
            ∀ k ∈ page, k ∈ B n) ∧
      ∀ k, keyPrefix <+: k → startKey < k → (∀ n < requests, k ∈ B n) → k ∈ keys := by
  have hrun := run_of_listObjects h
  have hserves : ∀ n marker, Scan.Serves ((B n).keys.filter (keyPrefix <+: ·)) marker
      (shownPage calls keyPrefix [] n marker) := fun n marker =>
    serves_without_delimiter (hpages n marker)
  obtain ⟨hsorted, hafter⟩ := hrun.sorted (Scan.advances_of_serves hserves)
  obtain ⟨pages, hlength, hflatten, hpage⟩ := hrun.pages
  have hshown : ∀ n marker, ∀ k ∈ shownPage calls keyPrefix [] n marker,
      k ∈ B n ∧ keyPrefix <+: k := by
    intro n marker k hk
    have hmem := ((hserves n marker).mem hk).1
    rw [Finset.mem_filter, Finmap.mem_keys] at hmem
    exact hmem
  have hprefixed := hrun.forall_mem fun n marker k hk => (hshown n marker k hk).2
  refine ⟨hsorted, fun k hk => ⟨hprefixed k hk, hafter k hk⟩,
    ⟨pages, by simpa using hlength, hflatten, fun n page hn => ?_⟩, ?_⟩
  · -- page `n` was served from the bucket of request `n`
    obtain ⟨marker, rfl⟩ := hpage n page hn
    rw [Nat.zero_add]
    exact ⟨⟨marker, rfl⟩, fun k hk => (hshown n marker k hk).1⟩
  · intro k hprefix hstart hall
    refine hrun.complete hserves (fun n _ hn => ?_) hstart
    exact Finset.mem_filter.mpr ⟨Finmap.mem_keys.mpr (hall n hn), hprefix⟩

/-- The key `c` stays while `a` is deleted and `b` is put between the first two requests. -/
def swapped (n : ℕ) : Bucket :=
  if n = 0 then .ofKeys [cstr "a", cstr "c"] else .ofKeys [cstr "b", cstr "c"]

theorem swapped_pages (n : ℕ) (marker : CString) :
    ((swapped n).listPage (listRequest [] [] marker)).Pages (swapped n)
      (listRequest [] [] marker) :=
  ((swapped n).listPage_fills _).pages (Nat.zero_lt_succ 999)

theorem listObjects_concurrent_swapped :
    ∃ fuel keys requests, listObjects (.ofCount 2) (fun n => (swapped n).listPage) [] [] [] fuel =
      some (.ok (keys, requests)) ∧ keys.Pairwise (· < ·) ∧ cstr "c" ∈ keys := by
  have hserves : ∀ n marker, Scan.Serves ((swapped n).keys.filter ([] <+: ·)) marker
      (shownPage (fun n => (swapped n).listPage) [] [] n marker) := fun n marker =>
    serves_without_delimiter (swapped_pages n marker)
  have hshown : ∀ n marker, ∀ k ∈ shownPage (fun n => (swapped n).listPage) [] [] n marker,
      k ∈ (swapped 0).keys ∪ (swapped 1).keys := by
    intro n marker k hk
    have hmem := (Finset.mem_filter.mp ((hserves n marker).mem hk).1).1
    rcases Nat.eq_zero_or_pos n with rfl | hpos
    · exact Finset.mem_union_left _ hmem
    · have hlater : swapped n = swapped 1 := by simp [swapped, Nat.ne_of_gt hpos]
      rw [hlater] at hmem
      exact Finset.mem_union_right _ hmem
  obtain ⟨keys, requests, hrun, -⟩ := Scan.Run.exists (Scan.advances_of_serves hserves)
    (S := (swapped 0).keys ∪ (swapped 1).keys) hshown 0 []
  obtain ⟨hincreasing, -⟩ := hrun.sorted (Scan.advances_of_serves hserves)
  have hlength : keys.length ≤ ((swapped 0).keys ∪ (swapped 1).keys).card := by
    rw [← List.toFinset_card_of_nodup (hincreasing.imp ne_of_lt)]
    exact Finset.card_le_card fun k hk => hrun.forall_mem hshown k (List.mem_toFinset.mp hk)
  have hcard : ((swapped 0).keys ∪ (swapped 1).keys).card ≤ 4 := by decide
  obtain ⟨fuel, hfuel⟩ := listObjects_of_run
    (fun _ _ _ => StorageReply.ofCount_reports (n := 2) (by decide))
    (fun n _ => (swapped n).listPage_completes _) hrun (fun _ _ _ => .inr (by omega))
  have hreturned := hfuel fuel le_rfl
  obtain ⟨hsorted, -, -, hall⟩ := listObjects_concurrent swapped_pages hreturned
  refine ⟨fuel, keys, requests, hreturned, hsorted, hall (cstr "c") List.nil_prefix (by decide) ?_⟩
  intro n _
  unfold swapped
  split <;> simp

/-! ## The default listing

Its delimiter is `/`, so it shows no nested key, and it shows all there is where no key is nested.
-/

/-- Under the default arguments the direct keys are those without a slash. -/
theorem direct_slash (marker k : CString) :
    (listRequest [] (cstr "/") marker).direct k ↔ ¬ cstr "/" <:+: k := by
  rw [direct_listRequest]
  exact ⟨fun h => h (by decide), fun h _ => h⟩

section Default

variable {listCalls : ℕ → ListRequest → ListReply} {B : ℕ → Bucket}
  (hpages : ∀ n marker, (listCalls n (listRequest [] (cstr "/") marker)).Pages (B n)
    (listRequest [] (cstr "/") marker))
include hpages

/-- A key the default listing shows is in the bucket and has no slash. -/
theorem mem_default_page {n : ℕ} {marker k : CString}
    (hk : k ∈ shownPage listCalls [] (cstr "/") n marker) : k ∈ B n ∧ ¬ cstr "/" <:+: k := by
  obtain ⟨-, hmem, hdirect⟩ := (hpages n marker).contents.2 k hk
  exact ⟨hmem, (direct_slash marker k).mp hdirect⟩

/-- The pages of a default listing move forward, whatever the bucket turns into. -/
theorem advances_default : Scan.Advances (shownPage listCalls [] (cstr "/")) := by
  intro n marker
  refine ⟨(hpages n marker).contents.1, fun k hk => ?_⟩
  have hafter := ((hpages n marker).contents.2 k hk).1
  simpa only [listRequest, cStrOrNull_getD] using hafter

/-- **What a default listing finds**: keys it has seen in the bucket, none of them nested, and if
none is nested, all keys that were there at every request. -/
theorem listed_of_run {requests : ℕ} {keys : List CString}
    (hrun : Scan.Run (shownPage listCalls [] (cstr "/")) 0 [] keys requests) :
    (∀ k ∈ keys, ¬ cstr "/" <:+: k ∧ ∃ n, n < requests ∧ k ∈ B n) ∧
    ((∀ n, ∀ k ∈ B n, ¬ cstr "/" <:+: k) →
      ∀ k, k ≠ [] → (∀ n, n < requests → k ∈ B n) → k ∈ keys) := by
  constructor
  · intro k hk
    obtain ⟨pages, hlength, rfl, hpage⟩ := hrun.pages
    obtain ⟨page, hmem, hk⟩ := List.mem_flatten.mp hk
    obtain ⟨n, hn⟩ := List.mem_iff_getElem?.mp hmem
    obtain ⟨marker, rfl⟩ := hpage n page hn
    rw [Nat.zero_add] at hk
    obtain ⟨hseen, hflat⟩ := mem_default_page hpages hk
    have hlt := (List.getElem?_eq_some_iff.mp hn).1
    exact ⟨hflat, n, by omega, hseen⟩
  · intro hflat k hne hstayed
    -- without nested keys the pages show all there is
    have hserves : ∀ n marker, Scan.Serves ((B n).keys.filter ([] <+: ·)) marker
        (shownPage listCalls [] (cstr "/") n marker) := fun n marker => by
      simpa only [shownPage, listRequest, cStrOrNull_getD] using (hpages n marker).serves
        fun k hk _ => (direct_slash marker k).mpr (hflat n k hk)
    refine hrun.complete hserves (fun n _ hn => ?_) ?_
    · exact Finset.mem_filter.mpr ⟨Finmap.mem_keys.mpr (hstayed n hn), List.nil_prefix⟩
    · obtain ⟨c, rest, rfl⟩ := List.exists_cons_of_ne_nil hne
      exact List.nil_lt_cons c rest

end Default

/-! ## Listings with any delimiter -/

def Bucket.Wanted (B : Bucket) (startKey keyPrefix delimiter k : CString) : Prop :=
  k ∈ B ∧ startKey < k ∧ keyPrefix <+: k ∧
    (delimiter ≠ [] → ¬ delimiter <:+: k.drop keyPrefix.length)

/-- In increasing order, the keys a listing is asked for and no others. -/
def Bucket.ListsExactly (B : Bucket) (startKey keyPrefix delimiter : CString)
    (keys : List CString) : Prop :=
  keys.Pairwise (· < ·) ∧ ∀ k, k ∈ keys ↔ B.Wanted startKey keyPrefix delimiter k

/-- The direct names ahead of the start key are the wanted keys. -/
theorem mem_ahead_filter_direct {B : Bucket} {startKey keyPrefix delimiter k : CString} :
    k ∈ (B.ahead (listRequest keyPrefix delimiter startKey)).filter
        (listRequest keyPrefix delimiter startKey).direct ↔
      B.Wanted startKey keyPrefix delimiter k := by
  have hdirect := B.mem_entries_and_direct (listRequest keyPrefix delimiter startKey) k
  rw [direct_listRequest] at hdirect
  simp only [List.mem_filter, Bucket.ahead, Finset.mem_sort, decide_eq_true_eq, direct_listRequest]
  simp only [listRequest, cStrOrNull_getD] at hdirect ⊢
  unfold Bucket.Wanted
  tauto

/-- Filled pages show the direct names of a scan of the sorted listing. -/
theorem shownPage_of_fills {B : Bucket} {calls : ℕ → ListRequest → ListReply}
    {keyPrefix delimiter : CString}
    (hfills : ∀ n marker, (calls n (listRequest keyPrefix delimiter marker)).Fills B
      (listRequest keyPrefix delimiter marker)) (startKey : CString) :
    shownPage calls keyPrefix delimiter =
      Scan.keptPage ((B.entries (listRequest keyPrefix delimiter startKey)).sort (· ≤ ·))
        (listRequest keyPrefix delimiter startKey).direct 1000 := by
  funext n marker
  rw [shownPage, hfills n marker]
  simp only [Bucket.ahead, Scan.keptPage, listRequest, cStrOrNull_getD]
  rfl

/-- A listing of the whole bucket shows a bar. It needs a reported count of which the number of
keys is a multiple that fits, unless even the first page is not handed to the callback. -/
def Bucket.ProgressDefined (B : Bucket) (first : ListReply) (startKey keyPrefix delimiter : CString)
    (reported : ℕ) : Prop :=
  startKey = [] → keyPrefix = [] → delimiter = [] → first.invocations = [] ∨
    100 * (B.ahead (listRequest keyPrefix delimiter startKey)).length < 2 ^ 31 * reported

section Exact

variable {calls : ℕ → ListRequest → ListReply} {B : Bucket} {startKey keyPrefix delimiter : CString}

theorem pairwise_ahead (B : Bucket) (request : ListRequest) :
    (B.ahead request).Pairwise (· < ·) :=
  ((Finset.sortedLT_sort _).pairwise).filter _

variable (hfills : ∀ n marker, (calls n (listRequest keyPrefix delimiter marker)).Fills B
  (listRequest keyPrefix delimiter marker))
include hfills

/-- A scan of filled pages returns the direct keys ahead exactly when it meets no dropped page. -/
theorem eq_filter_direct_iff {keys : List CString} {requests : ℕ}
    (hrun : Scan.Run (shownPage calls keyPrefix delimiter) 0 startKey keys requests) :
    keys = (B.ahead (listRequest keyPrefix delimiter startKey)).filter
        (listRequest keyPrefix delimiter startKey).direct ↔
      Scan.NoDroppedPage (listRequest keyPrefix delimiter startKey).direct 1000
        (B.ahead (listRequest keyPrefix delimiter startKey)) := by
  have hahead : B.ahead (listRequest keyPrefix delimiter startKey) =
      Scan.after ((B.entries (listRequest keyPrefix delimiter startKey)).sort (· ≤ ·))
        startKey := by
    simp only [Bucket.ahead, listRequest, cStrOrNull_getD]
  rw [shownPage_of_fills hfills startKey] at hrun
  rw [hahead]
  exact hrun.eq_filter_iff (Finset.sortedLT_sort _).pairwise

/-- A scan over filled pages lists exactly the wanted keys if and only if no page of rolled-up
names stands before a direct key. -/
theorem listsExactly_iff_of_run {keys : List CString} {requests : ℕ}
    (hrun : Scan.Run (shownPage calls keyPrefix delimiter) 0 startKey keys requests) :
    B.ListsExactly startKey keyPrefix delimiter keys ↔
      Scan.NoDroppedPage (listRequest keyPrefix delimiter startKey).direct 1000
        (B.ahead (listRequest keyPrefix delimiter startKey)) := by
  have hdirect := (pairwise_ahead B (listRequest keyPrefix delimiter startKey)).filter
    (listRequest keyPrefix delimiter startKey).direct
  rw [← eq_filter_direct_iff hfills hrun]
  constructor
  · -- an increasing list is determined by its members
    intro h
    exact h.1.eq_of_mem_iff hdirect fun k => (h.2 k).trans mem_ahead_filter_direct.symm
  · intro h
    rw [h]
    exact ⟨hdirect, fun k => mem_ahead_filter_direct⟩

/-- Without a delimiter nothing is dropped. -/
theorem eq_ahead_of_run (hdelimiter : delimiter = []) {keys : List CString} {requests : ℕ}
    (hrun : Scan.Run (shownPage calls keyPrefix delimiter) 0 startKey keys requests) :
    keys = B.ahead (listRequest keyPrefix delimiter startKey) := by
  subst hdelimiter
  have hall : ∀ k, (listRequest keyPrefix [] startKey).direct k = true := fun _ => rfl
  have hfew : Scan.NoDroppedPage (listRequest keyPrefix [] startKey).direct 1000
      (B.ahead (listRequest keyPrefix [] startKey)) := by
    apply Scan.noDroppedPage_of_few
    simp [hall]
  rw [(eq_filter_direct_iff hfills hrun).mpr hfew, List.filter_eq_self.mpr fun k _ => hall k]

/-- The pages of an unchanging bucket are scanned to an end. -/
theorem exists_run_of_fills (startKey : CString) :
    ∃ keys requests,
      Scan.Run (shownPage calls keyPrefix delimiter) 0 startKey keys requests := by
  have hadv := Scan.keptPage_advances
    (Finset.sortedLT_sort (B.entries (listRequest keyPrefix delimiter startKey))).pairwise
    (listRequest keyPrefix delimiter startKey).direct 1000
  obtain ⟨keys, requests, hrun, -⟩ := Scan.Run.exists hadv
    (S := B.entries (listRequest keyPrefix delimiter startKey)) (fun n m k hk => by
      have htake := List.mem_of_mem_filter hk
      have hmem := List.mem_of_mem_filter (List.mem_of_mem_take htake)
      simpa using hmem) 0 startKey
  rw [← shownPage_of_fills hfills startKey] at hrun
  exact ⟨keys, requests, hrun⟩

end Exact

section Complete

variable {storage : StorageReply} {calls : ℕ → ListRequest → ListReply} {B : Bucket}
  {startKey keyPrefix delimiter : CString} {reported : ℕ}
  (hstorage : startKey = [] → keyPrefix = [] → delimiter = [] → storage.Reports reported)

/-- A listing that returns has scanned the pages. -/
theorem run_of_returns {keys : List CString} {requests : ℕ}
    (h : Returns (listObjects storage calls startKey keyPrefix delimiter) (.ok (keys, requests))) :
    Scan.Run (shownPage calls keyPrefix delimiter) 0 startKey keys requests := by
  obtain ⟨enough, hlist⟩ := h
  exact run_of_listObjects (hlist enough le_rfl)

include hstorage

/-- It could show what it found. -/
theorem progressDefined_of_returns
    (hfills : ∀ n marker, (calls n (listRequest keyPrefix delimiter marker)).Fills B
      (listRequest keyPrefix delimiter marker)) {keys : List CString} {requests : ℕ}
    (h : Returns (listObjects storage calls startKey keyPrefix delimiter) (.ok (keys, requests))) :
    B.ProgressDefined (calls 0 (listRequest keyPrefix delimiter startKey)) startKey keyPrefix
      delimiter reported := by
  intro hstart hpre hdelim
  rw [← eq_ahead_of_run hfills hdelim (run_of_returns h)]
  obtain ⟨enough, hlist⟩ := h
  exact progress_of_listObjects hstorage (hlist enough le_rfl) hstart hpre hdelim

/-- Where its progress bar is defined the listing returns. -/
theorem returns_of_progressDefined
    (hcalls : ∀ n marker, (calls n (listRequest keyPrefix delimiter marker)).Completes)
    (hfills : ∀ n marker, (calls n (listRequest keyPrefix delimiter marker)).Fills B
      (listRequest keyPrefix delimiter marker))
    (h : B.ProgressDefined (calls 0 (listRequest keyPrefix delimiter startKey)) startKey keyPrefix
      delimiter reported) :
    ∃ keys requests,
      Returns (listObjects storage calls startKey keyPrefix delimiter) (.ok (keys, requests)) := by
  obtain ⟨keys, requests, hrun⟩ := exists_run_of_fills hfills startKey
  refine ⟨keys, requests, listObjects_of_run hstorage hcalls hrun fun hstart hpre hdelim => ?_⟩
  rw [eq_ahead_of_run hfills hdelim hrun]
  exact h hstart hpre hdelim

/-- **Complete listings.** Over an unchanging bucket `list_objects` returns exactly when its
progress bar is defined. What it then returns is the keys it is asked for exactly when no direct key
comes after a thousand consecutive common prefixes among the entries after the start key. -/
theorem listObjects_exact_iff
    (hcalls : ∀ n marker, (calls n (listRequest keyPrefix delimiter marker)).Completes)
    (hfills : ∀ n marker, (calls n (listRequest keyPrefix delimiter marker)).Fills B
      (listRequest keyPrefix delimiter marker)) :
    ((∃ keys requests, Returns (listObjects storage calls startKey keyPrefix delimiter)
        (.ok (keys, requests))) ↔
      B.ProgressDefined (calls 0 (listRequest keyPrefix delimiter startKey)) startKey keyPrefix
        delimiter reported) ∧
    ((∃ keys requests, Returns (listObjects storage calls startKey keyPrefix delimiter)
        (.ok (keys, requests)) ∧ B.ListsExactly startKey keyPrefix delimiter keys) ↔
      B.ProgressDefined (calls 0 (listRequest keyPrefix delimiter startKey)) startKey keyPrefix
        delimiter reported ∧
      Scan.NoDroppedPage (listRequest keyPrefix delimiter startKey).direct 1000
        (B.ahead (listRequest keyPrefix delimiter startKey))) := by
  constructor
  · constructor
    · intro h
      obtain ⟨keys, requests, hreturns⟩ := h
      exact progressDefined_of_returns hstorage hfills hreturns
    · exact returns_of_progressDefined hstorage hcalls hfills
  · constructor
    · intro h
      obtain ⟨keys, requests, hreturns, hexact⟩ := h
      exact ⟨progressDefined_of_returns hstorage hfills hreturns,
        (listsExactly_iff_of_run hfills (run_of_returns hreturns)).mp hexact⟩
    · intro h
      obtain ⟨keys, requests, hreturns⟩ := returns_of_progressDefined hstorage hcalls hfills h.1
      exact ⟨keys, requests, hreturns,
        (listsExactly_iff_of_run hfills (run_of_returns hreturns)).mpr h.2⟩

end Complete

/-! ## Buckets with directories

Keys in directories of their own show as common prefixes, and they come before the keys `b` and
`c`. -/

def directory (i : ℕ) : CString := List.replicate (i + 1) letterA ++ cstr "/"

def nestedKey (i : ℕ) : CString := List.replicate (i + 1) letterA ++ cstr "/x"

/-- A bucket of `n` directories and some keys behind them. -/
def directories (n : ℕ) (flat : List CString) : Bucket :=
  .ofKeys ((List.range n).map nestedKey ++ flat)

theorem directory_lt {i j : ℕ} (h : i < j) : directory i < directory j := by
  obtain ⟨d, rfl⟩ := Nat.exists_eq_add_of_lt h
  have hsplit : directory (i + d + 1) =
      List.replicate (i + 1) letterA ++ (letterA :: (List.replicate d letterA ++ cstr "/")) := by
    rw [directory, show i + d + 1 + 1 = (i + 1) + (d + 1) by omega, List.replicate_add,
      List.append_assoc]
    rfl
  rw [hsplit]
  exact List.append_left_lt (List.cons_lt_cons_iff.mpr (.inl (by decide)))

theorem listRequest_direct_slash {name : CString} (h : cstr "/" <:+: name) :
    (listRequest [] (cstr "/") []).direct name = false := by
  rw [← Bool.not_eq_true, direct_listRequest]
  exact fun hdirect => hdirect (by decide) h

theorem slash_infix_nestedKey (i : ℕ) : cstr "/" <:+: nestedKey i :=
  ⟨List.replicate (i + 1) letterA, cstr "x", by rw [nestedKey, List.append_assoc]; rfl⟩

theorem slash_infix_directory (i : ℕ) : cstr "/" <:+: directory i :=
  (List.suffix_append (List.replicate (i + 1) letterA) (cstr "/")).isInfix

/-- In a default listing a nested key appears as its directory. -/
theorem entry_nestedKey (i : ℕ) :
    (listRequest [] (cstr "/") []).entry (nestedKey i) = directory i := by
  have hup : ∀ n, upTo (cstr "/") (List.replicate n letterA ++ cstr "/x") =
      List.replicate n letterA ++ cstr "/" := by
    intro n
    induction n with
    | zero => decide
    | succ n ih =>
      have hhead : ¬ cstr "/" <+: letterA :: (List.replicate n letterA ++ cstr "/x") := by
        intro h
        have hslash : cstr "/" = [⟨47, by decide⟩] := by decide
        rw [hslash, List.cons_prefix_cons] at h
        exact absurd h.1 (by decide)
      rw [List.replicate_succ, List.cons_append, upTo, if_neg hhead, ih, List.cons_append]
  rw [ListRequest.entry, listRequest_direct_slash (slash_infix_nestedKey i)]
  exact hup (i + 1)

/-- In order, and behind all directories. -/
structure Behind (flat : List CString) : Prop where
  increasing : flat.Pairwise (· < ·)
  direct : ∀ k ∈ flat, ¬ cstr "/" <:+: k
  directory_lt : ∀ k ∈ flat, ∀ i, directory i < k

theorem Behind.ne_nil {flat : List CString} (h : Behind flat) {k : CString} (hk : k ∈ flat) :
    k ≠ [] := by
  rintro rfl
  exact absurd (h.directory_lt [] hk 0) (List.not_lt_nil _)

/-- The listing of the nested bucket: one name for each directory, and the flat keys. -/
theorem mem_entries_directories {n : ℕ} {flat : List CString} (hflat : Behind flat)
    {name : CString} : name ∈ (directories n flat).entries (listRequest [] (cstr "/") []) ↔
      name ∈ (List.range n).map directory ++ flat := by
  have hentry : ∀ k ∈ flat, (listRequest [] (cstr "/") []).entry k = k := by
    intro k hk
    have hdirect : (listRequest [] (cstr "/") []).direct k = true :=
      direct_listRequest.mpr fun _ => hflat.direct k hk
    rw [ListRequest.entry, if_pos hdirect]
  simp only [Bucket.entries, Finset.mem_image, Finset.mem_filter, Finmap.mem_keys, directories,
    Bucket.mem_ofKeys, List.mem_append, List.mem_map]
  constructor
  · rintro ⟨key, ⟨⟨i, hi, rfl⟩ | hkey, -⟩, rfl⟩
    · exact .inl ⟨i, hi, (entry_nestedKey i).symm⟩
    · exact .inr ((hentry key hkey).symm ▸ hkey)
  · rintro (⟨i, hi, rfl⟩ | hname)
    · exact ⟨nestedKey i, ⟨.inl ⟨i, hi, rfl⟩, List.nil_prefix⟩, entry_nestedKey i⟩
    · exact ⟨name, ⟨.inr hname, List.nil_prefix⟩, hentry name hname⟩

/-- The entries in order: the directories, and the other keys behind them. -/
theorem ahead_directories {n : ℕ} {flat : List CString} (hflat : Behind flat) :
    (directories n flat).ahead (listRequest [] (cstr "/") []) =
      (List.range n).map directory ++ flat := by
  have hnames : ((List.range n).map directory ++ flat).Pairwise (· < ·) := by
    refine List.pairwise_append.mpr ⟨?_, hflat.increasing, ?_⟩
    · exact List.pairwise_map.mpr (List.pairwise_lt_range.imp directory_lt)
    · intro name hname k hk
      obtain ⟨i, -, rfl⟩ := List.mem_map.mp hname
      exact hflat.directory_lt k hk i
  -- both lists are increasing, so it is enough that they have the same members
  apply (pairwise_ahead _ _).eq_of_mem_iff hnames
  intro name
  have hpos : name ∈ (List.range n).map directory ++ flat → [] < name := by
    intro hname
    rcases List.mem_append.mp hname with hdir | hkey
    · obtain ⟨i, -, rfl⟩ := List.mem_map.mp hdir
      exact List.nil_lt_cons _ _
    · obtain ⟨c, rest, rfl⟩ := List.exists_cons_of_ne_nil (hflat.ne_nil hkey)
      exact List.nil_lt_cons _ _
  simp only [Bucket.ahead, List.mem_filter, Finset.mem_sort, mem_entries_directories hflat,
    decide_eq_true_eq]
  exact ⟨And.left, fun hname => ⟨hname, hpos hname⟩⟩

theorem filter_direct_directory (n : ℕ) :
    ((List.range n).map directory).filter (listRequest [] (cstr "/") []).direct = [] := by
  rw [List.filter_eq_nil_iff]
  intro name hname
  obtain ⟨i, -, rfl⟩ := List.mem_map.mp hname
  rw [listRequest_direct_slash (slash_infix_directory i)]
  exact Bool.false_ne_true

/-- The direct keys ahead are those that are in no directory. -/
theorem filter_direct_ahead {n : ℕ} {flat : List CString} (hflat : Behind flat) :
    ((directories n flat).ahead (listRequest [] (cstr "/") [])).filter
      (listRequest [] (cstr "/") []).direct = flat := by
  rw [ahead_directories hflat, List.filter_append, filter_direct_directory, List.nil_append,
    List.filter_eq_self]
  exact fun k hk => direct_listRequest.mpr fun _ => hflat.direct k hk

theorem behind_b_c : Behind [cstr "b", cstr "c"] where
  increasing := by decide
  direct := by decide
  directory_lt k hk i := by
    rcases List.mem_pair.mp hk with rfl | rfl
    all_goals exact List.cons_lt_cons_iff.mpr (.inl (by decide))

theorem behind_b : Behind [cstr "b"] where
  increasing := List.pairwise_singleton _ _
  direct k hk := behind_b_c.direct k (List.mem_append_left [cstr "c"] hk)
  directory_lt k hk := behind_b_c.directory_lt k (List.mem_append_left [cstr "c"] hk)

/-! ### One directory less than a page holds -/

/-- The first page ends with `b` behind the directories, and `c` is on the second. -/
theorem listObjects_exact_iff_directories :
    ∃ requests, Returns (listObjects (.ofCount 0)
        (fun _ => (directories 999 [cstr "b", cstr "c"]).listPage) [] [] (cstr "/"))
      (.ok ([cstr "b", cstr "c"], requests)) := by
  set B := directories 999 [cstr "b", cstr "c"] with hB
  have hslash : cstr "/" ≠ [] := by decide
  have hfew : Scan.NoDroppedPage (listRequest [] (cstr "/") []).direct 1000
      (B.ahead (listRequest [] (cstr "/") [])) := by
    apply Scan.noDroppedPage_of_few
    have hlength := List.length_eq_length_filter_add
      (l := B.ahead (listRequest [] (cstr "/") [])) (listRequest [] (cstr "/") []).direct
    rw [hB, filter_direct_ahead behind_b_c, ahead_directories behind_b_c, List.length_append,
      List.length_map, List.length_range] at hlength
    rw [hB, ahead_directories behind_b_c]
    simp only [List.length_cons, List.length_nil] at hlength
    omega
  have hstorage : ([] : CString) = [] → ([] : CString) = [] → cstr "/" = [] →
      (StorageReply.ofCount 0).Reports 0 := fun _ _ hnone => absurd hnone hslash
  obtain ⟨keys, requests, hreturns, hexact⟩ := (listObjects_exact_iff (B := B) hstorage
    (fun _ _ => B.listPage_completes _) (fun _ _ => B.listPage_fills _)).2.mpr
    ⟨fun _ _ hnone => absurd hnone hslash, hfew⟩
  have hkeys : keys = [cstr "b", cstr "c"] := by
    refine hexact.1.eq_of_mem_iff behind_b_c.increasing fun k => ?_
    rw [hexact.2 k, ← mem_ahead_filter_direct, filter_direct_ahead behind_b_c]
  exact ⟨requests, hkeys ▸ hreturns⟩

/-! ### As many directories as a page holds -/

def crowded : Bucket := directories 1000 [cstr "b"]

/-- The first page of the crowded bucket holds common prefixes only. -/
theorem crowded_page : (crowded.listPage (listRequest [] (cstr "/") [])).contents = [] := by
  have htake : (crowded.ahead (listRequest [] (cstr "/") [])).take 1000 =
      (List.range 1000).map directory := by
    rw [crowded, ahead_directories behind_b]
    exact List.take_left' (by simp)
  rw [Bucket.listPage_fills crowded (listRequest [] (cstr "/") [])]
  show List.filter _ ((crowded.ahead (listRequest [] (cstr "/") [])).take 1000) = []
  rw [htake]
  exact filter_direct_directory 1000

/-- **A default listing can miss a key.** The loop ends at the first page of the crowded
bucket, so `b` is not returned. -/
theorem crowded_incomplete :
    (∀ request, (crowded.listPage request).Completes ∧
      (crowded.listPage request).Fills crowded request) ∧
    (∀ storage, Returns (listObjectsDefault storage fun _ => crowded.listPage) (.ok ([], 1))) ∧
    crowded.Wanted [] [] (cstr "/") (cstr "b") ∧ ¬ crowded.ListsExactly [] [] (cstr "/") [] := by
  have hwanted : crowded.Wanted [] [] (cstr "/") (cstr "b") := by
    refine ⟨?_, by decide, List.nil_prefix, fun _ => by decide⟩
    rw [crowded, directories, Bucket.mem_ofKeys]
    simp
  refine ⟨fun request => ⟨crowded.listPage_completes request, crowded.listPage_fills request⟩,
    fun storage => ?_, hwanted, fun hexact => ?_⟩
  · refine listObjects_of_run_of_delimiter (by decide)
      (fun _ marker => crowded.listPage_completes _) (.stop ?_)
    rw [List.getLast?_eq_none_iff]
    exact crowded_page
  · exact List.not_mem_nil ((hexact.2 (cstr "b")).mpr hwanted)

end ObsBench
