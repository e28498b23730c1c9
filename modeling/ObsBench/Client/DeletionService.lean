import ObsBench.Client.Deletion
import ObsBench.Client.ListingService

/-!
# Deletions against the service

What the two deletions of many keys achieve on a service that completes every request. Neither
does what its return says on all inputs: `delete_objects` returns normally whatever the service
refused, and `delete_all` lists with the default delimiter, so it never gets to see a nested
key.

* **`deleteObjects_reports_iff`**: when a normal return of `delete_objects` can be relied on.
* **`deleteAll_empties_iff`**: the buckets `delete_all` empties.
-/

namespace ObsBench

/-! ## Refused keys -/

/-- A deletion that returns has removed its keys, and otherwise it throws `Error`. -/
def ReportsDeletion (keys : List CString) : Bucket × Except Failure Unit → Prop
  | (B', .ok ()) => ∀ k ∈ keys, k ∉ B'
  | (_, .error (.exception (.error _))) => True
  | _ => False

/-- The keys are gone exactly when each one that was there is removed at some position. -/
theorem removed_all_iff {B : Bucket} {outcome : ℕ → DeleteOutcome} {keys : List CString} :
    (∀ k ∈ keys, k ∉ B.remove outcome 0 keys) ↔
      ∀ k ∈ keys, k ∈ B → ∃ p, keys[p]? = some k ∧ outcome p = .removed := by
  simp only [Bucket.mem_remove, Nat.zero_add, not_and, not_forall, not_not, exists_prop]

/-- **When `delete_objects` can be relied on.** On a service that completes every request, its
return means what it says exactly when every key that is in the bucket is removed at one of its
places in the list. The number `delete_all` returns counts no remaining object under the same
condition on the keys it lists. -/
theorem deleteObjects_reports_iff {calls : ℕ → BatchDeleteCall} (outcome : ℕ → DeleteOutcome)
    (h : ∀ n, (calls n).Meets fun p => outcome (1000 * n + p)) (B : Bucket) :
    (∀ keys, ReportsDeletion keys (deleteObjects calls B keys) ↔
      ∀ k ∈ keys, k ∈ B → ∃ p, keys[p]? = some k ∧ outcome p = .removed) ∧
    ∀ storage listCalls fuel final count,
      deleteAll storage listCalls calls B fuel = some (final, .ok count) →
      ∃ allKeys requests,
        listObjectsDefault storage listCalls fuel = some (.ok (allKeys, requests)) ∧
        count = allKeys.length ∧
        ((∀ k ∈ allKeys, k ∉ final) ↔
          ∀ k ∈ allKeys, k ∈ B → ∃ p, allKeys[p]? = some k ∧ outcome p = .removed) := by
  constructor
  · intro keys
    rw [deleteObjects_meets outcome h, ReportsDeletion]
    exact removed_all_iff
  · intro storage listCalls fuel final count hall
    unfold deleteAll at hall
    split at hall
    · simp at hall
    · obtain ⟨result, hlist, hresult⟩ := Option.map_eq_some_iff.mp hall
      match result, hlist, hresult with
      | .error e, _, hresult => simp at hresult
      | .ok (allKeys, requests), hlist, hresult =>
        simp only [deleteObjects_meets outcome h, Prod.mk.injEq, Except.ok.injEq] at hresult
        obtain ⟨rfl, rfl⟩ := hresult
        exact ⟨allKeys, requests, hlist, rfl, removed_all_iff⟩

def denied : DeleteOutcome :=
  .refused ⟨cstr "AccessDenied", by decide⟩ ⟨cstr "Access Denied", by decide⟩

theorem deleteObjects_reports_iff_removed :
    ReportsDeletion [cstr "a"]
      (deleteObjects (fun _ => .ofOutcome fun _ => .removed) (.ofKeys [cstr "a"]) [cstr "a"]) :=
  ((deleteObjects_reports_iff (fun _ => .removed)
    (fun _ => BatchDeleteCall.ofOutcome_meets _) (.ofKeys [cstr "a"])).1 [cstr "a"]).mpr
    fun _ hk _ => ⟨0, congrArg some (List.mem_singleton.mp hk).symm, rfl⟩

/-- **A refused key goes unnoticed.** The one key of the list is refused, and `delete_objects`
returns normally with the object still there. -/
theorem deleteObjects_ignores_refusal :
    (BatchDeleteCall.ofOutcome fun _ => denied).Meets (fun _ => denied) ∧
    (∃ B', deleteObjects (fun _ => .ofOutcome fun _ => denied) (.ofKeys [cstr "a"]) [cstr "a"] =
      (B', .ok ()) ∧ cstr "a" ∈ B') ∧
    ¬ ReportsDeletion [cstr "a"]
      (deleteObjects (fun _ => .ofOutcome fun _ => denied) (.ofKeys [cstr "a"]) [cstr "a"]) := by
  have hmeets := BatchDeleteCall.ofOutcome_meets fun _ => denied
  have hleft : cstr "a" ∈ (Bucket.ofKeys [cstr "a"]).remove (fun _ => denied) 0 [cstr "a"] := by
    rw [Bucket.mem_remove]
    exact ⟨by simp, fun _ _ => by decide⟩
  rw [deleteObjects_meets (fun _ => denied) (fun _ => hmeets)]
  exact ⟨hmeets, ⟨_, rfl, hleft⟩, fun hreports => hreports _ (by simp) hleft⟩

/-! ## `delete_all` -/

/-- What `delete_all` does when nothing is refused: it returns the number of keys its listing
found, all of them without the delimiter, and removes those. If no key has the delimiter, the
listing found them all. -/
theorem deleteAll_returns {storage : StorageReply} {listCalls : ℕ → ListRequest → ListReply}
    {deleteCalls : ℕ → BatchDeleteCall} {B : Bucket} (hstorage : storage.Counts)
    (hcalls : ∀ n marker, (listCalls n (listRequest [] (cstr "/") marker)).Completes)
    (hpages : ∀ n marker, (listCalls n (listRequest [] (cstr "/") marker)).Pages B
      (listRequest [] (cstr "/") marker))
    (hdelete : ∀ n, (deleteCalls n).Meets fun _ => .removed) :
    ∃ keys, Returns (deleteAll storage listCalls deleteCalls B)
        (B.remove (fun _ => .removed) 0 keys, .ok keys.length) ∧
      keys.Pairwise (· < ·) ∧ (∀ k ∈ keys, k ∈ B ∧ ¬ cstr "/" <:+: k) ∧
      ((∀ k ∈ B, ¬ cstr "/" <:+: k) → ∀ k ∈ B, k ≠ [] → k ∈ keys) := by
  obtain ⟨keys, requests, hrun, -⟩ := Scan.Run.exists (advances_default hpages) (S := B.keys)
    (fun n marker k hk => Finmap.mem_keys.mpr (mem_default_page hpages hk).1) 0 []
  obtain ⟨hseen, hall⟩ := listed_of_run hpages hrun
  have hslash : cstr "/" ≠ [] := by decide
  obtain ⟨enough, hlist⟩ : Returns (listObjectsDefault storage listCalls) (.ok (keys, requests)) :=
    listObjects_of_run_of_delimiter hslash hcalls hrun
  obtain ⟨count, hcount⟩ := getApproximateObjectCount_counts hstorage
  refine ⟨keys, ⟨enough, fun fuel hfuel => ?_⟩, (hrun.sorted (advances_default hpages)).1,
    fun k hk => ?_, fun hflat k hk hne => hall (fun _ => hflat) k hne fun _ _ => hk⟩
  · have hreturned := hlist fuel hfuel
    simp [deleteAll, hcount, hreturned, deleteObjects_meets (fun _ => .removed) hdelete]
  · obtain ⟨hdirect, n, -, hmem⟩ := hseen k hk
    exact ⟨hmem, hdirect⟩

/-- **The buckets `delete_all` empties.** When every request completes and nothing is refused,
`delete_all` returns; it leaves an empty bucket and has counted its objects exactly when no key
contains `/`. -/
theorem deleteAll_empties_iff {storage : StorageReply} {listCalls : ℕ → ListRequest → ListReply}
    {deleteCalls : ℕ → BatchDeleteCall} {B : Bucket} (hkeys : ∀ k ∈ B, k ≠ [])
    (hstorage : storage.Counts)
    (hcalls : ∀ n marker, (listCalls n (listRequest [] (cstr "/") marker)).Completes)
    (hpages : ∀ n marker, (listCalls n (listRequest [] (cstr "/") marker)).Pages B
      (listRequest [] (cstr "/") marker))
    (hdelete : ∀ n, (deleteCalls n).Meets fun _ => .removed) :
    ∃ final count, Returns (deleteAll storage listCalls deleteCalls B) (final, .ok count) ∧
      (final = ∅ ∧ count = B.keys.card ↔ ∀ k ∈ B, ¬ cstr "/" <:+: k) := by
  obtain ⟨keys, hreturns, hsorted, hlisted, hall⟩ :=
    deleteAll_returns hstorage hcalls hpages hdelete
  refine ⟨_, _, hreturns, ?_, fun hflat => ⟨?_, ?_⟩⟩
  · rintro ⟨hempty, -⟩ k hk
    -- a key that is gone was listed
    have hgone : k ∉ B.remove (fun _ => .removed) 0 keys := by
      rw [hempty]
      exact Finmap.notMem_empty
    rw [Bucket.mem_remove, not_and] at hgone
    intro hslash
    exact hgone hk fun p hp _ => (hlisted k (List.mem_of_getElem? hp)).2 hslash
  · -- every key is listed, so every key is removed
    apply Finmap.ext_lookup
    intro k
    rw [Finmap.lookup_empty, Finmap.lookup_eq_none, Bucket.mem_remove]
    rintro ⟨hk, hkept⟩
    obtain ⟨p, hp⟩ := List.mem_iff_getElem?.mp (hall hflat k hk (hkeys k hk))
    exact hkept p hp rfl
  · -- no key is listed twice
    have hsame : keys.toFinset = B.keys := by
      ext k
      rw [List.mem_toFinset, Finmap.mem_keys]
      exact ⟨fun hk => (hlisted k hk).1, fun hk => hall hflat k hk (hkeys k hk)⟩
    rw [← hsame, List.toFinset_card_of_nodup (hsorted.imp ne_of_lt)]

theorem deleteAll_empties_iff_flat :
    ∃ final count,
      Returns (deleteAll (.ofCount 2) (fun _ => (Bucket.ofKeys [cstr "a", cstr "b"]).listPage)
        (fun _ => .ofOutcome fun _ => .removed) (.ofKeys [cstr "a", cstr "b"])) (final, .ok count) ∧
      final = ∅ ∧ count = (Bucket.ofKeys [cstr "a", cstr "b"]).keys.card := by
  have hflat : ∀ k ∈ Bucket.ofKeys [cstr "a", cstr "b"], k ≠ [] ∧ ¬ cstr "/" <:+: k := by
    intro k hk
    rcases List.mem_pair.mp (Bucket.mem_ofKeys.mp hk) with rfl | rfl <;> decide
  obtain ⟨final, count, hreturns, hiff⟩ := deleteAll_empties_iff (B := .ofKeys [cstr "a", cstr "b"])
    (fun k hk => (hflat k hk).1) (StorageReply.ofCount_counts (n := 2) (by decide))
    (fun _ _ => Bucket.listPage_completes _ _)
    (fun _ _ => (Bucket.listPage_fills _ _).pages (Nat.zero_lt_succ 999))
    (fun _ => BatchDeleteCall.ofOutcome_meets _)
  exact ⟨final, count, hreturns, hiff.mpr fun k hk => (hflat k hk).2⟩

/-- **`delete_all` misses nested keys.** The only object of the bucket is `a/b`; nothing is
deleted, and the call returns 0. -/
theorem deleteAll_misses_nested :
    ∃ final, Returns (deleteAll (.ofCount 1) (fun _ => (Bucket.ofKeys [cstr "a/b"]).listPage)
        (fun _ => .ofOutcome fun _ => .removed) (.ofKeys [cstr "a/b"])) (final, .ok 0) ∧
      cstr "a/b" ∈ final ∧ (Bucket.ofKeys [cstr "a/b"]).keys.card = 1 := by
  obtain ⟨keys, hreturns, -, hlisted, -⟩ := deleteAll_returns (B := .ofKeys [cstr "a/b"])
    (StorageReply.ofCount_counts (n := 1) (by decide)) (fun _ _ => Bucket.listPage_completes _ _)
    (fun _ _ => (Bucket.listPage_fills _ _).pages (Nat.zero_lt_succ 999))
    (fun _ => BatchDeleteCall.ofOutcome_meets _)
  have hnone : keys = [] := by
    apply List.eq_nil_iff_forall_not_mem.mpr
    intro k hk
    obtain ⟨hmem, hflat⟩ := hlisted k hk
    obtain rfl := List.mem_singleton.mp (Bucket.mem_ofKeys.mp hmem)
    exact hflat (by decide)
  rw [hnone] at hreturns
  exact ⟨_, hreturns, Bucket.mem_ofKeys.mpr (by simp), by decide⟩

end ObsBench
