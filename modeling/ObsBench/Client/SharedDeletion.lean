import ObsBench.Client.DeletionBatches
import ObsBench.Client.DeletionService
import ObsBench.Lib.History

/-!
# `delete_all` among other writers

`delete_all` lists the bucket page by page and then deletes what it has listed batch by batch.
Between any two of these requests other clients may put and delete what they want. Nothing protects
an object that is put in the meantime: it goes if its key was listed, however new it is, and it
stays if its key was not.

* **`lookup_submitBatches`**: what a key holds after some batches.
* **`deleteAll_among_writers`**: what `delete_all` does to a bucket that others write to.
-/

namespace ObsBench

open History

/-- A batch deletion in front of which other clients write. -/
def BatchDeleteCall.behind (call : BatchDeleteCall) (writes : List (Write CString Bytes)) :
    BatchDeleteCall where
  serve B keys := call.serve (applyAll B writes) keys

/-! ## The batches -/

/-- The key went with one of the batches sent off; what it holds was put there after that. -/
def Deleted (writes : ℕ → List (Write CString Bytes)) (batches : List (List CString)) (n sent : ℕ)
    (k : CString) (held : Option Bytes) : Prop :=
  ∃ b batch, b < sent ∧ batches[b]? = some batch ∧ k ∈ batch ∧
    held = after k none (between writes (n + b + 1) (n + sent))

/-- A batch behind other writers' requests works on the bucket they left. -/
theorem batchDeleteObjects_behind {call : BatchDeleteCall} {batch : List CString}
    (hsize : 0 < batch.length ∧ batch.length ≤ 1000) (writes : List (Write CString Bytes))
    (B : Bucket) :
    batchDeleteObjects (call.behind writes) B batch =
      batchDeleteObjects call (applyAll B writes) batch := by
  rw [batchDeleteObjects_eq _ _ hsize.1 hsize.2, batchDeleteObjects_eq _ _ hsize.1 hsize.2]
  rfl

/-- A batch in front only moves the numbers of the requests behind it. -/
theorem Deleted.cons {writes : ℕ → List (Write CString Bytes)} {batches : List (List CString)}
    {n sent : ℕ} {k : CString} {held : Option Bytes}
    (h : Deleted writes batches (n + 1) sent k held) (batch : List CString) :
    Deleted writes (batch :: batches) n (sent + 1) k held := by
  obtain ⟨b, batch', hlt, hbatch, hk, hheld⟩ := h
  refine ⟨b + 1, batch', by omega, hbatch, hk, ?_⟩
  rw [hheld, show n + 1 + b + 1 = n + (b + 1) + 1 by omega,
    show n + 1 + sent = n + (sent + 1) by omega]

/-- A key of the first batch holds what was written behind that batch. -/
theorem Deleted.head {writes : ℕ → List (Write CString Bytes)} {batch : List CString}
    {n sent : ℕ} {k : CString} {held : Option Bytes} (hk : k ∈ batch)
    (hheld : held = after k none (between writes (n + 1) (n + 1 + sent)))
    (rest : List (List CString)) : Deleted writes (batch :: rest) n (sent + 1) k held := by
  refine ⟨0, batch, Nat.succ_pos sent, rfl, hk, ?_⟩
  rw [hheld, Nat.add_zero, show n + 1 + sent = n + (sent + 1) by omega]

/-- **What a key holds after some batches**, the first of which is request `n`. Induction on the
batches: a key that the first batch takes starts again from nothing. -/
theorem lookup_submitBatches {calls : ℕ → BatchDeleteCall} (hcalls : ∀ n, (calls n).KeepsOthers)
    (writes : ℕ → List (Write CString Bytes)) {n : ℕ} {batches : List (List CString)}
    (hsize : ∀ batch ∈ batches, 0 < batch.length ∧ batch.length ≤ 1000) {B B' : Bucket}
    {result : Except Failure Unit}
    (h : (submitBatches (fun n => (calls n).behind (writes n)) n batches B).2 = (B', result)) :
    ∃ sent, (result = .ok () → sent = batches.length) ∧ ∀ k,
      (B'.lookup k = after k (B.lookup k) (between writes n (n + sent)) ∨
        Deleted writes batches n sent k (B'.lookup k)) ∧
      (result = .ok () → (∀ n, (calls n).RefusesNone) → k ∈ batches.flatten →
        Deleted writes batches n sent k (B'.lookup k)) := by
  induction batches generalizing n B with
  | nil =>
    obtain ⟨rfl, rfl⟩ := Prod.mk.inj h
    refine ⟨0, fun _ => rfl, fun k => ⟨.inl ?_, fun _ _ hk => absurd hk List.not_mem_nil⟩⟩
    rw [Nat.add_zero, between_self]
    rfl
  | cons batch rest ih =>
    have hbatch := hsize batch (List.mem_cons_self ..)
    have hsubmit : submitBatches (fun n => (calls n).behind (writes n)) n (batch :: rest) B =
        (_, B', result) := Prod.ext rfl h
    rcases submitBatches_cons_cases hsubmit with hthrows | hreturns
    · -- the first batch throws: the writes in front of it are the last ones
      obtain ⟨e, hfirst, rfl, -⟩ := hthrows
      rw [batchDeleteObjects_behind hbatch] at hfirst
      refine ⟨1, nofun, fun k => ⟨?_, nofun⟩⟩
      have hkept := lookup_batchDeleteObjects (hcalls n) hfirst k
      rw [lookup_applyAll] at hkept
      refine hkept.imp (fun hsame => ?_) fun hgone => .head hgone.1 ?_ rest
      · rw [hsame, between_of_lt _ (Nat.lt_succ_self n), between_self, List.append_nil]
      · rw [hgone.2, Nat.add_zero, between_self]
        rfl
    · -- it returns: the induction goes on from the bucket it left
      obtain ⟨B₁, later, hfirst, hrest, -⟩ := hreturns
      rw [batchDeleteObjects_behind hbatch] at hfirst
      obtain ⟨sent, hall, hkeys⟩ :=
        ih (fun b hb => hsize b (List.mem_cons_of_mem _ hb)) (congrArg Prod.snd hrest)
      refine ⟨sent + 1, fun hok => by simpa using hall hok, fun k => ?_⟩
      have hkept := lookup_batchDeleteObjects (hcalls n) hfirst k
      obtain ⟨hlater, hdeleted⟩ := hkeys k
      rw [lookup_applyAll] at hkept
      -- a key that goes with this batch holds what was written behind it, or goes again later
      have hfirstGone : k ∈ batch → B₁.lookup k = none →
          Deleted writes (batch :: rest) n (sent + 1) k (B'.lookup k) := by
        intro hk hgone
        rcases hlater with hsame | hdel
        · exact .head hk (by rw [hsame, hgone]) rest
        · exact hdel.cons batch
      refine ⟨?_, fun hok hnone hk => ?_⟩
      · rcases hkept with hsame | hgone
        · refine hlater.imp (fun hlast => ?_) fun hdel => hdel.cons batch
          rw [hlast, hsame, ← after_append, between_of_lt writes (show n < n + (sent + 1) by omega),
            show n + 1 + sent = n + (sent + 1) by omega]
        · exact .inr (hfirstGone hgone.1 hgone.2)
      · rcases List.mem_append.mp hk with hhere | hthere
        · have hgone : B₁.lookup k = none := lookup_batchDeleteObjects_of_ok (hnone n) hfirst hhere
          exact hfirstGone hhere hgone
        · exact (hdeleted hok hnone hthere).cons batch

/-! ## The whole operation -/

/-- The bucket that page request `n` meets. -/
def bucketAt (B : Bucket) (writes : ℕ → List (Write CString Bytes)) (n : ℕ) : Bucket :=
  applyAll B (between writes 0 (n + 1))

/-- `delete_all` is the default listing and the deletion of what it returned. -/
theorem deleteAll_of_listed {storage : StorageReply} (hstorage : storage.Counts)
    {listCalls : ℕ → ListRequest → ListReply} {fuel requests : ℕ} {keys : List CString}
    (hlist : listObjectsDefault storage listCalls fuel = some (.ok (keys, requests)))
    {calls : ℕ → BatchDeleteCall} {B B' : Bucket}
    (hdelete : deleteObjects calls B keys = (B', .ok ())) :
    deleteAll storage listCalls calls B fuel = some (B', .ok keys.length) := by
  obtain ⟨count, hcount⟩ := getApproximateObjectCount_counts hstorage
  rw [deleteAll, hcount]
  dsimp only
  rw [hlist, Option.map_some]
  dsimp only
  rw [hdelete]

/-- **`delete_all` among other writers.** Others write `listing n` in front of page request `n` and
`deleting b` in front of batch `b`, and a batch may also fail. `delete_all` lists keys it has seen
in the bucket, none of them nested, and if none is nested, all keys that stayed there. A key that
was not deleted holds what the others left under it; a key that was deleted holds what they put
after its batch. When `delete_all` returns, it has sent off all batches and counts the keys it
listed; and if no batch refuses a key, it has deleted all of them. -/
theorem deleteAll_among_writers {storage : StorageReply}
    {listCalls : ℕ → ListRequest → ListReply} {calls : ℕ → BatchDeleteCall}
    (hcalls : ∀ n, (calls n).KeepsOthers) {B : Bucket}
    {listing deleting : ℕ → List (Write CString Bytes)}
    (hpages : ∀ n marker, (listCalls n (listRequest [] (cstr "/") marker)).Pages
      (bucketAt B listing n) (listRequest [] (cstr "/") marker))
    {fuel requests : ℕ} {keys : List CString}
    (hlist : listObjectsDefault storage listCalls fuel = some (.ok (keys, requests)))
    {B' : Bucket} {result : Except Failure ℕ}
    (h : deleteAll storage listCalls (fun n => (calls n).behind (deleting n))
      (applyAll B (between listing 0 requests)) fuel = some (B', result)) :
    (∀ k ∈ keys, ¬ cstr "/" <:+: k ∧ ∃ n, n < requests ∧ k ∈ bucketAt B listing n) ∧
    ((∀ n, ∀ k ∈ bucketAt B listing n, ¬ cstr "/" <:+: k) →
      ∀ k, k ≠ [] → (∀ n, n < requests → k ∈ bucketAt B listing n) → k ∈ keys) ∧
    ∃ sent,
      (∀ k, B'.lookup k =
          after k (B.lookup k) (between listing 0 requests ++ between deleting 0 sent) ∨
        Deleted deleting (Batches.batches 1000 keys) 0 sent k (B'.lookup k)) ∧
      ∀ count, result = .ok count →
        count = keys.length ∧ sent = (Batches.batches 1000 keys).length ∧
        ((∀ n, (calls n).RefusesNone) →
          ∀ k ∈ keys, Deleted deleting (Batches.batches 1000 keys) 0 sent k (B'.lookup k)) := by
  obtain ⟨hseen, hall⟩ := listed_of_run hpages (run_of_listObjects hlist)
  refine ⟨hseen, hall, ?_⟩
  unfold deleteAll at h
  split at h
  · -- the statistics fail, and nothing is deleted
    obtain ⟨rfl, rfl⟩ := Prod.mk.inj (Option.some.inj h)
    refine ⟨0, fun k => .inl ?_, nofun⟩
    rw [lookup_applyAll, between_self, List.append_nil]
  · rw [hlist, Option.map_some, Option.some.injEq] at h
    have hcut := deletionBatches keys
    dsimp only at h
    cases hdelete : deleteObjects (fun n => (calls n).behind (deleting n))
        (applyAll B (between listing 0 requests)) keys with
    | mk last deleted =>
      rw [hdelete] at h
      rw [deleteObjects_eq] at hdelete
      obtain ⟨sent, hall, hkeys⟩ := lookup_submitBatches hcalls deleting hcut.size hdelete
      simp only [Nat.zero_add, lookup_applyAll, ← after_append, hcut.flatten] at hkeys
      cases deleted with
      | error e =>
        obtain ⟨rfl, rfl⟩ := Prod.mk.inj h
        exact ⟨sent, fun k => (hkeys k).1, nofun⟩
      | ok u =>
        obtain ⟨rfl, rfl⟩ := Prod.mk.inj h
        refine ⟨sent, fun k => (hkeys k).1, fun count hcount => ?_⟩
        cases hcount
        exact ⟨rfl, hall rfl, fun hnone k => (hkeys k).2 rfl hnone⟩

/-- Puts to the listed key `a` and to another key, in front of the one batch. -/
def lateWrites (n : ℕ) : List (Write CString Bytes) :=
  if n = 0 then [.put (cstr "a") (text "new"), .put (cstr "b") (text "new")] else []

theorem deleteAll_among_writers_late :
    ∃ fuel B', deleteAll (.ofCount 1) (fun _ => (Bucket.ofKeys [cstr "a"]).listPage)
        (fun n => (BatchDeleteCall.ofOutcome fun _ => .removed).behind (lateWrites n))
        (.ofKeys [cstr "a"]) fuel = some (B', .ok 1) ∧
      B'.lookup (cstr "a") = none ∧ B'.lookup (cstr "b") = some (text "new") := by
  have hfirst : shownPage (fun _ => (Bucket.ofKeys [cstr "a"]).listPage) [] (cstr "/") 0 [] =
      [cstr "a"] := by
    decide +kernel
  have hsecond : shownPage (fun _ => (Bucket.ofKeys [cstr "a"]).listPage) [] (cstr "/") (0 + 1)
      (cstr "a") = [] := by
    decide +kernel
  have hrun := Scan.Run.more (congrArg List.getLast? hfirst)
    (.stop (congrArg List.getLast? hsecond))
  rw [hfirst, List.append_nil] at hrun
  have hstorage := StorageReply.ofCount_counts (show 1 < 2 ^ 64 by decide)
  obtain ⟨fuel, hlist⟩ : Returns (listObjectsDefault (.ofCount 1)
      (fun _ => (Bucket.ofKeys [cstr "a"]).listPage)) (.ok ([cstr "a"], 2)) :=
    listObjects_of_run_of_delimiter (by decide) (fun _ _ => Bucket.listPage_completes _ _) hrun
  have hlisted := hlist fuel le_rfl
  obtain ⟨B', hdelete⟩ : ∃ B', deleteObjects
      (fun n => (BatchDeleteCall.ofOutcome fun _ => .removed).behind (lateWrites n))
      (.ofKeys [cstr "a"]) [cstr "a"] = (B', .ok ()) := ⟨_, rfl⟩
  have hreturn := deleteAll_of_listed hstorage hlisted hdelete
  have hquiet : ∀ n, bucketAt (.ofKeys [cstr "a"]) (fun _ => []) n = .ofKeys [cstr "a"] := by
    intro n
    have hnone : between (fun _ => ([] : List (Write CString Bytes))) 0 (n + 1) = [] :=
      List.flatMap_eq_nil_iff.mpr fun _ _ => rfl
    rw [bucketAt, hnone]
    rfl
  have hpages : ∀ n marker, ((Bucket.ofKeys [cstr "a"]).listPage
      (listRequest [] (cstr "/") marker)).Pages (bucketAt (.ofKeys [cstr "a"]) (fun _ => []) n)
      (listRequest [] (cstr "/") marker) := by
    intro n marker
    rw [hquiet]
    exact (Bucket.listPage_fills _ _).pages (Nat.zero_lt_succ 999)
  obtain ⟨-, -, sent, hkept, hok⟩ := @deleteAll_among_writers (.ofCount 1)
    (fun _ => (Bucket.ofKeys [cstr "a"]).listPage)
    (fun _ => .ofOutcome fun _ => .removed)
    (fun _ => (BatchDeleteCall.ofOutcome_meets _).keepsOthers) (.ofKeys [cstr "a"])
    (fun _ => []) lateWrites hpages fuel 2 [cstr "a"] hlisted B' (.ok 1) hreturn
  obtain ⟨-, hsent, hgone⟩ := hok 1 rfl
  replace hgone := hgone fun _ => (BatchDeleteCall.ofOutcome_meets _).refusesNone
  have hbatches : Batches.batches 1000 [cstr "a"] = [[cstr "a"]] := rfl
  rw [hbatches] at hsent hgone hkept
  subst hsent
  refine ⟨fuel, B', hreturn, ?_, ?_⟩
  · -- nothing is put behind the one batch
    obtain ⟨b, batch, hlt, -, -, hheld⟩ := hgone (cstr "a") (List.mem_singleton_self _)
    obtain rfl : b = 0 := by
      rw [List.length_singleton] at hlt
      omega
    exact hheld.trans rfl
  · rcases hkept (cstr "b") with hsame | hdeleted
    · rw [hsame]
      decide +kernel
    · obtain ⟨b, batch, hlt, hbatch, hmem, -⟩ := hdeleted
      obtain rfl : b = 0 := by
        rw [List.length_singleton] at hlt
        omega
      obtain rfl : batch = [cstr "a"] := (Option.some.inj hbatch).symm
      exact absurd hmem (by decide +kernel)

end ObsBench
