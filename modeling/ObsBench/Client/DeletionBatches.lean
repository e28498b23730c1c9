import ObsBench.Client.Deletion

/-!
# Batches of a deletion

`delete_objects` cuts its list where the loop index says so, once at every thousandth key and
once at the last. This module says which batches come out, how many of them are sent off before
one throws, and that they do together what deleting the keys one by one does.

* **`submitBatches_of_throwsAt`**: a batch that throws is the last one sent off.
* **`deleteObjects_batches`**: the batches of a list, and the runs that submit them.
-/

namespace ObsBench

/-! ## How many batches are sent off -/

/-- A submission ends at its first batch, or goes on behind it. -/
theorem submitBatches_cons_cases {calls : ℕ → BatchDeleteCall} {n : ℕ} {batch : List CString}
    {rest sent : List (List CString)} {B B' : Bucket} {result : Except Failure Unit}
    (h : submitBatches calls n (batch :: rest) B = (sent, B', result)) :
    (∃ e, batchDeleteObjects (calls n) B batch = (B', .error e) ∧ result = .error e ∧
      sent = [batch]) ∨
    ∃ B₁ later, batchDeleteObjects (calls n) B batch = (B₁, .ok ()) ∧
      submitBatches calls (n + 1) rest B₁ = (later, B', result) ∧ sent = batch :: later := by
  rw [submitBatches] at h
  cases hfirst : batchDeleteObjects (calls n) B batch with
  | mk B₁ first =>
    rw [hfirst] at h
    cases first with
    | error e =>
      cases h
      exact .inl ⟨e, rfl, rfl, rfl⟩
    | ok u =>
      obtain ⟨hsent, hrest⟩ := Prod.mk.inj h
      exact .inr ⟨B₁, _, rfl, Prod.ext rfl hrest, hsent.symm⟩

/-- A submission that returns has sent off all its batches, and what comes behind them is sent off
next. Induction on the batches. -/
theorem submitBatches_append (calls : ℕ → BatchDeleteCall) {n : ℕ}
    {front sent : List (List CString)} {B B' : Bucket}
    (h : submitBatches calls n front B = (sent, B', .ok ())) (back : List (List CString)) :
    sent = front ∧ submitBatches calls n (front ++ back) B =
      (front ++ (submitBatches calls (n + front.length) back B').1,
        (submitBatches calls (n + front.length) back B').2) := by
  induction front generalizing n B sent with
  | nil =>
    cases h
    exact ⟨rfl, rfl⟩
  | cons batch rest ih =>
    rcases submitBatches_cons_cases h with hthrows | hreturns
    · obtain ⟨e, -, herror, -⟩ := hthrows
      exact absurd herror (by simp)
    · obtain ⟨B₁, later, hfirst, hrest, rfl⟩ := hreturns
      obtain ⟨rfl, hback⟩ := ih hrest
      rw [List.cons_append, submitBatches, hfirst, List.length_cons,
        show n + (later.length + 1) = n + 1 + later.length by omega]
      dsimp only
      rw [hback]
      exact ⟨rfl, rfl⟩

/-- Batch `b` throws: those before it have returned. -/
def ThrowsAt (calls : ℕ → BatchDeleteCall) (B : Bucket) (batches : List (List CString)) (b : ℕ)
    (B' : Bucket) (e : Failure) : Prop :=
  ∃ batch Bb, batches[b]? = some batch ∧
    (submitBatches calls 0 (batches.take b) B).2 = (Bb, .ok ()) ∧
    batchDeleteObjects (calls b) Bb batch = (B', .error e)

/-- **A batch that throws is the last one sent off.** -/
theorem submitBatches_of_throwsAt {calls : ℕ → BatchDeleteCall} {batches : List (List CString)}
    {b : ℕ} {B B' : Bucket} {e : Failure} (h : ThrowsAt calls B batches b B' e) :
    submitBatches calls 0 batches B = (batches.take (b + 1), B', .error e) := by
  obtain ⟨batch, Bb, hbatch, hbefore, herror⟩ := h
  obtain ⟨hlt, hget⟩ := List.getElem?_eq_some_iff.mp hbatch
  have hlength : 0 + (batches.take b).length = b := by
    rw [List.length_take]
    omega
  have hsplit : batches = batches.take b ++ batch :: batches.drop (b + 1) := by
    rw [← hget, List.getElem_cons_drop, List.take_append_drop]
  obtain ⟨-, hresult⟩ :=
    submitBatches_append calls (Prod.ext rfl hbefore) (batch :: batches.drop (b + 1))
  rw [← hsplit, hlength] at hresult
  rw [hresult, submitBatches, herror, List.take_add_one, hbatch]
  rfl

/-- `delete_objects` returns only when every batch has been sent. -/
theorem sent_of_ok {calls : ℕ → BatchDeleteCall} {n : ℕ} {batches : List (List CString)}
    {B B' : Bucket} (h : (submitBatches calls n batches B).2 = (B', .ok ())) :
    (submitBatches calls n batches B).1 = batches :=
  (submitBatches_append calls (Prod.ext rfl h) []).1

/-- A submission that does not return has met a batch that throws. Induction on the batches. -/
theorem exists_throws_of_submitBatches {calls : ℕ → BatchDeleteCall} {n : ℕ}
    {batches sent : List (List CString)} {B B' : Bucket} {e : Failure}
    (h : submitBatches calls n batches B = (sent, B', .error e)) :
    ∃ b batch Bb, batches[b]? = some batch ∧
      (submitBatches calls n (batches.take b) B).2 = (Bb, .ok ()) ∧
      batchDeleteObjects (calls (n + b)) Bb batch = (B', .error e) := by
  induction batches generalizing n B sent with
  | nil => cases h
  | cons batch rest ih =>
    rcases submitBatches_cons_cases h with hthrows | hreturns
    · obtain ⟨e', hfirst, herror, -⟩ := hthrows
      rw [← Except.error.inj herror] at hfirst
      exact ⟨0, batch, B, rfl, rfl, hfirst⟩
    · obtain ⟨B₁, later, hfirst, hrest, -⟩ := hreturns
      obtain ⟨b, batch', Bb, hget, hbefore, herror⟩ := ih hrest
      refine ⟨b + 1, batch', Bb, hget, ?_, ?_⟩
      · rw [List.take_succ_cons, submitBatches, hfirst]
        exact hbefore
      · -- request `b` of the rest is request `b + 1` of the whole
        rw [show n + (b + 1) = n + 1 + b by omega]
        exact herror

/-! ## One by one -/

/-- Calls `delete_object` on each key in turn, until a call throws. -/
def deleteEach (calls : ℕ → DeleteCall) :
    ℕ → Bucket → List StringView → Bucket × Except Failure Unit
  | _, B, [] => (B, .ok ())
  | n, B, key :: rest =>
    match deleteObject (calls n) B key with
    | (B', .error e) => (B', .error e)
    | (B', .ok ()) => deleteEach calls (n + 1) B' rest

/-- A served single deletion erases its key and returns. -/
theorem deleteObject_meets {call : DeleteCall} (h : call.Meets) (B : Bucket) {key : StringView}
    {k : CString} (hkey : key.Reads k) : deleteObject call B key = (B.erase k, .ok ()) := by
  obtain ⟨hbucket, ⟨p, hp⟩, hstatus⟩ := h B k
  rw [deleteObject_eq call B hkey, hbucket, deletionResult, hp, hstatus]
  rfl

/-- Deleting keys that can be read, one by one, removes them. Induction on the keys. -/
theorem deleteEach_meets {calls : ℕ → DeleteCall} (h : ∀ n, (calls n).Meets) (n i : ℕ) (B : Bucket)
    {views : List StringView} {keys : List CString}
    (hviews : views.map StringView.cString = keys.map some) :
    deleteEach calls n B views = (B.remove (fun _ => .removed) i keys, .ok ()) := by
  induction views generalizing n i B keys with
  | nil =>
    obtain rfl := List.map_eq_nil_iff.mp hviews.symm
    rfl
  | cons view rest ih =>
    obtain ⟨key, keys, rfl, hkey, hrest⟩ := List.map_eq_cons_iff.mp hviews.symm
    have hreads : view.Reads key := readCString_eq_some_iff.mp hkey.symm
    rw [deleteEach, deleteObject_meets (h n) B hreads]
    show deleteEach calls (n + 1) (B.erase key) rest = _
    rw [ih (n + 1) (i + 1) (B.erase key) hrest.symm, Bucket.remove, if_pos rfl]

/-- A batch that returns was a request that completed. -/
theorem bucket_of_batchDeleteObjects {call : BatchDeleteCall} (h : call.RefusesNone)
    {B B' : Bucket} {keys : List CString} (hpos : 0 < keys.length) (hmax : keys.length ≤ 1000)
    (hreturn : batchDeleteObjects call B keys = (B', .ok ())) :
    B' = B.remove (fun _ => .removed) 0 keys := by
  rw [batchDeleteObjects_eq call B hpos hmax] at hreturn
  obtain ⟨hbucket, hresult⟩ := Prod.mk.inj hreturn
  rw [← hbucket, h B keys (status_of_deletionResult hresult)]

/-- A batch deletion touches no key outside its batch. -/
theorem lookup_batchDeleteObjects {call : BatchDeleteCall} (hcall : call.KeepsOthers)
    {B B' : Bucket} {batch : List CString} {result : Except Failure Unit}
    (h : batchDeleteObjects call B batch = (B', result)) (k : CString) :
    B'.lookup k = B.lookup k ∨ k ∈ batch ∧ B'.lookup k = none := by
  by_cases hsize : 0 < batch.length ∧ batch.length ≤ 1000
  · rw [batchDeleteObjects_eq call B hsize.1 hsize.2, Prod.mk.injEq] at h
    obtain ⟨outcome, houtcome⟩ := hcall B batch
    rw [← h.1, houtcome]
    by_cases hremoved : ∃ i, batch[i]? = some k ∧ outcome (0 + i) = .removed
    · obtain ⟨i, hi, hout⟩ := hremoved
      exact .inr ⟨List.mem_of_getElem? hi, Bucket.lookup_remove_of_removed hi hout B⟩
    · refine .inl (Bucket.lookup_remove_of_not_removed (fun i hi hout => ?_) B)
      exact hremoved ⟨i, hi, hout⟩
  · -- the assertion fails
    rw [batchDeleteObjects, if_neg hsize, Prod.mk.injEq] at h
    rw [h.1]
    exact .inl rfl

/-- What a batch that returns was given is gone, if no key was refused. -/
theorem lookup_batchDeleteObjects_of_ok {call : BatchDeleteCall} (hcall : call.RefusesNone)
    {B B' : Bucket} {batch : List CString} (h : batchDeleteObjects call B batch = (B', .ok ()))
    {k : CString} (hk : k ∈ batch) : B'.lookup k = none := by
  by_cases hsize : 0 < batch.length ∧ batch.length ≤ 1000
  · obtain ⟨i, hi⟩ := List.mem_iff_getElem?.mp hk
    rw [bucket_of_batchDeleteObjects hcall hsize.1 hsize.2 h]
    exact Bucket.lookup_remove_of_removed hi rfl B
  · rw [batchDeleteObjects, if_neg hsize] at h
    cases h

/-- The batches that return remove what they were given. Induction on the batches. -/
theorem bucket_of_submitBatches {calls : ℕ → BatchDeleteCall} (h : ∀ n, (calls n).RefusesNone)
    {n : ℕ} {batches sent : List (List CString)} {B B' : Bucket}
    (hsize : ∀ batch ∈ batches, 0 < batch.length ∧ batch.length ≤ 1000)
    (hreturn : submitBatches calls n batches B = (sent, B', .ok ())) :
    B' = B.remove (fun _ => .removed) 0 batches.flatten := by
  induction batches generalizing n B sent with
  | nil =>
    cases hreturn
    rfl
  | cons batch rest ih =>
    rcases submitBatches_cons_cases hreturn with hthrows | hreturns
    · obtain ⟨e, -, herror, -⟩ := hthrows
      exact absurd herror (by simp)
    · obtain ⟨B₁, later, hfirst, hrest, -⟩ := hreturns
      obtain ⟨hpos, hmax⟩ := hsize batch (List.mem_cons_self ..)
      have hB₁ := bucket_of_batchDeleteObjects (h n) hpos hmax hfirst
      rw [ih (fun b hb => hsize b (List.mem_cons_of_mem _ hb)) hrest, hB₁, List.flatten_cons,
        Bucket.remove_append]
      -- nothing is refused, so the positions in the list do not matter
      exact Bucket.remove_shift _ (fun _ => .removed) (0 + batch.length) 0 _

/-- No batch of an admissible size runs into the assertion. -/
theorem submitBatches_ne_abort {calls : ℕ → BatchDeleteCall} {batches : List (List CString)}
    (hsize : ∀ batch ∈ batches, 0 < batch.length ∧ batch.length ≤ 1000) (n : ℕ) (B : Bucket) :
    (submitBatches calls n batches B).2.2 ≠ .error .abort := by
  rcases hsubmit : submitBatches calls n batches B with ⟨sent, B', result⟩
  cases result with
  | ok u => simp
  | error e =>
    obtain ⟨b, batch, Bb, hget, -, herror⟩ := exists_throws_of_submitBatches hsubmit
    obtain ⟨hpos, hmax⟩ := hsize batch (List.mem_of_getElem? hget)
    rw [batchDeleteObjects_eq _ _ hpos hmax] at herror
    intro habort
    exact deletionResult_ne_abort _ _ ((Prod.mk.inj herror).2.trans habort)

/-! ## The batches of a list -/

/-- A thousand keys in each batch, except that the last one may be shorter. -/
structure DeletionBatches (keys : List CString) (batches : List (List CString)) : Prop where
  flatten : batches.flatten = keys
  length : batches.length = (keys.length + 999) / 1000
  size : ∀ batch ∈ batches, 0 < batch.length ∧ batch.length ≤ 1000
  full : ∀ b batch, batches[b]? = some batch → b + 1 < batches.length → batch.length = 1000

/-- The batches of `delete_objects` are those of its key list, in thousands. -/
theorem deletionBatches (keys : List CString) :
    DeletionBatches keys (Batches.batches 1000 keys) where
  flatten := Batches.flatten_batches (Nat.zero_lt_succ 999) keys
  length := Batches.length_batches (Nat.zero_lt_succ 999) keys
  size _ h := Batches.length_of_mem_batches (Nat.zero_lt_succ 999) h
  full _ _ h hb := Batches.length_of_getElem?_batches (Nat.zero_lt_succ 999) h hb

/-- **The batches of `delete_objects`.** A list has its batches whatever the service does. The
assertion on their size never fires; a run that returns has submitted all of them; a run that
does not has met a batch that throws, and that batch ends what is submitted. If no batch throws
and no key is refused, the bucket is the one that deleting the keys one by one leaves. -/
theorem deleteObjects_batches (keys : List CString) :
    ∃ batches, DeletionBatches keys batches ∧ ∀ (calls : ℕ → BatchDeleteCall) (B B' : Bucket),
      (deleteObjects calls B keys).2 ≠ .error .abort ∧
      (deleteObjects calls B keys = (B', .ok ()) → deleteObjectsCalls calls B keys = batches) ∧
      (∀ e, deleteObjects calls B keys = (B', .error e) ↔ ∃ b, ThrowsAt calls B batches b B' e) ∧
      (∀ b e, ThrowsAt calls B batches b B' e →
        deleteObjectsCalls calls B keys = batches.take (b + 1) ∧
        (deleteObjectsCalls calls B keys).flatten =
          keys.take (min keys.length (1000 * (b + 1)))) ∧
      ∀ (singles : ℕ → DeleteCall) (views : List StringView), (∀ n, (calls n).RefusesNone) →
        (∀ n, (singles n).Meets) → views.map StringView.cString = keys.map some →
        deleteObjects calls B keys = (B', .ok ()) →
        deleteEach singles 0 B views = (B', .ok ()) := by
  have hcut := deletionBatches keys
  refine ⟨Batches.batches 1000 keys, hcut, fun calls B B' => ?_⟩
  -- from here on the loop is a submission of the batches
  rw [deleteObjects_eq, deleteObjectsCalls_eq]
  refine ⟨submitBatches_ne_abort hcut.size 0 B, sent_of_ok, fun e => ⟨fun herror => ?_,
    fun hthrows => ?_⟩, fun b e hthrows => ?_, fun singles views hnone hsingles hviews hok => ?_⟩
  · obtain ⟨b, batch, Bb, hbatch, hbefore, hb⟩ :=
      exists_throws_of_submitBatches (Prod.ext rfl herror)
    rw [Nat.zero_add] at hb
    exact ⟨b, batch, Bb, hbatch, hbefore, hb⟩
  · obtain ⟨b, hb⟩ := hthrows
    exact congrArg Prod.snd (submitBatches_of_throwsAt hb)
  · have hlog := congrArg Prod.fst (submitBatches_of_throwsAt hthrows)
    refine ⟨hlog, ?_⟩
    -- the first `b + 1` batches hold a thousand keys each, as far as there are keys
    rw [hlog, Batches.flatten_take_batches (Nat.zero_lt_succ 999), Nat.min_comm,
      List.take_eq_take_min]
  · -- both runs remove every key of the list
    have hbucket := bucket_of_submitBatches hnone hcut.size (Prod.ext rfl hok)
    rw [deleteEach_meets hsingles 0 0 B hviews, hbucket, hcut.flatten]

/-- A list with a duplicate, whose one batch returns. -/
theorem deleteObjects_batches_duplicate :
    ∃ B', deleteObjects (fun _ => .ofOutcome fun _ => .removed) (.ofKeys [cstr "a", cstr "b"])
        [cstr "a", cstr "a"] = (B', .ok ()) ∧
      deleteEach (fun _ => .erase) 0 (.ofKeys [cstr "a", cstr "b"])
        [.ofString (text "a"), .ofString (text "a")] = (B', .ok ()) := by
  obtain ⟨batches, -, hruns⟩ := deleteObjects_batches [cstr "a", cstr "a"]
  have hmeets := BatchDeleteCall.ofOutcome_meets fun _ => .removed
  refine ⟨_, deleteObjects_meets (fun _ => .removed) (fun _ => hmeets) _ _, ?_⟩
  exact (hruns (fun _ => .ofOutcome fun _ => .removed) _ _).2.2.2.2 _ _
    (fun _ B keys _ => (hmeets B keys).1) (fun _ => DeleteCall.erase_meets) (by decide)
    (deleteObjects_meets (fun _ => .removed) (fun _ => hmeets) _ _)

end ObsBench
