import ObsBench.Client.Listing
import ObsBench.Lib.Batches
import ObsBench.Service.Deletion

/-!
# Deletions

Single objects are deleted by one request, lists of them by one request for every thousand
keys, and `delete_all` feeds a listing into the latter. In all of them the callback data starts
uninitialised and an error is thrown unless the completion callback got `OBS_STATUS_OK`. What
the data callback is told about single keys is dropped.

The keys of a list go out as `c_str()`, so they are C strings here: what a `std::string` holds
behind a NUL is not sent.

* **`deleteObjects_eq`**: the loop with its flush condition submits the batches of the list.
* **`deleteObjects_meets`**: what `delete_objects` does when every request completes.
-/

namespace ObsBench

/-- `HuaweiCloudObs::delete_object`. -/
def deleteObject (call : DeleteCall) (B : Bucket) (key : StringView) :
    Bucket × Except Failure Unit :=
  match key.cString with
  | none => (B, .error .undefinedBehaviour)
  | some k =>
    let (B', reply) := call.serve B k
    (B', do
      let data ← ObjectCallbackData.finish reply {}
      if data.common.retStatus ≠ .OK then
        .error (.exception (thrownError (text "Error in delete_object, key: " ++ key.chars)
          data.common.retStatus data.common.errorDetails))
      else return ())

def batchDeleteObjectsMessage (size : ℕ) : Bytes :=
  text "Error in batch_delete_objects, all: " ++ (decimal size).bytes

/-- `HuaweiCloudObs::batch_delete_objects`. -/
def batchDeleteObjects (call : BatchDeleteCall) (B : Bucket) (keys : List CString) :
    Bucket × Except Failure Unit :=
  -- the `ASSERT` on the number of keys
  if 0 < keys.length ∧ keys.length ≤ 1000 then
    let (B', reply) := call.serve B keys
    (B', do
      let data ← (deleteObjectsDataCallback reply.results {}).finish reply.toReply
      if data.common.retStatus ≠ .OK then
        .error (.exception (thrownError (batchDeleteObjectsMessage keys.length)
          data.common.retStatus data.common.errorDetails))
      else return ())
  else (B, .error .abort)

/-- The loop of `delete_objects` over a list of `size` keys, at index `i` with `batch` collected
and `n` batches sent. It also gives the batches it passes to `batch_delete_objects`. -/
def deleteObjectsLoop (calls : ℕ → BatchDeleteCall) (size : ℕ) :
    ℕ → ℕ → List CString → List CString → Bucket →
      List (List CString) × Bucket × Except Failure Unit
  | _, _, _, [], B => ([], B, .ok ())
  | n, i, batch, key :: rest, B =>
    -- a full batch, or the last key
    if (i + 1) % 1000 = 0 ∨ i = size - 1 then
      match batchDeleteObjects (calls n) B (batch ++ [key]) with
      | (B', .error e) => ([batch ++ [key]], B', .error e)
      | (B', .ok ()) =>
        let (sent, result) := deleteObjectsLoop calls size (n + 1) (i + 1) [] rest B'
        ((batch ++ [key]) :: sent, result)
    else deleteObjectsLoop calls size n (i + 1) (batch ++ [key]) rest B

/-- `HuaweiCloudObs::delete_objects`. -/
def deleteObjects (calls : ℕ → BatchDeleteCall) (B : Bucket) (keys : List CString) :
    Bucket × Except Failure Unit :=
  (deleteObjectsLoop calls keys.length 0 0 [] keys B).2

/-- The calls of `batch_delete_objects` that `delete_objects` makes, by their arguments. -/
def deleteObjectsCalls (calls : ℕ → BatchDeleteCall) (B : Bucket) (keys : List CString) :
    List (List CString) :=
  (deleteObjectsLoop calls keys.length 0 0 [] keys B).1

/-- `HuaweiCloudObs::delete_all`. -/
def deleteAll (storage : StorageReply) (listCalls : ℕ → ListRequest → ListReply)
    (deleteCalls : ℕ → BatchDeleteCall) (B : Bucket) (fuel : ℕ) :
    Option (Bucket × Except Failure ℕ) :=
  match getApproximateObjectCount storage with
  | .error e => some (B, .error e)
  | .ok _ =>
    -- the count is only printed; the keys are those of the default listing
    (listObjectsDefault storage listCalls fuel).map fun
      | .error e => (B, .error e)
      | .ok (allKeys, _) =>
        match deleteObjects deleteCalls B allKeys with
        | (B', .error e) => (B', .error e)
        | (B', .ok ()) => (B', .ok allKeys.length)

/-! ## One deletion -/

/-- What a deletion gives back for a reply. Without headers it prints an indeterminate buffer. -/
def deletionResult (msg : Bytes) (reply : Reply) : Except Failure Unit :=
  match reply.properties with
  | none => .error .undefinedBehaviour
  | some _ =>
    if reply.status = .OK then .ok ()
    else .error (.exception (thrownError msg reply.status (reply.errorDetails.getD {})))

/-- A deletion that returns had its request completed with `OBS_STATUS_OK`. -/
theorem status_of_deletionResult {msg : Bytes} {reply : Reply}
    (h : deletionResult msg reply = .ok ()) : reply.status = .OK := by
  unfold deletionResult at h
  split at h
  · exact absurd h (by simp)
  · split at h
    · next hok => exact hok
    · exact absurd h (by simp)

/-- A deletion that fails throws, or prints what it should not; it never runs into an assertion. -/
theorem deletionResult_ne_abort (msg : Bytes) (reply : Reply) :
    deletionResult msg reply ≠ .error .abort := by
  unfold deletionResult
  split
  · simp
  · split <;> simp

/-- The two deletions end alike: the completed request, then the check of its status. -/
theorem finish_deletionResult (msg : Bytes) (reply : Reply) :
    (do
      let data ← ObjectCallbackData.finish reply {}
      if data.common.retStatus ≠ .OK then
        .error (.exception (thrownError msg data.common.retStatus data.common.errorDetails))
      else return ()) = deletionResult msg reply := by
  unfold deletionResult
  cases hp : reply.properties with
  | none => rw [finish_uninitialised_null hp]; rfl
  | some p =>
    obtain ⟨done, hdone, hstatus, hdetails⟩ := finish_uninitialised ⟨p, hp⟩
    simp only [hdone, bind, Except.bind, hstatus, hdetails, ite_not]
    rfl

/-- **`delete_object` in one line**, on a key that can be read. -/
theorem deleteObject_eq (call : DeleteCall) (B : Bucket) {key : StringView} {k : CString}
    (hkey : key.Reads k) :
    deleteObject call B key =
      ((call.serve B k).1,
        deletionResult (text "Error in delete_object, key: " ++ key.chars) (call.serve B k).2) := by
  unfold deleteObject
  rw [← finish_deletionResult, hkey.cString]

/-- **`batch_delete_objects` in one line**, on a list that passes the assertion. -/
theorem batchDeleteObjects_eq (call : BatchDeleteCall) (B : Bucket) {keys : List CString}
    (hpos : 0 < keys.length) (hmax : keys.length ≤ 1000) :
    batchDeleteObjects call B keys =
      ((call.serve B keys).1,
        deletionResult (batchDeleteObjectsMessage keys.length)
          (call.serve B keys).2.toReply) := by
  unfold batchDeleteObjects
  rw [if_pos ⟨hpos, hmax⟩, ← finish_deletionResult]
  rfl

/-! ## The batches -/

/-- Sends off one batch after the other, from request `n` on, until one fails. The batches sent off
come first in what it gives. -/
def submitBatches (calls : ℕ → BatchDeleteCall) :
    ℕ → List (List CString) → Bucket → List (List CString) × Bucket × Except Failure Unit
  | _, [], B => ([], B, .ok ())
  | n, batch :: rest, B =>
    match batchDeleteObjects (calls n) B batch with
    | (B', .error e) => ([batch], B', .error e)
    | (B', .ok ()) =>
      let (sent, result) := submitBatches calls (n + 1) rest B'
      (batch :: sent, result)

/-- At index `i` the loop has `i % 1000` keys pending, and the two halves of the flush condition
are a full batch and the last key. Induction on the keys to come. -/
theorem deleteObjectsLoop_eq (calls : ℕ → BatchDeleteCall) (size n i : ℕ)
    (batch keys : List CString) (B : Bucket) (hbatch : batch.length = i % 1000)
    (hsize : i + keys.length = size) :
    deleteObjectsLoop calls size n i batch keys B =
      submitBatches calls n (Batches.fill 1000 batch keys) B := by
  induction keys generalizing n i batch B with
  | nil => rfl
  | cons key rest ih =>
    rw [List.length_cons] at hsize
    -- the loop sends at every thousandth key and at the last one
    have hflush : ((i + 1) % 1000 = 0 ∨ i = size - 1) ↔ (batch.length + 1 = 1000 ∨ rest = []) := by
      rw [← List.length_eq_zero_iff, hbatch]
      omega
    rw [deleteObjectsLoop, Batches.fill]
    by_cases hcond : batch.length + 1 = 1000 ∨ rest = []
    · have hnext : ∀ B', deleteObjectsLoop calls size (n + 1) (i + 1) [] rest B' =
          submitBatches calls (n + 1) (Batches.fill 1000 [] rest) B' := by
        intro B'
        by_cases hrest : rest = []
        · rw [hrest]
          rfl
        · have hfull := hcond.resolve_right hrest
          exact ih (n + 1) (i + 1) [] B' (by rw [List.length_nil]; omega) (by omega)
      rw [if_pos (hflush.mpr hcond), if_pos hcond, submitBatches]
      simp only [hnext]
    · rw [if_neg (mt hflush.mp hcond), if_neg hcond]
      refine ih n (i + 1) (batch ++ [key]) B ?_ (by omega)
      rw [List.length_append, List.length_singleton]
      omega

/-- **`delete_objects` submits the batches of its list.** -/
theorem deleteObjects_eq (calls : ℕ → BatchDeleteCall) (B : Bucket) (keys : List CString) :
    deleteObjects calls B keys = (submitBatches calls 0 (Batches.batches 1000 keys) B).2 :=
  congrArg Prod.snd (deleteObjectsLoop_eq calls keys.length 0 0 [] keys B rfl (Nat.zero_add _))

/-- The batches sent are those of `submitBatches`. -/
theorem deleteObjectsCalls_eq (calls : ℕ → BatchDeleteCall) (B : Bucket) (keys : List CString) :
    deleteObjectsCalls calls B keys = (submitBatches calls 0 (Batches.batches 1000 keys) B).1 :=
  congrArg Prod.fst (deleteObjectsLoop_eq calls keys.length 0 0 [] keys B rfl (Nat.zero_add _))

/-! ## Deletions that complete -/

/-- A batch of 1 to 1000 keys is settled key by key, and the call returns. -/
theorem batchDeleteObjects_meets {call : BatchDeleteCall} {outcome : ℕ → DeleteOutcome}
    (h : call.Meets outcome) (B : Bucket) (keys : List CString) (hpos : 0 < keys.length)
    (hmax : keys.length ≤ 1000) :
    batchDeleteObjects call B keys = (B.remove outcome 0 keys, .ok ()) := by
  obtain ⟨hbucket, ⟨p, hp⟩, hstatus, -⟩ := h B keys
  rw [batchDeleteObjects_eq call B hpos hmax, hbucket, deletionResult, hp, hstatus]
  rfl

/-- **`delete_objects` on a service that completes every request.** It returns, and the keys
that are not refused are removed; the outcomes are indexed by the position in the list. -/
theorem deleteObjects_meets {calls : ℕ → BatchDeleteCall} (outcome : ℕ → DeleteOutcome)
    (h : ∀ n, (calls n).Meets fun p => outcome (1000 * n + p)) (B : Bucket)
    (keys : List CString) : deleteObjects calls B keys = (B.remove outcome 0 keys, .ok ()) := by
  have hsubmit : ∀ n, (submitBatches calls n (Batches.batches 1000 keys) B).2 =
      (B.remove outcome (1000 * n) keys, .ok ()) := by
    induction keys using Batches.drop_induction (Nat.zero_lt_succ 999) generalizing B with
    | nil => exact fun n => rfl
    | drop keys hkeys ih =>
      intro n
      have hpos := List.length_pos_iff.mpr hkeys
      have hfirst := batchDeleteObjects_meets (h n) B (keys.take 1000)
        (by rw [List.length_take]; omega) (List.length_take_le _ _)
      rw [Batches.batches_cons (by omega) hkeys, submitBatches, hfirst, Bucket.remove_shift]
      simp only [ih, Nat.add_zero]
      -- the next batch starts a thousand keys on, unless there is none
      have hrest : B.remove outcome (1000 * n) keys =
          (B.remove outcome (1000 * n) (keys.take 1000)).remove outcome (1000 * (n + 1))
            (keys.drop 1000) := by
        conv_lhs => rw [← List.take_append_drop 1000 keys, Bucket.remove_append]
        by_cases hlong : keys.length ≤ 1000
        · rw [List.drop_eq_nil_of_le hlong]
          rfl
        · rw [List.length_take, Nat.min_eq_left (by omega), Nat.mul_succ]
      rw [hrest]
  rw [deleteObjects_eq, hsubmit]

end ObsBench
