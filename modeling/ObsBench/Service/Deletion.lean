import ObsBench.Service.Upload

/-!
# What the client expects of deletions

A batch deletion has two channels: the request completes as a whole, and every key has an
outcome of its own, which the data callback hears of.
-/

namespace ObsBench

/-- What the service does with one key of a batch: it removes it, or refuses and says why. -/
inductive DeleteOutcome where
  | removed
  | refused (code message : {s : CString // s ≠ []})
deriving DecidableEq

/-- The bucket without the keys that are removed, the first key having index `i`. -/
def Bucket.remove (B : Bucket) (outcome : ℕ → DeleteOutcome) : ℕ → List CString → Bucket
  | _, [] => B
  | i, key :: rest =>
    Bucket.remove (if outcome i = .removed then B.erase key else B) outcome (i + 1) rest

/-- A deletion of a single key removes it and completes; removing an absent key is no error. -/
def DeleteCall.Meets (call : DeleteCall) : Prop :=
  ∀ B key, (call.serve B key).1 = B.erase key ∧
    (∃ p, (call.serve B key).2.properties = some p) ∧ (call.serve B key).2.status = .OK

/-- A batch deletion removes no key but those of its batch. -/
def BatchDeleteCall.KeepsOthers (call : BatchDeleteCall) : Prop :=
  ∀ B keys, ∃ outcome, (call.serve B keys).1 = B.remove outcome 0 keys

/-- A batch deletion that completes refuses none of its keys. -/
def BatchDeleteCall.RefusesNone (call : BatchDeleteCall) : Prop :=
  ∀ B keys, (call.serve B keys).2.status = .OK →
    (call.serve B keys).1 = B.remove (fun _ => .removed) 0 keys

/-- A batch deletion completes as a whole, removes the keys it does not refuse, and reports
every refused one. -/
def BatchDeleteCall.Meets (call : BatchDeleteCall) (outcome : ℕ → DeleteOutcome) : Prop :=
  ∀ B keys,
    (call.serve B keys).1 = B.remove outcome 0 keys ∧
    (∃ p, (call.serve B keys).2.properties = some p) ∧ (call.serve B keys).2.status = .OK ∧
    ∀ i key code message, keys[i]? = some key → outcome i = .refused code message →
      ⟨key, some code.1, some message.1⟩ ∈ (call.serve B keys).2.results

def DeleteCall.erase : DeleteCall where
  serve B key := (B.erase key, .ofOutcome {} true)

theorem DeleteCall.erase_meets : DeleteCall.erase.Meets :=
  fun _ _ => ⟨rfl, ⟨{}, rfl⟩, rfl⟩

def BatchDeleteCall.ofOutcome (outcome : ℕ → DeleteOutcome) : BatchDeleteCall where
  serve B keys := (B.remove outcome 0 keys,
    { Reply.ofOutcome {} true with
      results := keys.mapIdx fun i key =>
        match outcome i with
        | .removed => ⟨key, none, none⟩
        | .refused code message => ⟨key, some code.1, some message.1⟩ })

theorem BatchDeleteCall.ofOutcome_meets (outcome : ℕ → DeleteOutcome) :
    (ofOutcome outcome).Meets outcome := by
  refine fun B keys => ⟨rfl, ⟨{}, rfl⟩, rfl, fun i key code message hkey hrefused => ?_⟩
  apply List.mem_mapIdx.mpr
  obtain ⟨hi, hget⟩ := List.getElem?_eq_some_iff.mp hkey
  exact ⟨i, hi, by simp [hget, hrefused]⟩

/-- A batch whose outcomes are known removes only keys of its own. -/
theorem BatchDeleteCall.Meets.keepsOthers {call : BatchDeleteCall} {outcome : ℕ → DeleteOutcome}
    (h : call.Meets outcome) : call.KeepsOthers :=
  fun B keys => ⟨outcome, (h B keys).1⟩

/-- A batch of which every key is removed refuses none. -/
theorem BatchDeleteCall.Meets.refusesNone {call : BatchDeleteCall}
    (h : call.Meets fun _ => .removed) : call.RefusesNone :=
  fun B keys _ => (h B keys).1

/-- Two lists are removed one after the other, the positions of the second counted on. -/
theorem Bucket.remove_append (B : Bucket) (outcome : ℕ → DeleteOutcome) (i : ℕ)
    (front back : List CString) :
    B.remove outcome i (front ++ back) =
      (B.remove outcome i front).remove outcome (i + front.length) back := by
  induction front generalizing B i with
  | nil => rfl
  | cons key front ih =>
    rw [List.cons_append, remove, ih, remove, List.length_cons, Nat.add_right_comm, Nat.add_assoc]

/-- Only the position of a key in the whole list matters. -/
theorem Bucket.remove_shift (B : Bucket) (outcome : ℕ → DeleteOutcome) (offset i : ℕ)
    (keys : List CString) :
    B.remove (fun p => outcome (offset + p)) i keys = B.remove outcome (offset + i) keys := by
  induction keys generalizing B i with
  | nil => rfl
  | cons key rest ih => rw [remove, ih, remove, Nat.add_assoc]

theorem Bucket.lookup_remove_of_absent {B : Bucket} {k : CString} (h : B.lookup k = none)
    (outcome : ℕ → DeleteOutcome) (i : ℕ) (keys : List CString) :
    (B.remove outcome i keys).lookup k = none := by
  induction keys generalizing B i with
  | nil => exact h
  | cons key rest ih =>
    rw [remove]
    refine ih ?_ (i + 1)
    split
    · by_cases hkey : k = key
      · rw [hkey, Finmap.lookup_erase]
      · rw [Finmap.lookup_erase_ne hkey, h]
    · exact h

/-- A key removed at one of its positions is gone at the end. -/
theorem Bucket.lookup_remove_of_removed {outcome : ℕ → DeleteOutcome} {keys : List CString}
    {k : CString} {p : ℕ} (hk : keys[p]? = some k) {i : ℕ} (hremoved : outcome (i + p) = .removed)
    (B : Bucket) : (B.remove outcome i keys).lookup k = none := by
  induction keys generalizing B i p with
  | nil => simp at hk
  | cons key rest ih =>
    rw [remove]
    cases p with
    | zero =>
      obtain rfl : key = k := by simpa using hk
      rw [Nat.add_zero] at hremoved
      rw [if_pos hremoved]
      exact lookup_remove_of_absent (Finmap.lookup_erase _ _) _ _ _
    | succ p =>
      exact ih (by simpa using hk) (by rwa [Nat.add_right_comm, Nat.add_assoc]) _

/-- A key removed at none of its positions keeps its object. -/
theorem Bucket.lookup_remove_of_not_removed {outcome : ℕ → DeleteOutcome} {keys : List CString}
    {k : CString} {i : ℕ} (h : ∀ p, keys[p]? = some k → outcome (i + p) ≠ .removed) (B : Bucket) :
    (B.remove outcome i keys).lookup k = B.lookup k := by
  induction keys generalizing B i with
  | nil => rfl
  | cons key rest ih =>
    rw [remove, ih fun p hp => ?_]
    · split
      · next hremoved =>
        have hne : k ≠ key := by
          rintro rfl
          exact h 0 rfl hremoved
        rw [Finmap.lookup_erase_ne hne]
      · rfl
    · rw [Nat.add_right_comm, Nat.add_assoc]
      exact h (p + 1) (by simpa using hp)

/-- What a removal leaves: the keys that are removed at none of their positions. -/
theorem Bucket.mem_remove {outcome : ℕ → DeleteOutcome} {keys : List CString} {k : CString}
    {i : ℕ} {B : Bucket} :
    k ∈ B.remove outcome i keys ↔ k ∈ B ∧ ∀ p, keys[p]? = some k → outcome (i + p) ≠ .removed := by
  rw [← Finmap.lookup_isSome, ← Finmap.lookup_isSome]
  by_cases h : ∃ p, keys[p]? = some k ∧ outcome (i + p) = .removed
  · obtain ⟨p, hp, hremoved⟩ := h
    rw [lookup_remove_of_removed hp hremoved]
    constructor
    · intro hsome
      simp at hsome
    · rintro ⟨-, hkept⟩
      exact absurd hremoved (hkept p hp)
  · have hkept : ∀ p, keys[p]? = some k → outcome (i + p) ≠ .removed :=
      fun p hp hremoved => h ⟨p, hp, hremoved⟩
    rw [lookup_remove_of_not_removed hkept, and_iff_left hkept]

end ObsBench
