import ObsBench.Text

/-!
# Benchmark keys

Every worker writes keys of its own, built from the benchmark's name and four or five numbers.
The parts are put together without a terminator, so that two keys differ has to be read off
from the right: a number ends a key, and the word in front of it does not end in a digit.

The keys are `std::string`s; for the SDK a key without a NUL is the C string of the same bytes.

* **`append_run_inj`**: the last number of a key and what is in front of it.
* **`keys_never_collide`**: the parts are recovered from the key, and the two formats are disjoint.
* **`putObjectKey_inj`**, **`appendObjectKey_inj`**: the same for the keys as C strings.
-/

namespace ObsBench

/-- The key of operation `j` of thread `i` in the `put_object` benchmark. -/
def putObjectKey (type : CString) (objectSize numThreads i j : ℤ) : CString :=
  type ++ cstr "_size" ++ formatInt objectSize ++ cstr "_nthread" ++ formatInt numThreads ++
    cstr "_threadidx" ++ formatInt i ++ cstr "_loopcnt" ++ formatInt j

/-- The key of thread `i` in the `append_object` benchmark. -/
def appendObjectKey (type : CString) (objectSize numThreads i : ℤ) : CString :=
  type ++ cstr "_size" ++ formatInt objectSize ++ cstr "_nthread" ++ formatInt numThreads ++
    cstr "_threadidx" ++ formatInt i

/-- The `std::string` of a `put_object` key, whatever bytes its type is made of. -/
def formatPutObjectKey (type : Bytes) (objectSize numThreads i j : ℤ) : Bytes :=
  type ++ text "_size" ++ (formatInt objectSize).bytes ++ text "_nthread" ++
    (formatInt numThreads).bytes ++ text "_threadidx" ++ (formatInt i).bytes ++
    text "_loopcnt" ++ (formatInt j).bytes

/-- The `std::string` of an `append_object` key. -/
def formatAppendObjectKey (type : Bytes) (objectSize numThreads i : ℤ) : Bytes :=
  type ++ text "_size" ++ (formatInt objectSize).bytes ++ text "_nthread" ++
    (formatInt numThreads).bytes ++ text "_threadidx" ++ (formatInt i).bytes

/-! ## Numbers at the end of a key -/

/-- The bytes a printed number is made of. -/
def numeric (b : Byte) : Bool := (48 ≤ b.val && b.val ≤ 57) || b.val = 45

theorem numeric_of_mem_formatInt {z : ℤ} {b : Byte} (h : b ∈ (formatInt z).bytes) : numeric b := by
  have hdecimal : ∀ n, b ∈ (decimal n).bytes → numeric b := by
    intro n hb
    obtain ⟨hlow, hhigh⟩ := digit_of_mem_bytes_decimal hb
    simp [numeric, hlow, hhigh]
  cases z with
  | ofNat n => exact hdecimal n h
  | negSucc n =>
    rcases List.mem_cons.mp h with hminus | hdigit
    · rw [hminus]
      decide
    · exact hdecimal (n + 1) hdigit

theorem formatInt_injective : Function.Injective formatInt := by
  -- a minus sign is no digit, so the two kinds of numbers do not mix
  have hsign : ∀ n m, minus :: decimal (n + 1) ≠ decimal m := by
    intro n m h
    have hdigit := digitValue_isSome_of_mem_decimal (n := m) (c := minus) (by rw [← h]; simp)
    exact absurd hdigit (by decide)
  intro a b h
  cases a with
  | ofNat n =>
    cases b with
    | ofNat m => exact congrArg Int.ofNat (decimal_injective h)
    | negSucc m => exact absurd h.symm (hsign m n)
  | negSucc n =>
    cases b with
    | ofNat m => exact absurd h (hsign n m)
    | negSucc m =>
      have heq := decimal_injective (List.cons.inj h).2
      rw [Nat.succ.inj heq]

/-- Read from the right, a run of `p` ends where a list that does not end in `p` begins. -/
theorem takeWhile_reverse_of_stop {α : Type*} {p : α → Bool} {front run : List α}
    (hfront : ∀ c, front.getLast? = some c → p c = false) (hrun : ∀ c ∈ run, p c) :
    (front ++ run).reverse.takeWhile p = run.reverse := by
  have hstop : front.reverse.takeWhile p = [] := by
    cases hrev : front.reverse with
    | nil => rfl
    | cons c rest =>
      have hlast : front.getLast? = some c := by rw [← List.head?_reverse, hrev, List.head?_cons]
      rw [List.takeWhile_cons_of_neg (by simp [hfront c hlast])]
  rw [List.reverse_append, List.takeWhile_append_of_pos (by simpa using hrun), hstop,
    List.append_nil]

/-- Two lists that are cut in front of their last run of `p` are equal part by part. -/
theorem append_run_inj {α : Type*} {p : α → Bool} {front front' run run' : List α}
    (hfront : ∀ c, front.getLast? = some c → p c = false)
    (hfront' : ∀ c, front'.getLast? = some c → p c = false) (hrun : ∀ c ∈ run, p c)
    (hrun' : ∀ c ∈ run', p c) (h : front ++ run = front' ++ run') :
    front = front' ∧ run = run' := by
  have hlast := congrArg (fun l : List α => l.reverse.takeWhile p) h
  simp only [takeWhile_reverse_of_stop hfront hrun, takeWhile_reverse_of_stop hfront' hrun',
    List.reverse_inj] at hlast
  rw [hlast, List.append_cancel_right_eq] at h
  exact ⟨h, hlast⟩

/-- What ends in a word whose last byte is no part of a number. -/
theorem not_numeric_of_getLast? {word : Bytes} (hword : word.getLast?.map numeric = some false)
    (front : Bytes) (b : Byte) (hb : (front ++ word).getLast? = some b) : numeric b = false := by
  obtain ⟨last, hlast, hnumeric⟩ := Option.map_eq_some_iff.mp hword
  rw [List.getLast?_append, hlast, Option.some_or, Option.some.injEq] at hb
  rw [← hb, hnumeric]

/-- **The last number of a key.** Behind words that do not end in a digit or a sign, the number and
everything in front of it are determined by the whole. -/
theorem append_formatInt_inj {word word' : Bytes} (hword : word.getLast?.map numeric = some false)
    (hword' : word'.getLast?.map numeric = some false) {x y : Bytes} {a b : ℤ}
    (h : x ++ word ++ (formatInt a).bytes = y ++ word' ++ (formatInt b).bytes) :
    x ++ word = y ++ word' ∧ a = b := by
  obtain ⟨hfront, hrun⟩ := append_run_inj (not_numeric_of_getLast? hword x)
    (not_numeric_of_getLast? hword' y) (fun _ hc => numeric_of_mem_formatInt hc)
    (fun _ hc => numeric_of_mem_formatInt hc) h
  exact ⟨hfront, formatInt_injective (bytes_injective hrun)⟩

/-- The same word in front of both numbers goes away with them. -/
theorem append_word_formatInt_inj {word : Bytes} (hword : word.getLast?.map numeric = some false)
    {x y : Bytes} {a b : ℤ}
    (h : x ++ word ++ (formatInt a).bytes = y ++ word ++ (formatInt b).bytes) : x = y ∧ a = b := by
  obtain ⟨hfront, hnumber⟩ := append_formatInt_inj hword hword h
  exact ⟨List.append_cancel_right hfront, hnumber⟩

/-! ## The keys of the two benchmarks -/

/-- The parts of an append key can be told apart from the right, where the type's bytes do not
reach. -/
theorem formatAppendObjectKey_inj {type type' : Bytes}
    {objectSize numThreads i objectSize' numThreads' i' : ℤ}
    (h : formatAppendObjectKey type objectSize numThreads i =
      formatAppendObjectKey type' objectSize' numThreads' i') :
    type = type' ∧ objectSize = objectSize' ∧ numThreads = numThreads' ∧ i = i' := by
  unfold formatAppendObjectKey at h
  obtain ⟨h, hi⟩ := append_word_formatInt_inj (by decide) h
  obtain ⟨h, hthreads⟩ := append_word_formatInt_inj (by decide) h
  obtain ⟨h, hsize⟩ := append_word_formatInt_inj (by decide) h
  exact ⟨h, hsize, hthreads, hi⟩

/-- The parts of a put key can be told apart from the right. -/
theorem formatPutObjectKey_inj {type type' : Bytes}
    {objectSize numThreads i j objectSize' numThreads' i' j' : ℤ}
    (h : formatPutObjectKey type objectSize numThreads i j =
      formatPutObjectKey type' objectSize' numThreads' i' j') :
    type = type' ∧ objectSize = objectSize' ∧ numThreads = numThreads' ∧ i = i' ∧ j = j' := by
  unfold formatPutObjectKey at h
  obtain ⟨h, hj⟩ := append_word_formatInt_inj (by decide) h
  obtain ⟨h, hi⟩ := append_word_formatInt_inj (by decide) h
  obtain ⟨h, hthreads⟩ := append_word_formatInt_inj (by decide) h
  obtain ⟨h, hsize⟩ := append_word_formatInt_inj (by decide) h
  exact ⟨h, hsize, hthreads, hi, hj⟩

/-- The words in front of the last number differ in their last letter. -/
theorem formatPutObjectKey_ne_formatAppendObjectKey (type type' : Bytes)
    (objectSize numThreads i j objectSize' numThreads' i' : ℤ) :
    formatPutObjectKey type objectSize numThreads i j ≠
      formatAppendObjectKey type' objectSize' numThreads' i' := by
  intro h
  unfold formatPutObjectKey formatAppendObjectKey at h
  obtain ⟨hfront, -⟩ := append_formatInt_inj (by decide) (by decide) h
  have hlast := congrArg List.getLast? hfront
  rw [List.getLast?_append_of_ne_nil _ (show text "_loopcnt" ≠ [] by decide),
    List.getLast?_append_of_ne_nil _ (show text "_threadidx" ≠ [] by decide)] at hlast
  exact absurd hlast (by decide)

def slash : Byte := byte '/'

example : text "/" = [slash] := by decide

theorem slash_notMem_formatInt (z : ℤ) : slash ∉ (formatInt z).bytes := by
  intro h
  exact absurd (numeric_of_mem_formatInt h) (by decide)

theorem slash_notMem_formatAppendObjectKey {type : Bytes} (htype : slash ∉ type)
    (objectSize numThreads i : ℤ) : slash ∉ formatAppendObjectKey type objectSize numThreads i := by
  unfold formatAppendObjectKey
  simp only [List.mem_append, not_or]
  exact ⟨⟨⟨⟨⟨⟨htype, by decide⟩, slash_notMem_formatInt _⟩, by decide⟩, slash_notMem_formatInt _⟩,
    by decide⟩, slash_notMem_formatInt _⟩

theorem slash_notMem_formatPutObjectKey {type : Bytes} (htype : slash ∉ type)
    (objectSize numThreads i j : ℤ) :
    slash ∉ formatPutObjectKey type objectSize numThreads i j := by
  have hsplit : formatPutObjectKey type objectSize numThreads i j =
      formatAppendObjectKey type objectSize numThreads i ++ text "_loopcnt" ++
        (formatInt j).bytes := rfl
  rw [hsplit]
  simp only [List.mem_append, not_or]
  exact ⟨⟨slash_notMem_formatAppendObjectKey htype _ _ _, by decide⟩, slash_notMem_formatInt _⟩

/-- **Keys never collide.** Each format determines all of its parts, no key of one format is one of
the other, and under the types the program uses there is no slash in a key. -/
theorem keys_never_collide :
    (Function.Injective fun k : Bytes × ℤ × ℤ × ℤ × ℤ =>
      formatPutObjectKey k.1 k.2.1 k.2.2.1 k.2.2.2.1 k.2.2.2.2) ∧
    (Function.Injective fun k : Bytes × ℤ × ℤ × ℤ =>
      formatAppendObjectKey k.1 k.2.1 k.2.2.1 k.2.2.2) ∧
    (∀ type type' objectSize numThreads i j objectSize' numThreads' i',
      formatPutObjectKey type objectSize numThreads i j ≠
        formatAppendObjectKey type' objectSize' numThreads' i') ∧
    ∀ objectSize numThreads i j,
      slash ∉ formatPutObjectKey (text "put_object") objectSize numThreads i j ∧
      slash ∉ formatAppendObjectKey (text "append_object") objectSize numThreads i := by
  refine ⟨fun k k' h => ?_, fun k k' h => ?_, formatPutObjectKey_ne_formatAppendObjectKey, ?_⟩
  · obtain ⟨htype, hsize, hthreads, hi, hj⟩ := formatPutObjectKey_inj h
    exact Prod.ext htype (Prod.ext hsize (Prod.ext hthreads (Prod.ext hi hj)))
  · obtain ⟨htype, hsize, hthreads, hi⟩ := formatAppendObjectKey_inj h
    exact Prod.ext htype (Prod.ext hsize (Prod.ext hthreads hi))
  · intro objectSize numThreads i j
    exact ⟨slash_notMem_formatPutObjectKey (by decide) _ _ _ _,
      slash_notMem_formatAppendObjectKey (by decide) _ _ _⟩

/-! ## The keys as C strings -/

theorem bytes_append (s t : CString) : (s ++ t : CString).bytes = s.bytes ++ t.bytes :=
  List.map_append

theorem bytes_putObjectKey (type : CString) (objectSize numThreads i j : ℤ) :
    (putObjectKey type objectSize numThreads i j).bytes =
      formatPutObjectKey type.bytes objectSize numThreads i j := by
  unfold putObjectKey formatPutObjectKey
  simp only [bytes_append]
  rfl

theorem bytes_appendObjectKey (type : CString) (objectSize numThreads i : ℤ) :
    (appendObjectKey type objectSize numThreads i).bytes =
      formatAppendObjectKey type.bytes objectSize numThreads i := by
  unfold appendObjectKey formatAppendObjectKey
  simp only [bytes_append]
  rfl

theorem appendObjectKey_inj {type type' : CString} {objectSize numThreads i objectSize' numThreads'
    i' : ℤ}
    (h : appendObjectKey type objectSize numThreads i =
      appendObjectKey type' objectSize' numThreads' i') :
    type = type' ∧ objectSize = objectSize' ∧ numThreads = numThreads' ∧ i = i' := by
  have hbytes := congrArg CString.bytes h
  rw [bytes_appendObjectKey, bytes_appendObjectKey] at hbytes
  obtain ⟨htype, hparts⟩ := formatAppendObjectKey_inj hbytes
  exact ⟨bytes_injective htype, hparts⟩

theorem putObjectKey_inj {type type' : CString} {objectSize numThreads i j objectSize' numThreads'
    i' j' : ℤ}
    (h : putObjectKey type objectSize numThreads i j =
      putObjectKey type' objectSize' numThreads' i' j') :
    type = type' ∧ objectSize = objectSize' ∧ numThreads = numThreads' ∧ i = i' ∧ j = j' := by
  have hbytes := congrArg CString.bytes h
  rw [bytes_putObjectKey, bytes_putObjectKey] at hbytes
  obtain ⟨htype, hparts⟩ := formatPutObjectKey_inj hbytes
  exact ⟨bytes_injective htype, hparts⟩

end ObsBench
