import ObsBench.Client.Deletion
import ObsBench.Client.UploadStream

/-!
# Keys as views

`put_object`, `append_object` and `delete_object` take a `std::string_view` and hand its `data()`
to the SDK, which reads up to the first NUL. The length of the view does not travel, so which key
an operation acts on depends on the memory behind the view.

What an operation sends is what the service is asked for, whatever the service does with it.

* **`sends_iff`**: the one key an operation can send.
* **`acts_on_its_key_iff`**: the views for which that is the key the caller wrote.
-/

namespace ObsBench

/-! ## What is sent -/

/-- `put_object` under the view `v` asks the service for the key `k`. -/
def PutSends (v : StringView) (k : CString) : Prop :=
  v.Reads k ∧ ∀ (call : PutCall) (B : Bucket) (object : StringView),
    (putObject call B v object).1 = (call.serve B k object.chars).1

def AppendSends (v : StringView) (k : CString) : Prop :=
  v.Reads k ∧ ∀ (call : AppendCall) (B : Bucket) (object : StringView) (startPos : UInt64),
    (appendObject call B v object startPos).1 =
      (call.serve B k (decimal startPos.toNat) object.chars).1

def DeleteSends (v : StringView) (k : CString) : Prop :=
  v.Reads k ∧ ∀ (call : DeleteCall) (B : Bucket), (deleteObject call B v).1 = (call.serve B k).1

/-- All three operations send `k`. -/
def Sends (v : StringView) (k : CString) : Prop := PutSends v k ∧ AppendSends v k ∧ DeleteSends v k

/-- **The one key an operation can send** is what the SDK reads at the pointer. -/
theorem sends_iff {v : StringView} {k : CString} : Sends v k ↔ v.Reads k := by
  constructor
  · intro h
    exact h.1.1
  · intro h
    refine ⟨⟨h, fun call B object => ?_⟩, ⟨h, fun call B object startPos => ?_⟩,
      ⟨h, fun call B => ?_⟩⟩
    · exact putObject_bucket call B h object
    · exact appendObject_bucket call B h object startPos
    · rw [deleteObject_eq call B h]

/-- Under a view at most one key is sent. -/
theorem sends_unique {v : StringView} {k k' : CString} (h : Sends v k) (h' : Sends v k') :
    k = k' :=
  (sends_iff.mp h).unique (sends_iff.mp h')

/-! ## Acting on the key that was given -/

/-- A service that changes no object but the one it is asked for. -/
def PutCall.Local (call : PutCall) : Prop :=
  ∀ B key body k, k ≠ key → (call.serve B key body).1.lookup k = B.lookup k

def AppendCall.Local (call : AppendCall) : Prop :=
  ∀ B key position body k, k ≠ key → (call.serve B key position body).1.lookup k = B.lookup k

def DeleteCall.Local (call : DeleteCall) : Prop :=
  ∀ B key k, k ≠ key → (call.serve B key).1.lookup k = B.lookup k

/-- No operation under the view `v` touches the object `k`. -/
def LeavesAlone (v : StringView) (k : CString) : Prop :=
  (∀ (call : PutCall) B object, call.Local → (putObject call B v object).1.lookup k = B.lookup k) ∧
  (∀ (call : AppendCall) B object startPos, call.Local →
    (appendObject call B v object startPos).1.lookup k = B.lookup k) ∧
  ∀ (call : DeleteCall) B, call.Local → (deleteObject call B v).1.lookup k = B.lookup k

/-- Operations under a view that is sent as one key leave the others alone. -/
theorem Sends.leavesAlone {v : StringView} {key k : CString} (h : Sends v key) (hk : k ≠ key) :
    LeavesAlone v k := by
  obtain ⟨hput, happend, hdelete⟩ := h
  refine ⟨fun call B object hlocal => ?_, fun call B object startPos hlocal => ?_,
    fun call B hlocal => ?_⟩
  · rw [hput.2]
    exact hlocal B key _ k hk
  · rw [happend.2]
    exact hlocal B key _ _ k hk
  · rw [hdelete.2]
    exact hlocal B key k hk

/-- Under views that compare equal the same key is sent, the one the views spell out. Under views
without NULs that compare different, different keys are sent, and an operation under one view leaves
the other's object alone. -/
structure ActsOnItsKey (v v' : StringView) : Prop where
  equal : v.chars = v'.chars → ∃ k, k.bytes = v.chars ∧ Sends v k ∧ Sends v' k
  different : 0 ∉ v.chars → 0 ∉ v'.chars → v.chars ≠ v'.chars →
    ∃ k k', Sends v k ∧ Sends v' k' ∧ k ≠ k' ∧ LeavesAlone v k' ∧ LeavesAlone v' k

/-- **When the operations act on the key they are given.** Among any views, such as those a program
passes, they do so for every two of them exactly when every view holds no NUL and is followed by
one, as the views of `std::string`s without NULs are. -/
theorem acts_on_its_key_iff (views : Set StringView) :
    (∀ v ∈ views, ∀ v' ∈ views, ActsOnItsKey v v') ↔ ∀ v ∈ views, v.Terminated := by
  constructor
  · intro h v hv
    -- a view compares equal to itself
    obtain ⟨k, hk, hsends, -⟩ := (h v hv v hv).equal rfl
    exact reads_chars_iff.mp ⟨k, hk, sends_iff.mp hsends⟩
  · intro h v hv v' hv'
    obtain ⟨k, hk, hreads⟩ := reads_chars_iff.mpr (h v hv)
    obtain ⟨k', hk', hreads'⟩ := reads_chars_iff.mpr (h v' hv')
    have hsends := sends_iff.mpr hreads
    have hsends' := sends_iff.mpr hreads'
    constructor
    · intro hchars
      refine ⟨k, hk, hsends, ?_⟩
      rw [bytes_injective (hk.trans (hchars.trans hk'.symm))]
      exact hsends'
    · intro _ _ hchars
      have hne : k ≠ k' := by
        intro heq
        rw [← hk, ← hk', heq] at hchars
        exact hchars rfl
      exact ⟨k, k', hsends, hsends', hne, hsends.leavesAlone hne.symm, hsends'.leavesAlone hne⟩

/-- The view of the `a` in the buffer `ab`. -/
def viewInBuffer : StringView := ⟨(StringView.ofString (text "ab")).mem, 1, by decide⟩

/-- **A view into a longer buffer acts on another key.** It compares equal to the view of the string
`a`, but the operations send `ab`. -/
theorem viewInBuffer_acts_elsewhere :
    viewInBuffer.chars = (StringView.ofString (text "a")).chars ∧
      Sends viewInBuffer (cstr "ab") ∧ Sends (.ofString (text "a")) (cstr "a") ∧
      ¬ ActsOnItsKey viewInBuffer (.ofString (text "a")) := by
  have hchars : viewInBuffer.chars = (StringView.ofString (text "a")).chars := by decide
  have hsends : Sends viewInBuffer (cstr "ab") :=
    sends_iff.mpr ⟨[], by decide⟩
  have hsends' : Sends (.ofString (text "a")) (cstr "a") :=
    sends_iff.mpr ⟨[], by decide⟩
  refine ⟨hchars, hsends, hsends', fun hacts => ?_⟩
  obtain ⟨k, -, hk, hk'⟩ := hacts.equal hchars
  exact absurd ((sends_unique hsends hk).trans (sends_unique hk' hsends')) (by decide)

end ObsBench
