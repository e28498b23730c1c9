import ObsBench.Client.UploadStream
import ObsBench.Service.Upload

/-!
# Uploads against the service

With the streaming settled, the two upload operations are a request and its answer. This
module says what each of them does to the bucket for every fate of its request, and follows
a chain of appends that feeds every returned position into the next call.

* **`appendObject_applied`**, **`appendObject_error`**: one append that is served at the current
  length, and one that is not.
* **`putObject_outcome`**, **`appendObject_outcome`**: the two operations by cases. Callers that
  do not know the fate of a request start from these.
* **`appendChain_appends`**: a chain of appends, and the refusal of a wrong position.
-/

namespace ObsBench

variable {key object : StringView} {k : CString} (hkey : key.Reads k)
include hkey

/-! ## One `put_object` -/

theorem putObject_applied {call : PutCall} (h : call.Meets .applied) (B : Bucket)
    (hobject : object.Readable) :
    putObject call B key object = (B.insert k object.chars, .ok ()) := by
  obtain ⟨hbucket, hstatus⟩ := h B k object.chars
  rw [putObject_eq call B hkey (Reply.prints_of_readable _ hobject)]
  simp [hbucket, hstatus]

/-- A put that is not reported throws, whether or not the service applied it. -/
theorem putObject_error {call : PutCall} {fate : Fate} (h : call.Meets fate)
    (hfate : fate ≠ .applied) (B : Bucket) (hobject : object.Readable) :
    ∃ e, putObject call B key object =
      (if fate = .lost then B else B.insert k object.chars, .error (.exception e)) := by
  obtain ⟨hbucket, hstatus⟩ := h B k object.chars
  rw [putObject_eq call B hkey (Reply.prints_of_readable _ hobject)]
  simp only [hbucket, hstatus, hfate, if_false]
  exact ⟨_, rfl⟩

/-! ## One `append_object` -/

/-- An append at the current length that is reported extends the object and returns the new
length, up to the largest `long long`. Its reply has headers, so nothing is printed. -/
theorem appendObject_applied {call : AppendCall} (h : call.Meets .applied) {B : Bucket}
    (object : StringView) {startPos : UInt64} (hpos : startPos.toNat = (B.content k).length) :
    ∃ next, appendObject call B key object startPos =
        (B.insert k (B.content k ++ object.chars), .ok next) ∧
      next.toNat = min ((B.content k).length + object.chars.length) (2 ^ 63 - 1) := by
  obtain ⟨hbucket, hstatus, hreport⟩ :=
    (h B k (decimal startPos.toNat) object.chars).1 (by simpa using hpos)
  obtain ⟨p, hp, hnext⟩ := hreport rfl
  have hprints : (call.serve B k (decimal startPos.toNat) object.chars).2.Prints object := by
    intro hnull
    rw [hnull] at hp
    cases hp
  refine ⟨(call.serve B k (decimal startPos.toNat) object.chars).2.nextAppendPosition, ?_, ?_⟩
  · rw [appendObject_eq call B hkey startPos hprints]
    simp [hbucket, hstatus]
  · simp only [Reply.nextAppendPosition, hp, Option.bind_some, hnext]
    exact toNat_atoll_decimal _

/-- An append at any other position fails without effect, and throws where its reply can be
printed. -/
theorem appendObject_refused {call : AppendCall} {fate : Fate} (h : call.Meets fate) {B : Bucket}
    {startPos : UInt64} (hpos : startPos.toNat ≠ (B.content k).length)
    (hprints : (call.serve B k (decimal startPos.toNat) object.chars).2.Prints object) :
    ∃ e, appendObject call B key object startPos = (B, .error (.exception e)) := by
  obtain ⟨hbucket, hstatus⟩ :=
    (h B k (decimal startPos.toNat) object.chars).2 (by simpa using hpos)
  rw [appendObject_eq call B hkey startPos hprints]
  simp only [hbucket, hstatus, if_false]
  exact ⟨_, rfl⟩

/-- An append that is not reported throws; the object is extended only if the service took it. -/
theorem appendObject_error {call : AppendCall} {fate : Fate} (h : call.Meets fate)
    (hfate : fate ≠ .applied) {B : Bucket} {startPos : UInt64}
    (hpos : startPos.toNat = (B.content k).length) (hobject : object.Readable) :
    ∃ e, appendObject call B key object startPos =
      (if fate = .lost then B else B.insert k (B.content k ++ object.chars),
        .error (.exception e)) := by
  obtain ⟨hbucket, hstatus, -⟩ :=
    (h B k (decimal startPos.toNat) object.chars).1 (by simpa using hpos)
  rw [appendObject_eq call B hkey startPos (Reply.prints_of_readable _ hobject)]
  simp only [hbucket, hstatus, hfate, if_false]
  exact ⟨_, rfl⟩

omit hkey

/-! ## Every outcome of one upload -/

/-- Everything a `put_object` can do, by the fate of its request. -/
inductive PutOutcome (B : Bucket) (key : CString) (body : Bytes) :
    Fate → Bucket → Except Failure Unit → Prop where
  | applied : PutOutcome B key body .applied (B.insert key body) (.ok ())
  | appliedButError (e : Exception) :
      PutOutcome B key body .appliedButError (B.insert key body) (.error (.exception e))
  | lost (e : Exception) : PutOutcome B key body .lost B (.error (.exception e))

/-- Everything an `append_object` can do. A position the service refuses takes precedence over
the fate of the request. -/
inductive AppendOutcome (B : Bucket) (key : CString) (body : Bytes) (startPos : UInt64) :
    Fate → Bucket → Except Failure UInt64 → Prop where
  | applied {next : UInt64} (hpos : startPos.toNat = (B.content key).length)
      (hnext : next.toNat = min ((B.content key).length + body.length) (2 ^ 63 - 1)) :
      AppendOutcome B key body startPos .applied (B.insert key (B.content key ++ body)) (.ok next)
  | appliedButError (hpos : startPos.toNat = (B.content key).length) (e : Exception) :
      AppendOutcome B key body startPos .appliedButError (B.insert key (B.content key ++ body))
        (.error (.exception e))
  | lost (hpos : startPos.toNat = (B.content key).length) (e : Exception) :
      AppendOutcome B key body startPos .lost B (.error (.exception e))
  | refused {fate : Fate} (hpos : startPos.toNat ≠ (B.content key).length) (e : Exception) :
      AppendOutcome B key body startPos fate B (.error (.exception e))

theorem PutOutcome.frame {B B' : Bucket} {key : CString} {body : Bytes} {fate : Fate}
    {result : Except Failure Unit} (h : PutOutcome B key body fate B' result) {k : CString}
    (hk : k ≠ key) : B'.lookup k = B.lookup k := by
  cases h with
  | applied => exact Finmap.lookup_insert_of_ne B hk
  | appliedButError e => exact Finmap.lookup_insert_of_ne B hk
  | lost e => rfl

theorem AppendOutcome.frame {B B' : Bucket} {key : CString} {body : Bytes} {startPos : UInt64}
    {fate : Fate} {result : Except Failure UInt64}
    (h : AppendOutcome B key body startPos fate B' result) {k : CString} (hk : k ≠ key) :
    B'.lookup k = B.lookup k := by
  cases h with
  | applied hpos hnext => exact Finmap.lookup_insert_of_ne B hk
  | appliedButError hpos e => exact Finmap.lookup_insert_of_ne B hk
  | lost hpos e => rfl
  | refused hpos e => rfl

include hkey

/-- What a put of a readable object does, by the fate of its request. -/
theorem putObject_outcome {call : PutCall} {fate : Fate} (h : call.Meets fate) (B : Bucket)
    (hobject : object.Readable) :
    PutOutcome B k object.chars fate (putObject call B key object).1
      (putObject call B key object).2 := by
  cases fate with
  | applied =>
    rw [putObject_applied hkey h B hobject]
    exact .applied
  | appliedButError =>
    obtain ⟨e, he⟩ := putObject_error hkey h (by decide) B hobject
    rw [he]
    exact .appliedButError e
  | lost =>
    obtain ⟨e, he⟩ := putObject_error hkey h (by decide) B hobject
    rw [he]
    exact .lost e

/-- What an append of a readable object does, by the fate of its request. -/
theorem appendObject_outcome {call : AppendCall} {fate : Fate} (h : call.Meets fate) (B : Bucket)
    (hobject : object.Readable) (startPos : UInt64) :
    AppendOutcome B k object.chars startPos fate
      (appendObject call B key object startPos).1 (appendObject call B key object startPos).2 := by
  by_cases hpos : startPos.toNat = (B.content k).length
  · cases fate with
    | applied =>
      obtain ⟨next, happend, hnext⟩ := appendObject_applied hkey h object hpos
      rw [happend]
      exact .applied hpos hnext
    | appliedButError =>
      obtain ⟨e, he⟩ := appendObject_error hkey h (by decide) hpos hobject
      rw [he]
      exact .appliedButError hpos e
    | lost =>
      obtain ⟨e, he⟩ := appendObject_error hkey h (by decide) hpos hobject
      rw [he]
      exact .lost hpos e
  · obtain ⟨e, he⟩ := appendObject_refused hkey h hpos (Reply.prints_of_readable _ hobject)
    rw [he]
    exact .refused hpos e

omit hkey

/-! ## A chain of appends -/

/-- Appends `parts` one after the other, each at the position the previous call returned. -/
def appendChain (key : StringView) :
    Bucket → UInt64 → List (AppendCall × StringView) → Bucket × Except Failure (List UInt64)
  | B, _, [] => (B, .ok [])
  | B, pos, (call, part) :: rest =>
    match appendObject call B key part pos with
    | (B', .error e) => (B', .error e)
    | (B', .ok next) =>
      let (last, positions) := appendChain key B' next rest
      (last, positions.map (next :: ·))

def totalLength (parts : List (AppendCall × StringView)) : ℕ :=
  (parts.map fun part => part.2.chars.length).sum

/-- A chain started at the current length appends all of its parts. Induction on the parts: the
position handed on is the length the object has by then. -/
theorem appendChain_at_end (hkey : key.Reads k) (parts : List (AppendCall × StringView))
    (hcalls : ∀ part ∈ parts, part.1.Meets .applied) {B : Bucket} {pos : UInt64}
    (hpos : pos.toNat = (B.content k).length)
    (hlen : (B.content k).length + totalLength parts < 2 ^ 63) :
    ∃ last positions, appendChain key B pos parts = (last, .ok positions) ∧
      positions.map UInt64.toNat = (List.range parts.length).map (fun i =>
        (B.content k).length + totalLength (parts.take (i + 1))) ∧
      last.lookup k = (if parts = [] then B.lookup k
        else some (B.content k ++ parts.flatMap (·.2.chars))) ∧
      ∀ other, other ≠ k → last.lookup other = B.lookup other := by
  induction parts generalizing B pos with
  | nil => exact ⟨B, [], rfl, rfl, by simp, fun _ _ => rfl⟩
  | cons part rest ih =>
    obtain ⟨call, part⟩ := part
    obtain ⟨next, happend, hnext⟩ :=
      appendObject_applied hkey (hcalls (call, part) (by simp)) part hpos
    have htotal : totalLength ((call, part) :: rest) = part.chars.length + totalLength rest := by
      simp [totalLength]
    set B' : Bucket := B.insert k (B.content k ++ part.chars) with hB'
    have hcontent : B'.content k = B.content k ++ part.chars := by
      rw [hB', Bucket.content_insert]
    have hlen' : (B'.content k).length =
        (B.content k).length + part.chars.length := by
      rw [hcontent, List.length_append]
    have hnext' : next.toNat = (B.content k).length + part.chars.length := by omega
    obtain ⟨last, positions, hchain, hpositions, hkey, hother⟩ :=
      ih (fun p hp => hcalls p (List.mem_cons_of_mem _ hp)) (hnext'.trans hlen'.symm) (by omega)
    refine ⟨last, next :: positions, ?_, ?_, ?_, fun other hne => ?_⟩
    · simp only [appendChain, happend, hchain]
      rfl
    · -- the position after the first part, then those of the rest
      rw [List.map_cons, hpositions, List.length_cons, List.range_succ_eq_map, List.map_cons,
        List.map_map]
      refine congrArg₂ List.cons ?_ ?_
      · simp only [totalLength, List.take_succ_cons, List.take_zero, List.map_cons, List.map_nil,
          List.sum_cons, List.sum_nil]
        omega
      · apply List.map_congr_left
        intro i _
        simp only [Function.comp_apply, Nat.succ_eq_add_one, List.take_succ_cons, totalLength,
          List.map_cons, List.sum_cons]
        omega
    · -- the rest was appended behind the first part
      rw [hkey]
      cases rest with
      | nil => simp [hB']
      | cons _ _ => simp [hcontent]
    · rw [hother other hne, hB', Finmap.lookup_insert_of_ne _ hne]

/-- **Append chaining.** Starting from an absent key, a chain of appends succeeds at every
call, leaves the concatenation of the parts, and returns the running lengths. An append at a
position other than the current length throws and leaves the bucket as it was, unless the reply
comes without headers and the object in memory without a NUL. -/
theorem appendChain_appends :
    (∀ (key : StringView) (k : CString) (parts : List (AppendCall × StringView)) (B : Bucket),
      key.Reads k → (∀ part ∈ parts, part.1.Meets .applied) → B.lookup k = none →
      totalLength parts < 2 ^ 63 →
      ∃ last positions, appendChain key B 0 parts = (last, .ok positions) ∧
        positions.map UInt64.toNat =
          (List.range parts.length).map (fun i => totalLength (parts.take (i + 1))) ∧
        last.lookup k =
          (if parts = [] then none else some (parts.flatMap (·.2.chars))) ∧
        ∀ other, other ≠ k → last.lookup other = B.lookup other) ∧
    (∀ (call : AppendCall) (fate : Fate) (B : Bucket) (key object : StringView) (k : CString)
      (startPos : UInt64), key.Reads k → call.Meets fate →
      startPos.toNat ≠ (B.content k).length →
      (call.serve B k (decimal startPos.toNat) object.chars).2.Prints object →
      ∃ e, appendObject call B key object startPos = (B, .error (.exception e))) := by
  constructor
  · intro key k parts B hkey hcalls habsent hlen
    have hempty := Bucket.content_of_absent habsent
    have hstart : (0 : UInt64).toNat = (B.content k).length := by simp [hempty]
    have hchain := appendChain_at_end hkey parts hcalls hstart (by simpa [hempty] using hlen)
    simpa [hempty, habsent] using hchain
  · intro call fate B key object k startPos hkey hcall hpos hprints
    exact appendObject_refused hkey hcall hpos hprints

def greeting : List (AppendCall × StringView) :=
  [(.ofFate .applied, .ofString (text "Hello ")), (.ofFate .applied, .ofString (text "World!"))]

theorem appendChain_appends_greeting :
    (∃ last positions,
      appendChain (.ofString (text "k")) ∅ 0 greeting = (last, .ok positions) ∧
      positions.map UInt64.toNat = [6, 12] ∧
      last.lookup (cstr "k") = some (text "Hello World!")) ∧
    ∃ e, appendObject (.ofFate .applied) ∅ (.ofString (text "k")) (.ofString (text "Hello ")) 1000 =
      (∅, .error (.exception e)) := by
  constructor
  · have hcalls : ∀ part ∈ greeting, part.1.Meets .applied := by
      intro part hpart
      rcases List.mem_pair.mp hpart with rfl | rfl <;> exact AppendCall.ofFate_meets .applied
    obtain ⟨last, positions, hchain, hpositions, hkey, -⟩ :=
      appendChain_appends.1 (.ofString (text "k")) (cstr "k") greeting ∅
        (StringView.reads_ofString (cstr "k")) hcalls rfl (by decide)
    exact ⟨last, positions, hchain, hpositions.trans (by decide), hkey.trans (by decide)⟩
  · exact appendChain_appends.2 _ .applied ∅ _ _ (cstr "k") 1000
      (StringView.reads_ofString (cstr "k")) (AppendCall.ofFate_meets .applied) (by decide)
      (Reply.prints_of_readable _ (StringView.readable_ofString _))

end ObsBench
