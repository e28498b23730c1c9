import Mathlib.Data.List.Flatten
import ObsBench.Client.Upload

/-!
# The body of an upload

`put_buffer_data_callback` hands out the object in whatever pieces the SDK asks for. Its two
counters, what is sent and what is left, stay complementary, and every piece continues where
the last one ended.

* **`putBufferDataCallback_step`**: one call, in every mix of the 32 and 64 bit types.
* **`pullBody_uploadData`**: an SDK that pulls the announced length receives the object.
* **`putObject_eq`**, **`appendObject_eq`**: with the body settled, the two operations as a
  function of how the service answers. Callers use these and not the callbacks.
* **`upload_streams_object`**: the whole account of a sequence of calls.
-/

namespace ObsBench

/-! ## Conversions between the integer types -/

theorem toNat_unsigned_of_pos {b : Int32} (h : 0 < b.toInt) :
    b.toUInt32.toUInt64.toNat = b.toNatClampNeg := by
  rw [UInt32.toNat_toUInt64, Int32.toNat_toUInt32_of_le]
  rw [Int32.le_iff_toInt_le]
  simpa using le_of_lt h

/-- A 64 bit count below the sign bit of `int` survives the narrowing. -/
theorem toInt_intOfUInt64 {n : UInt64} (h : n.toNat < 2 ^ 31) :
    (intOfUInt64 n).toInt = n.toNat := by
  have hlow : n.toUInt32.toBitVec.toNat = n.toNat := by
    rw [UInt32.toNat_toBitVec, UInt64.toNat_toUInt32]
    omega
  show n.toUInt32.toBitVec.toInt = _
  rw [BitVec.toInt_eq_toNat_cond, hlow]
  omega

theorem toNat_sizeOfInt {n : Int32} (h : 0 ≤ n.toInt) : (sizeOfInt n).toNat = n.toNatClampNeg := by
  rw [sizeOfInt, Int64.toNat_toUInt64_of_le]
  · simp
  · rw [Int64.le_iff_toInt_le]
    simpa using h

/-! ## One call of the callback -/

/-- The state of an upload of `object`: the buffer is the object's, and the bytes sent and the
bytes left make up its length. -/
structure Uploading (object : StringView) (data : ObjectCallbackData) : Prop where
  buffer : data.buffer = some object
  total : data.curOffset.toNat + data.bufferSize.toNat = object.size.toNat

/-- An upload starts with all of its object to send. -/
theorem uploading_uploadData (object : StringView) : Uploading object (uploadData object) :=
  ⟨rfl, by simp [uploadData]⟩

/-- The bytes the next call hands out when the SDK offers `size` bytes of room. -/
def ObjectCallbackData.share (data : ObjectCallbackData) (b : BufferSize) : ℕ :=
  min b.size.toNatClampNeg data.bufferSize.toNat

/-- The conditional expression of the callback is the minimum. -/
theorem toNat_chosen (data : ObjectCallbackData) (b : BufferSize) :
    (if data.bufferSize > b.size.toUInt32.toUInt64 then b.size.toUInt32.toUInt64
      else data.bufferSize).toNat = data.share b := by
  have hroom : b.size.toUInt32.toUInt64.toNat = b.size.toNatClampNeg :=
    toNat_unsigned_of_pos b.pos
  rw [ObjectCallbackData.share]
  split
  · next hgt =>
    rw [gt_iff_lt, UInt64.lt_iff_toNat_lt, hroom] at hgt
    omega
  · next hle =>
    rw [gt_iff_lt, UInt64.lt_iff_toNat_lt, hroom] at hle
    omega

/-- **One call.** It returns and copies the smaller of the room offered and the bytes left,
continuing at the offset, advances both counters by as much, and touches nothing else. -/
theorem putBufferDataCallback_step {object : StringView} {data : ObjectCallbackData}
    (h : Uploading object data) (b : BufferSize) :
    ∃ count next, putBufferDataCallback b.size data =
        .ok (count, (object.chars.drop data.curOffset.toNat).take (data.share b), next) ∧
      count.toInt = data.share b ∧ Uploading object next ∧
      next.curOffset.toNat = data.curOffset.toNat + data.share b ∧
      next.common = data.common ∧ next.obsNextAppendPosition = data.obsNextAppendPosition := by
  have hsize : object.size.toNat < 2 ^ 64 := object.size.toNat_lt
  have htotal := h.total
  by_cases hzero : data.bufferSize = 0
  · -- nothing left: no copy, and the counters stay
    refine ⟨0, data, ?_, ?_, h, ?_, rfl, rfl⟩
    · simp [putBufferDataCallback, hzero, ObjectCallbackData.share]
      rfl
    · simp [ObjectCallbackData.share, hzero]
    · simp [ObjectCallbackData.share, hzero]
  · have hroom_lt := b.size.toNatClampNeg_lt
    -- what is chosen fits an `int`
    set chosen : UInt64 := if data.bufferSize > b.size.toUInt32.toUInt64 then
      b.size.toUInt32.toUInt64 else data.bufferSize with hchosen
    have hmin : chosen.toNat = data.share b := toNat_chosen data b
    have hshare_room : data.share b ≤ b.size.toNatClampNeg := min_le_left _ _
    have hshare_left : data.share b ≤ data.bufferSize.toNat := min_le_right _ _
    have hcount : (intOfUInt64 chosen).toInt = data.share b := by
      rw [toInt_intOfUInt64 (by omega), hmin]
    have hcopied : (sizeOfInt (intOfUInt64 chosen)).toNat = data.share b := by
      rw [toNat_sizeOfInt (by omega), Int32.toNatClampNeg, hcount]
      simp
    have hle : sizeOfInt (intOfUInt64 chosen) ≤ data.bufferSize := by
      rw [UInt64.le_iff_toNat_le, hcopied]
      exact hshare_left
    refine ⟨intOfUInt64 chosen, { data with
        bufferSize := data.bufferSize - sizeOfInt (intOfUInt64 chosen)
        curOffset := data.curOffset + sizeOfInt (intOfUInt64 chosen) },
      ?_, hcount, ⟨h.buffer, ?_⟩, ?_, rfl, rfl⟩
    · have hread : data.curOffset.toNat + data.share b ≤ object.chars.length := by
        rw [StringView.length_chars]
        omega
      simp only [putBufferDataCallback, ne_eq, hzero, not_false_eq_true, if_true, ← hchosen,
        hcopied, h.buffer, Option.map_some, memcpy, hread, hshare_room, and_self, if_true]
      rfl
    · rw [UInt64.toNat_sub_of_le _ _ hle, UInt64.toNat_add, hcopied]
      omega
    · rw [UInt64.toNat_add, hcopied]
      omega

/-! ## An SDK that pulls the announced length -/

/-- From any point of an upload, pulling what is left yields the rest of the object. Every
pull delivers at least one byte, so as many attempts as bytes are enough. -/
theorem pullBody_uploading {object : StringView} (sizes : ℕ → BufferSize) (attempts n : ℕ)
    {data : ObjectCallbackData} (h : Uploading object data)
    (hleft : data.bufferSize.toNat ≤ attempts) :
    ∃ next, pullBody sizes attempts n data.bufferSize.toNat data =
        .ok (object.chars.drop data.curOffset.toNat, next) ∧ next.buffer = data.buffer ∧
      next.common = data.common ∧ next.obsNextAppendPosition = data.obsNextAppendPosition := by
  induction attempts generalizing n data with
  | zero =>
    have hdone : object.chars.drop data.curOffset.toNat = [] := by
      have htotal := h.total
      exact List.drop_eq_nil_of_le (by rw [StringView.length_chars]; omega)
    exact ⟨data, by rw [pullBody, hdone], rfl, rfl, rfl⟩
  | succ attempts ih =>
    have htotal := h.total
    by_cases hzero : data.bufferSize.toNat = 0
    · have hdone : object.chars.drop data.curOffset.toNat = [] :=
        List.drop_eq_nil_of_le (by rw [StringView.length_chars]; omega)
      exact ⟨data, by rw [pullBody, if_pos hzero, hdone], rfl, rfl, rfl⟩
    · obtain ⟨count, next, hcall, -, hnext, hoff, hcommon, hpos⟩ :=
        putBufferDataCallback_step h (sizes n)
      have hroom : 0 < (sizes n).size.toNatClampNeg := by
        have hpos := (sizes n).pos
        rw [Int32.toNatClampNeg]
        omega
      have hshare : 0 < data.share (sizes n) := by
        unfold ObjectCallbackData.share
        omega
      have hshare_left : data.share (sizes n) ≤ data.bufferSize.toNat := min_le_right _ _
      have hnextTotal := hnext.total
      have hrest : next.bufferSize.toNat = data.bufferSize.toNat - data.share (sizes n) := by omega
      obtain ⟨last, hpull, hlastBuffer, hlastCommon, hlastPos⟩ := ih (n + 1) hnext (by omega)
      have hbuffer : next.buffer = data.buffer := hnext.buffer.trans h.buffer.symm
      refine ⟨last, ?_, hlastBuffer.trans hbuffer, hlastCommon.trans hcommon,
        hlastPos.trans hpos⟩
      have hchunk : ((object.chars.drop data.curOffset.toNat).take (data.share (sizes n))).length
          = data.share (sizes n) := by
        rw [List.length_take, List.length_drop, StringView.length_chars]
        omega
      rw [pullBody, if_neg hzero, hcall]
      simp only [bind, Except.bind, hchunk, ← hrest, hpull]
      -- the piece and the rest make up what was left
      rw [hoff, ← List.drop_drop, List.take_append_drop]
      rfl

/-- **The SDK receives the object.** Whatever buffers it offers, an SDK that pulls the
announced length gets exactly the object's bytes. -/
theorem pullBody_uploadData (object : StringView) (sizes : ℕ → BufferSize) :
    ∃ next, pullBody sizes (uploadData object).bufferSize.toNat 0
        (uploadData object).bufferSize.toNat (uploadData object) = .ok (object.chars, next) ∧
      next.buffer = some object ∧ next.common = {} ∧ next.obsNextAppendPosition = 0 := by
  simpa [uploadData] using
    pullBody_uploading sizes _ 0 (uploading_uploadData object) le_rfl

/-! ## A sequence of calls

The SDK decides how often it calls and with how much room. `pulls` is any such sequence, and
what it hands out is a prefix of the object whose length the rooms alone determine. -/

/-- One call of the body callback: what it returned, what it copied, the data after it. -/
structure Pull where
  count : Int32
  chunk : Bytes
  data : ObjectCallbackData

def pulls : List BufferSize → ObjectCallbackData → Except Failure (List Pull)
  | [], _ => .ok []
  | b :: rest, data => do
    let (count, chunk, data) ← putBufferDataCallback b.size data
    let later ← pulls rest data
    return { count, chunk, data } :: later

def sentBefore (calls : List Pull) (k : ℕ) : ℕ := ((calls.take k).flatMap Pull.chunk).length

/-- Later pulls find no less sent. -/
theorem sentBefore_mono (calls : List Pull) {k j : ℕ} (h : k ≤ j) :
    sentBefore calls k ≤ sentBefore calls j := by
  have hsub : (calls.take k).Sublist (calls.take j) := (List.take_prefix_take_left h).sublist
  exact (hsub.flatMap Pull.chunk).length_le

/-- No pull finds more sent than there is to send. -/
theorem sentBefore_le (calls : List Pull) (k : ℕ) :
    sentBefore calls k ≤ (calls.flatMap Pull.chunk).length :=
  ((List.take_sublist k calls).flatMap Pull.chunk).length_le

/-- The calls of a sequence that starts anywhere in an upload. Induction on the buffers, the
upload state carrying the offset from one call to the next. -/
theorem pulls_uploading {object : StringView} (sizes : List BufferSize)
    {data : ObjectCallbackData} (h : Uploading object data) :
    ∃ calls, pulls sizes data = .ok calls ∧ calls.length = sizes.length ∧
      calls.flatMap Pull.chunk = (object.chars.drop data.curOffset.toNat).take
        (sizes.map (·.size.toNatClampNeg)).sum ∧
      ∀ k b, sizes[k]? = some b → ∃ p, calls[k]? = some p ∧ Uploading object p.data ∧
        p.count.toInt = (p.chunk.length : ℤ) ∧
        p.chunk.length = min b.size.toNatClampNeg
          (object.size.toNat - (data.curOffset.toNat + sentBefore calls k)) := by
  induction sizes generalizing data with
  | nil => exact ⟨[], rfl, rfl, by simp, by simp⟩
  | cons b rest ih =>
    obtain ⟨count, next, hcall, hcount, hnext, hoff, -, -⟩ := putBufferDataCallback_step h b
    obtain ⟨later, hlater, hlength, hchunks, heach⟩ := ih hnext
    have htotal := h.total
    set chunk := (object.chars.drop data.curOffset.toNat).take (data.share b) with hchunk
    have hlen : chunk.length = data.share b := by
      have : data.share b ≤ data.bufferSize.toNat := min_le_right _ _
      rw [hchunk, List.length_take, List.length_drop, StringView.length_chars]
      omega
    have hshare : data.share b = min b.size.toNatClampNeg
        (object.size.toNat - data.curOffset.toNat) := by
      unfold ObjectCallbackData.share
      omega
    refine ⟨{ count, chunk, data := next } :: later, ?_, by simp [hlength], ?_, ?_⟩
    · simp only [pulls, hcall, bind, Except.bind, hlater]
      rfl
    · -- the first piece, then the prefix of what is left
      rw [List.flatMap_cons, hchunks, hoff, ← List.drop_drop, List.map_cons, List.sum_cons]
      show chunk ++ _ = _
      set tail := object.chars.drop data.curOffset.toNat with htail
      have htailLen : tail.length = object.size.toNat - data.curOffset.toNat := by
        rw [htail, List.length_drop, StringView.length_chars]
      rcases Nat.lt_or_ge b.size.toNatClampNeg tail.length with hfit | hall
      · rw [hchunk, show data.share b = b.size.toNatClampNeg by omega, List.take_add]
      · have hle : tail.length ≤ data.share b := by omega
        have hlast : chunk = tail := hchunk.trans (List.take_of_length_le hle)
        rw [List.drop_eq_nil_of_le hle, List.take_nil, List.append_nil, hlast,
          List.take_of_length_le (by omega)]
    · intro k b' hb'
      cases k with
      | zero =>
        obtain rfl : b = b' := by simpa using hb'
        exact ⟨_, rfl, hnext, by rw [hcount, hlen], by simp [hlen, hshare, sentBefore]⟩
      | succ k =>
        obtain ⟨p, hp, hupload, hpcount, hplen⟩ := heach k b' (by simpa using hb')
        refine ⟨p, by simpa using hp, hupload, hpcount, ?_⟩
        rw [hplen, hoff]
        congr 2
        simp only [sentBefore, List.take_succ_cons, List.flatMap_cons, List.length_append, hlen]
        omega

/-! ## The operations as functions of the service's answer -/

/-- The position a reply leaves in the callback data of an append. -/
def Reply.nextAppendPosition (reply : Reply) : UInt64 :=
  match reply.properties.bind (·.obsNextAppendPosition) with
  | some position => (atoll position).toUInt64
  | none => 0

/-- The headers are there, or the object can be printed in their place. -/
def Reply.Prints (reply : Reply) (object : StringView) : Prop :=
  reply.properties = none → object.Readable

/-- The headers of an upload can be printed when its object's view can be read as a C string. -/
theorem Reply.prints_of_readable (reply : Reply) {object : StringView} (h : object.Readable) :
    reply.Prints object :=
  fun _ => h

/-- The end of an upload, when what it prints can be read. -/
theorem finish_eq {reply : Reply} {object : StringView} {data : ObjectCallbackData}
    (hprints : reply.Prints object) (hbuffer : data.buffer = some object)
    (hpos : data.obsNextAppendPosition = 0) :
    ∃ done, data.finish reply = .ok done ∧ done.common.retStatus = reply.status ∧
      done.common.errorDetails = reply.errorDetails.getD {} ∧
      done.obsNextAppendPosition = reply.nextAppendPosition := by
  unfold ObjectCallbackData.finish responsePropertiesCallback Reply.nextAppendPosition
  cases hp : reply.properties with
  | none =>
    obtain ⟨body, hbody⟩ := (hprints hp).cString
    have hset : data.buffer.bind (·.cString) = some body := by rw [hbuffer]; exact hbody
    refine ⟨{ data with
        common := responseCompleteCallback reply.status reply.errorDetails data.common },
      ?_, rfl, rfl, by simpa using hpos⟩
    simp only [hset]
    rfl
  | some p =>
    cases hn : p.obsNextAppendPosition with
    | none =>
      exact ⟨{ data with common := _ }, by simp [hn]; rfl, rfl, rfl, by simpa [hn] using hpos⟩
    | some position =>
      exact ⟨{ data with common := _, obsNextAppendPosition := _ }, by simp [hn]; rfl, rfl, rfl,
        by simp [hn]⟩

/-- Without headers the callback prints the object, past its end where no NUL stops it. -/
theorem finish_unreadable {reply : Reply} {object : StringView} {data : ObjectCallbackData}
    (hprints : ¬ reply.Prints object) (hbuffer : data.buffer = some object) :
    data.finish reply = .error .undefinedBehaviour := by
  obtain ⟨hnull, hread⟩ := Classical.not_imp.mp hprints
  have hunset : data.buffer.bind (·.cString) = none := by
    rw [hbuffer]
    exact StringView.cString_eq_none hread
  unfold ObjectCallbackData.finish responsePropertiesCallback
  simp only [hnull, hunset]
  rfl

/-- The service gets the key as it is read and the whole body. -/
theorem putObject_bucket (call : PutCall) (B : Bucket) {key : StringView} {k : CString}
    (hkey : key.Reads k) (object : StringView) :
    (putObject call B key object).1 = (call.serve B k object.chars).1 := by
  obtain ⟨data, hpull, -⟩ := pullBody_uploadData object call.sizes
  unfold putObject
  simp only [hkey.cString, hpull]

/-- The bucket behind `append_object` is the one its request leaves. -/
theorem appendObject_bucket (call : AppendCall) (B : Bucket) {key : StringView} {k : CString}
    (hkey : key.Reads k) (object : StringView) (startPos : UInt64) :
    (appendObject call B key object startPos).1 =
      (call.serve B k (decimal startPos.toNat) object.chars).1 := by
  obtain ⟨data, hpull, -⟩ := pullBody_uploadData object call.sizes
  unfold appendObject
  simp only [hkey.cString, hpull]

/-- **`put_object` in one line**: the service gets the key and the whole body, and the call
throws unless the reply is `OBS_STATUS_OK`. -/
theorem putObject_eq (call : PutCall) (B : Bucket) {key object : StringView} {k : CString}
    (hkey : key.Reads k) (hprints : (call.serve B k object.chars).2.Prints object) :
    putObject call B key object =
      ((call.serve B k object.chars).1,
        let reply := (call.serve B k object.chars).2
        if reply.status = .OK then .ok ()
        else .error (.exception (thrownError (putObjectMessage key object) reply.status
          (reply.errorDetails.getD {})))) := by
  obtain ⟨data, hpull, hbuffer, hcommon, hpos⟩ := pullBody_uploadData object call.sizes
  obtain ⟨done, hfinish, hstatus, hdetails, -⟩ := finish_eq hprints hbuffer hpos
  unfold putObject
  simp only [hkey.cString, hpull, hfinish, bind, Except.bind, hstatus, hdetails]
  by_cases hok : (call.serve B k object.chars).2.status = .OK
  · rw [if_pos hok, if_neg (not_not.mpr hok)]
    rfl
  · rw [if_neg hok, if_pos hok]

/-- **`append_object` in one line**: the service gets the key, the printed position and the
whole body; the call returns the position of the reply, or throws. -/
theorem appendObject_eq (call : AppendCall) (B : Bucket) {key object : StringView} {k : CString}
    (hkey : key.Reads k) (startPos : UInt64)
    (hprints : (call.serve B k (decimal startPos.toNat) object.chars).2.Prints object) :
    appendObject call B key object startPos =
      ((call.serve B k (decimal startPos.toNat) object.chars).1,
        let reply := (call.serve B k (decimal startPos.toNat) object.chars).2
        if reply.status = .OK then .ok reply.nextAppendPosition
        else .error (.exception (thrownError
          (appendObjectMessage key object startPos reply.nextAppendPosition) reply.status
          (reply.errorDetails.getD {})))) := by
  obtain ⟨data, hpull, hbuffer, hcommon, hpos⟩ := pullBody_uploadData object call.sizes
  obtain ⟨done, hfinish, hstatus, hdetails, hnext⟩ := finish_eq hprints hbuffer hpos
  unfold appendObject
  simp only [hkey.cString, hpull, hfinish, bind, Except.bind, hstatus, hdetails, hnext]
  by_cases hok : (call.serve B k (decimal startPos.toNat) object.chars).2.status = .OK
  · rw [if_pos hok, if_neg (not_not.mpr hok)]
    rfl
  · rw [if_neg hok, if_pos hok]

/-- An upload that prints what it cannot read has no defined result. -/
theorem appendObject_unreadable (call : AppendCall) (B : Bucket) {key object : StringView}
    {k : CString} (hkey : key.Reads k) (startPos : UInt64)
    (hprints : ¬ (call.serve B k (decimal startPos.toNat) object.chars).2.Prints object) :
    (appendObject call B key object startPos).2 = .error .undefinedBehaviour := by
  obtain ⟨data, hpull, hbuffer, -⟩ := pullBody_uploadData object call.sizes
  unfold appendObject
  simp only [hkey.cString, hpull, finish_unreadable hprints hbuffer]
  rfl

/-- An append that returns was a request that completed. -/
theorem status_of_appendObject {call : AppendCall} {B : Bucket} {key object : StringView}
    {k : CString} (hkey : key.Reads k) {startPos next : UInt64}
    (h : (appendObject call B key object startPos).2 = .ok next) :
    (call.serve B k (decimal startPos.toNat) object.chars).2.status = .OK := by
  by_cases hprints : (call.serve B k (decimal startPos.toNat) object.chars).2.Prints object
  · rw [appendObject_eq call B hkey startPos hprints] at h
    dsimp only at h
    split at h
    · next hok => exact hok
    · cases h
  · rw [appendObject_unreadable call B hkey startPos hprints] at h
    cases h

/-! ## The whole account -/

/-- **An upload streams its object.** For any buffers the SDK offers, call `k` returns the
smaller of its room and the bytes not yet sent, the pieces are a prefix of the object, the
counters add up to its length, and a call that returns 0 finds everything sent, as do all
later ones. An SDK that pulls the announced length gets the object, and so does the service
at every call of the two operations whose key can be read, a repeated one included. -/
theorem upload_streams_object (object : StringView) :
    (∀ sizes : List BufferSize, ∃ calls, pulls sizes (uploadData object) = .ok calls ∧
      calls.length = sizes.length ∧
      calls.flatMap Pull.chunk = object.chars.take
        (min object.size.toNat (sizes.map (·.size.toNatClampNeg)).sum) ∧
      ∀ k b, sizes[k]? = some b → ∃ p, calls[k]? = some p ∧
        p.count.toInt = min b.size.toInt ((object.size.toNat : ℤ) - sentBefore calls k) ∧
        0 ≤ p.count.toInt ∧ p.count.toInt ≤ b.size.toInt ∧
        (p.chunk.length : ℤ) = p.count.toInt ∧
        p.data.curOffset.toNat + p.data.bufferSize.toNat = object.size.toNat ∧
        (p.count = 0 → sentBefore calls k = object.size.toNat ∧
          ∀ j q, k ≤ j → calls[j]? = some q → q.count = 0)) ∧
    (∀ sizes : ℕ → BufferSize, ∃ data, pullBody sizes object.size.toNat 0 object.size.toNat
      (uploadData object) = .ok (object.chars, data)) ∧
    (∀ (call : PutCall) (B : Bucket) (key : StringView) (k : CString), key.Reads k →
      (putObject call B key object).1 = (call.serve B k object.chars).1) ∧
    (∀ (call : AppendCall) (B : Bucket) (key : StringView) (k : CString) (startPos : UInt64),
      key.Reads k → (appendObject call B key object startPos).1 =
        (call.serve B k (decimal startPos.toNat) object.chars).1) := by
  refine ⟨fun sizes => ?_, fun sizes => ?_, fun call B key k hkey => ?_,
    fun call B key k startPos hkey => ?_⟩
  · obtain ⟨calls, hpulls, hlength, hchunks, heach⟩ :=
      pulls_uploading sizes (uploading_uploadData object)
    have hoff : (uploadData object).curOffset.toNat = 0 := rfl
    simp only [hoff, List.drop_zero, Nat.zero_add] at hchunks heach
    have hsent : ∀ k, sentBefore calls k ≤ object.size.toNat := by
      intro k
      have hle := sentBefore_le calls k
      rw [hchunks, List.length_take, StringView.length_chars] at hle
      omega
    refine ⟨calls, hpulls, hlength, ?_, fun k b hb => ?_⟩
    · rw [hchunks, ← StringView.length_chars, min_comm, ← List.take_eq_take_min]
    · obtain ⟨p, hp, hupload, hcount, hlen⟩ := heach k b hb
      have hk := hsent k
      have hroom := b.pos
      rw [Int32.toNatClampNeg] at hlen
      refine ⟨p, hp, by omega, by omega, by omega, hcount.symm, hupload.total, fun hzero => ?_⟩
      have hnone : p.count.toInt = 0 := by rw [hzero]; rfl
      have hall : sentBefore calls k = object.size.toNat := by omega
      refine ⟨hall, fun j q hj hq => ?_⟩
      -- a later call starts with everything sent
      have hjs : j < sizes.length := by
        rw [← hlength]
        exact (List.getElem?_eq_some_iff.mp hq).1
      obtain ⟨q', hq', -, hqcount, hqlen⟩ := heach j _ (List.getElem?_eq_getElem hjs)
      obtain rfl : q = q' := Option.some.inj (hq.symm.trans hq')
      have hmono := sentBefore_mono calls hj
      have hj' := hsent j
      apply Int32.toInt_inj.mp
      rw [hqcount]
      simp only [Int32.toInt_zero]
      omega
  · obtain ⟨data, hpull, -⟩ := pullBody_uploadData object sizes
    exact ⟨data, hpull⟩
  · exact putObject_bucket call B hkey object
  · exact appendObject_bucket call B hkey object startPos

end ObsBench
