import ObsBench.Client.Callbacks

/-!
# `put_object` and `append_object`

Both operations describe the body to the SDK by its length and a callback that hands it out
piece by piece, wait for the request to end, and throw unless the completion callback got
`OBS_STATUS_OK`. An append also names the position it writes at and returns the one the
service reports for the next append.
-/

namespace ObsBench

/-- The callback data `put_object` and `append_object` start from. -/
def uploadData (object : StringView) : ObjectCallbackData where
  buffer := some object
  bufferSize := object.size

/-- The SDK pulls the body it was announced: it calls back, from buffer `n` on, until it has
the `remaining` bytes. A callback that has nothing left to give makes it give up, which the
first argument counts down to. -/
def pullBody (sizes : ℕ → BufferSize) :
    ℕ → ℕ → ℕ → ObjectCallbackData → Except Failure (Bytes × ObjectCallbackData)
  | 0, _, _, data => .ok ([], data)
  | attempts + 1, n, remaining, data =>
    if remaining = 0 then .ok ([], data)
    else do
      let (_, chunk, data) ← putBufferDataCallback (sizes n).size data
      let (body, data) ← pullBody sizes attempts (n + 1) (remaining - chunk.length) data
      return (chunk ++ body, data)

def putObjectMessage (key object : StringView) : Bytes :=
  text "Error in put_object, key: " ++ key.chars ++ text ", size: " ++
    (decimal object.size.toNat).bytes

def appendObjectMessage (key object : StringView) (startPos next : UInt64) : Bytes :=
  text "Error in append_object, key: " ++ key.chars ++ text ", size: " ++
    (decimal object.size.toNat).bytes ++ text ", at [" ++ (decimal startPos.toNat).bytes ++
    text ", " ++ (decimal (startPos + next).toNat).bytes ++ text ")"

/-- `HuaweiCloudObs::put_object`. -/
def putObject (call : PutCall) (B : Bucket) (key object : StringView) :
    Bucket × Except Failure Unit :=
  let data := uploadData object
  let contentLength := data.bufferSize.toNat
  -- `::put_object` reads the key, pulls the body, then the service answers
  match key.cString with
  | none => (B, .error .undefinedBehaviour)
  | some k =>
    match pullBody call.sizes contentLength 0 contentLength data with
    | .error e => (B, .error e)
    | .ok (body, data) =>
      let (B', reply) := call.serve B k body
      (B', do
        let data ← data.finish reply
        if data.common.retStatus ≠ .OK then
          .error (.exception (thrownError (putObjectMessage key object)
            data.common.retStatus data.common.errorDetails))
        else return ())

/-- `HuaweiCloudObs::append_object`. The position travels as text both ways. -/
def appendObject (call : AppendCall) (B : Bucket) (key object : StringView) (startPos : UInt64) :
    Bucket × Except Failure UInt64 :=
  let data := uploadData object
  let contentLength := data.bufferSize.toNat
  match key.cString with
  | none => (B, .error .undefinedBehaviour)
  | some k =>
    match pullBody call.sizes contentLength 0 contentLength data with
    | .error e => (B, .error e)
    | .ok (body, data) =>
      let (B', reply) := call.serve B k (decimal startPos.toNat) body
      (B', do
        let data ← data.finish reply
        if data.common.retStatus ≠ .OK then
          .error (.exception (thrownError
            (appendObjectMessage key object startPos data.obsNextAppendPosition)
            data.common.retStatus data.common.errorDetails))
        else return data.obsNextAppendPosition)

end ObsBench
