import Mathlib.Data.Finmap
import ObsBench.Text

/-!
# The SDK interface

The client reaches the object service through a C library. This module fixes what crosses
that interface: the records the callbacks receive, as far as the client reads them, and one
record for each request, holding what the SDK does during the call.

The library and the service behind it are not part of the repository. A call of the SDK is
therefore a parameter: how it serves the request against the bucket, which buffers it offers
while it pulls a body, and what it finally passes to the callbacks. What a group of results
expects of such a parameter is stated by the predicates under `ObsBench.Service`.
-/

namespace ObsBench

/-- The objects of a bucket by key. -/
abbrev Bucket := Finmap fun _ : CString => Bytes

/-- `obs_status`. The client compares it with `OBS_STATUS_OK` and starts from
`OBS_STATUS_BUTT`; every further enumerator is carried by its number. -/
inductive ObsStatus where
  | OK
  | BUTT
  | other (code : ℕ)
deriving DecidableEq, Repr

/-- `obs_name_value`; a `char *` may be NULL. -/
structure ObsNameValue where
  name : Option CString
  value : Option CString
deriving DecidableEq

structure ObsErrorDetails where
  message : Option CString := none
  resource : Option CString := none
  furtherDetails : Option CString := none
  extraDetails : List ObsNameValue := []
  errorHeaders : List (Option CString) := []
deriving DecidableEq

/-- `obs_response_properties`: of the response headers the client reads one. -/
structure ObsResponseProperties where
  obsNextAppendPosition : Option CString := none
deriving DecidableEq

/-- `obs_delete_objects`: what a batch deletion reports about one key. -/
structure ObsDeleteObjects where
  key : CString
  code : Option CString
  message : Option CString
deriving DecidableEq

/-- How a request ends for the client: the argument of the properties callback (`none` for a
NULL pointer) and those of the completion callback. -/
structure Reply where
  properties : Option ObsResponseProperties
  status : ObsStatus
  errorDetails : Option ObsErrorDetails

/-! ## Uploads -/

/-- The size of a buffer the SDK offers the body callback: a positive `int`. -/
structure BufferSize where
  size : Int32
  pos : 0 < size.toInt

/-- One call of `::put_object`: the buffers it pulls the body with, and how the service takes
the key and the pulled body. -/
structure PutCall where
  sizes : ℕ → BufferSize
  serve : Bucket → CString → Bytes → Bucket × Reply

/-- One call of `::append_object`; the service also gets the position as text. -/
structure AppendCall where
  sizes : ℕ → BufferSize
  serve : Bucket → CString → CString → Bytes → Bucket × Reply

/-! ## Listing -/

/-- The arguments of `::list_bucket_objects`, NULL pointers as `none`. -/
structure ListRequest where
  keyPrefix : Option CString
  marker : Option CString
  delimiter : Option CString
  maxkeys : ℕ

/-- One invocation of the list callback. Of an entry in `contents` the client reads the key. -/
structure ListObjectsInvocation where
  isTruncated : Bool
  nextMarker : Option CString
  contents : List CString
  commonPrefixes : List CString

structure ListReply extends Reply where
  invocations : List ListObjectsInvocation

/-- The keys a page hands over, in order, however it is split into invocations. -/
def ListReply.contents (reply : ListReply) : List CString :=
  reply.invocations.flatMap (·.contents)

/-- `get_bucket_storage_info`: the object count comes back as text. -/
structure StorageReply extends Reply where
  objNum : CString

/-! ## Deletion -/

structure DeleteCall where
  serve : Bucket → CString → Bucket × Reply

/-- A batch deletion also reports on single keys, through the data callback. -/
structure BatchDeleteReply extends Reply where
  results : List ObsDeleteObjects

structure BatchDeleteCall where
  serve : Bucket → List CString → Bucket × BatchDeleteReply

end ObsBench
