import Mathlib.Data.Finset.Sort
import ObsBench.Lib.Scan
import ObsBench.Sdk

/-!
# What the client expects of listings

A listing shows a bucket as entries. With a delimiter, all keys that share a name up to the
first delimiter behind the prefix are one entry, a common prefix; every other key is its own
entry. Both kinds stand in one bytewise order and count towards a page.
-/

namespace ObsBench

def Bucket.ofKeys (keys : List CString) : Bucket := keys.foldr (fun key B => B.insert key []) ∅

@[simp] theorem Bucket.mem_ofKeys {keys : List CString} {k : CString} :
    k ∈ Bucket.ofKeys keys ↔ k ∈ keys := by
  induction keys with
  | nil => simpa [Bucket.ofKeys] using Finmap.notMem_empty
  | cons key rest ih =>
    rw [List.mem_cons, ← ih]
    exact Finmap.mem_insert

/-- `s` up to the end of the first `delimiter` in it. -/
def upTo (delimiter : CString) : CString → CString
  | [] => []
  | c :: rest => if delimiter <+: c :: rest then delimiter else c :: upTo delimiter rest

def ListRequest.behind (request : ListRequest) (key : CString) : CString :=
  key.drop (request.keyPrefix.getD []).length

def ListRequest.direct (request : ListRequest) (key : CString) : Bool :=
  match request.delimiter with
  | none => true
  | some delimiter => !decide (delimiter <:+: request.behind key)

/-- The entry a key appears as. -/
def ListRequest.entry (request : ListRequest) (key : CString) : CString :=
  if request.direct key then key
  else request.keyPrefix.getD [] ++ upTo (request.delimiter.getD []) (request.behind key)

/-- The entries of a bucket that match a request, its marker aside. -/
def Bucket.entries (B : Bucket) (request : ListRequest) : Finset CString :=
  (B.keys.filter (request.keyPrefix.getD [] <+: ·)).image request.entry

/-- The entries in order from the marker on; a NULL marker is in front of all keys. -/
def Bucket.ahead (B : Bucket) (request : ListRequest) : List CString :=
  Scan.after ((B.entries request).sort (· ≤ ·)) (request.marker.getD [])

/-- Headers that are there and name no append position. -/
def Reply.Plain (reply : Reply) : Prop :=
  ∃ p, reply.properties = some p ∧ p.obsNextAppendPosition = none

/-- A request with plain headers that completes with `OBS_STATUS_OK`. -/
def Reply.Completes (reply : Reply) : Prop := reply.Plain ∧ reply.status = .OK

/-- The page is an initial segment of the entries after the marker, not empty while any remain,
and its direct keys are handed over in order. -/
def ListReply.Pages (reply : ListReply) (B : Bucket) (request : ListRequest) : Prop :=
  ∃ page, Scan.Serves (B.entries request) (request.marker.getD []) page ∧
    page.length ≤ request.maxkeys ∧ reply.contents = page.filter request.direct

/-- The page is filled up to `maxkeys` entries. -/
def ListReply.Fills (reply : ListReply) (B : Bucket) (request : ListRequest) : Prop :=
  reply.contents = ((B.ahead request).take request.maxkeys).filter request.direct

def Bucket.listPage (B : Bucket) (request : ListRequest) : ListReply :=
  let page := (B.ahead request).take request.maxkeys
  { properties := some {}
    status := .OK
    errorDetails := none
    invocations := [{
      isTruncated := request.maxkeys < (B.ahead request).length
      nextMarker := page.getLast?
      contents := page.filter request.direct
      commonPrefixes := page.filter (!request.direct ·) }] }

/-- The statistics request succeeds and reports `n` objects in decimal. -/
def StorageReply.Reports (reply : StorageReply) (n : ℕ) : Prop :=
  (∃ p, reply.properties = some p) ∧ reply.status = .OK ∧ n < 2 ^ 64 ∧ reply.objNum = decimal n

/-- The statistics request succeeds; the count it reports need not be current. -/
def StorageReply.Counts (reply : StorageReply) : Prop := ∃ n, reply.Reports n

def StorageReply.ofCount (n : ℕ) : StorageReply where
  properties := some {}
  status := .OK
  errorDetails := none
  objNum := decimal n

theorem StorageReply.ofCount_reports {n : ℕ} (h : n < 2 ^ 64) : (ofCount n).Reports n :=
  ⟨⟨{}, rfl⟩, rfl, h, rfl⟩

theorem StorageReply.ofCount_counts {n : ℕ} (h : n < 2 ^ 64) : (ofCount n).Counts :=
  ⟨n, ofCount_reports h⟩

/-- The reference page ends its request normally. -/
theorem Bucket.listPage_completes (B : Bucket) (request : ListRequest) :
    (B.listPage request).toReply.Completes :=
  ⟨⟨{}, rfl, rfl⟩, rfl⟩

/-- The reference page holds the first names after the marker, as many as were asked for. -/
theorem Bucket.listPage_fills (B : Bucket) (request : ListRequest) :
    (B.listPage request).Fills B request := by
  simp [ListReply.Fills, ListReply.contents, listPage]

/-- A filled page is in particular a page of the listing. -/
theorem ListReply.Fills.pages {reply : ListReply} {B : Bucket} {request : ListRequest}
    (h : reply.Fills B request) (hmax : 0 < request.maxkeys) : reply.Pages B request :=
  ⟨(B.ahead request).take request.maxkeys, Scan.serves_take hmax,
    List.length_take_le _ _, h⟩

/-- A rolled-up name keeps the delimiter it is cut at. -/
theorem infix_upTo {delimiter s : CString} (h : delimiter <:+: s) :
    delimiter <:+: upTo delimiter s := by
  induction s with
  | nil => simpa [upTo] using h
  | cons c rest ih =>
    by_cases hhead : delimiter <+: c :: rest
    · rw [upTo, if_pos hhead]
    · rw [upTo, if_neg hhead]
      rcases List.infix_cons_iff.mp h with hprefix | hrest
      · exact absurd hprefix hhead
      · exact (ih hrest).trans (List.suffix_cons c _).isInfix

/-- Where no key is rolled up, the names of a listing are the keys with its prefix. -/
theorem Bucket.entries_of_direct {B : Bucket} {request : ListRequest}
    (h : ∀ k ∈ B, request.keyPrefix.getD [] <+: k → request.direct k) :
    B.entries request = B.keys.filter (request.keyPrefix.getD [] <+: ·) := by
  have hentry : Set.EqOn request.entry id (B.keys.filter (request.keyPrefix.getD [] <+: ·)) := by
    intro k hk
    rw [Finset.mem_coe, Finset.mem_filter, Finmap.mem_keys] at hk
    rw [ListRequest.entry, if_pos (h k hk.1 hk.2), id]
  rw [Bucket.entries, Finset.image_congr hentry, Finset.image_id]

/-- An entry is a direct key or no key at all: what a page shows as keys are the matching keys
without the delimiter. -/
theorem Bucket.mem_entries_and_direct (B : Bucket) (request : ListRequest) (name : CString) :
    (name ∈ B.entries request ∧ request.direct name) ↔
      name ∈ B ∧ request.keyPrefix.getD [] <+: name ∧ request.direct name := by
  constructor
  · rintro ⟨hentry, hdirect⟩
    obtain ⟨key, hkey, hname⟩ := Finset.mem_image.mp hentry
    rw [Finset.mem_filter, Finmap.mem_keys] at hkey
    by_cases hrolled : request.direct key
    · rw [ListRequest.entry, if_pos hrolled] at hname
      subst hname
      exact ⟨hkey.1, hkey.2, hdirect⟩
    · -- a common prefix contains the delimiter, so it is no direct name
      rw [ListRequest.entry, if_neg hrolled] at hname
      subst hname
      cases hdelim : request.delimiter with
      | none => simp [ListRequest.direct, hdelim] at hrolled
      | some delimiter =>
        simp only [ListRequest.direct, hdelim, Bool.not_eq_true', decide_eq_false_iff_not,
          not_not] at hrolled
        have hin := infix_upTo hrolled
        simp [ListRequest.direct, hdelim, ListRequest.behind] at hdirect hin
        exact absurd hin hdirect
  · rintro ⟨hmem, hprefix, hdirect⟩
    have hkey : name ∈ B.keys.filter (request.keyPrefix.getD [] <+: ·) :=
      Finset.mem_filter.mpr ⟨Finmap.mem_keys.mpr hmem, hprefix⟩
    exact ⟨Finset.mem_image.mpr ⟨name, hkey, by rw [ListRequest.entry, if_pos hdirect]⟩, hdirect⟩

/-- What a page hands over: keys after the marker, in order, all of them direct keys of the
bucket. -/
theorem ListReply.Pages.contents {reply : ListReply} {B : Bucket} {request : ListRequest}
    (h : reply.Pages B request) :
    reply.contents.Pairwise (· < ·) ∧
      ∀ k ∈ reply.contents, request.marker.getD [] < k ∧ k ∈ B ∧ request.direct k := by
  obtain ⟨page, hserves, -, hcontents⟩ := h
  rw [hcontents]
  refine ⟨hserves.pairwise.filter _, fun k hk => ?_⟩
  obtain ⟨hpage, hdirect⟩ := List.mem_filter.mp hk
  obtain ⟨hentry, hafter⟩ := hserves.mem hpage
  exact ⟨hafter, ((B.mem_entries_and_direct request k).mp ⟨hentry, hdirect⟩).1, hdirect⟩

/-- If all matching keys are direct, what a page hands over is an initial segment of them. -/
theorem ListReply.Pages.serves {reply : ListReply} {B : Bucket} {request : ListRequest}
    (h : reply.Pages B request)
    (hdirect : ∀ k ∈ B, request.keyPrefix.getD [] <+: k → request.direct k) :
    Scan.Serves (B.keys.filter (request.keyPrefix.getD [] <+: ·)) (request.marker.getD [])
      reply.contents := by
  obtain ⟨page, hserves, -, hcontents⟩ := h
  rw [Bucket.entries_of_direct hdirect] at hserves
  have hall : page.filter request.direct = page := by
    rw [List.filter_eq_self]
    intro k hk
    have hmem := (hserves.mem hk).1
    rw [Finset.mem_filter, Finmap.mem_keys] at hmem
    exact hdirect k hmem.1 hmem.2
  rw [hcontents, hall]
  exact hserves

end ObsBench
