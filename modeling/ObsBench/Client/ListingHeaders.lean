import ObsBench.Client.ListingRequests

/-!
# Response headers of a listing

`response_properties_callback` serves all operations and gets their data through `void *`. Whenever
it touches the data it does so as `object_callback_data`, which is what five of the operations pass;
a listing passes `list_object_callback_data`. Whether a page disturbs the listing is decided by its
headers alone.

* **`responsePropertiesCallback_listObject`**: a listing survives headers that lead to no access.
* **`listing_undisturbed_iff`**: the runs of `list_objects` that headers do not disturb.
-/

namespace ObsBench

/-- The structs that travel through `void *callback_data`. -/
inductive DataType where
  | object
  | listObject
deriving DecidableEq

def CallbackData.type : CallbackData → DataType
  | .object _ => .object
  | .listObject _ => .listObject

/-- The accesses of `response_properties_callback` to its data, each at the type it casts to. -/
def responsePropertiesAccesses : Option ObsResponseProperties → List DataType
  | none => [.object, .object]  -- reads `buffer` and `buffer_size`
  | some p =>
    match p.obsNextAppendPosition with
    | some _ => [.object]  -- writes `obs_next_append_position`
    | none => []

/-- The headers of a reply make no access exactly when it is plain. -/
theorem accesses_eq_nil_iff {reply : Reply} :
    responsePropertiesAccesses reply.properties = [] ↔ reply.Plain := by
  unfold Reply.Plain responsePropertiesAccesses
  cases reply.properties with
  | none => simp
  | some p => cases hp : p.obsNextAppendPosition <;> simp [hp]

/-- **A listing survives headers that lead to no access**, and those only. -/
theorem responsePropertiesCallback_listObject (properties : Option ObsResponseProperties)
    (data : ListObjectCallbackData) :
    responsePropertiesCallback properties (.listObject data) =
      if responsePropertiesAccesses properties = [] then .ok (.listObject data)
      else .error .undefinedBehaviour := by
  unfold responsePropertiesCallback responsePropertiesAccesses
  cases properties with
  | none => rfl
  | some p => cases hp : p.obsNextAppendPosition <;> simp [hp]

/-- The headers of a page are accessed at the type the listing passed, and they leave what the
listing collects as it was. -/
structure PageRequest.Undisturbed (page : PageRequest) : Prop where
  accesses : ∀ type ∈ responsePropertiesAccesses page.reply.properties,
    type = (CallbackData.listObject page.data).type
  collected : ∃ data, responsePropertiesCallback page.reply.properties (.listObject page.data) =
    .ok (.listObject data) ∧ data.keys = page.data.keys ∧ data.batchKeys = page.data.batchKeys

theorem undisturbed_iff {page : PageRequest} : page.Undisturbed ↔ page.reply.Plain := by
  rw [← accesses_eq_nil_iff]
  constructor
  · intro h
    obtain ⟨data, hdata, -⟩ := h.collected
    rw [responsePropertiesCallback_listObject] at hdata
    split at hdata
    · next hnil => exact hnil
    · exact absurd hdata (by simp)
  · intro hnil
    refine ⟨by simp [hnil], page.data, ?_, rfl, rfl⟩
    rw [responsePropertiesCallback_listObject, if_pos hnil]

/-- **When headers do not disturb a listing.** In every run of `list_objects`, the headers of each
page are accessed at the listing's type and leave its collections alone, and the returned vector is
made of the contents that were delivered, exactly when no page of the run comes with NULL headers
or with an append position. -/
theorem listing_undisturbed_iff (storage : StorageReply) (calls : ℕ → ListRequest → ListReply)
    (startKey keyPrefix delimiter : CString) :
    (∀ fuel,
      (∀ page ∈ listObjectsPages storage calls startKey keyPrefix delimiter fuel,
        page.Undisturbed) ∧
      ∀ keys requests,
        listObjects storage calls startKey keyPrefix delimiter fuel = some (.ok (keys, requests)) →
        keys = (listObjectsPages storage calls startKey keyPrefix delimiter fuel).flatMap
          (·.reply.contents)) ↔
    ∀ fuel, ∀ page ∈ listObjectsPages storage calls startKey keyPrefix delimiter fuel,
      page.reply.Plain := by
  constructor
  · intro h fuel page hpage
    exact undisturbed_iff.mp ((h fuel).1 page hpage)
  · intro h fuel
    exact ⟨fun page hpage => undisturbed_iff.mpr (h fuel page hpage),
      fun keys requests hreturn => (listObjects_pages hreturn).2⟩

/-- An empty page that comes with the given headers. -/
def pageWithHeaders (properties : Option ObsResponseProperties) : ListReply :=
  ⟨⟨properties, .OK, none⟩, []⟩

/-- A first page whose headers lead to an access disturbs the listing. -/
theorem disturbed_of_access {properties : Option ObsResponseProperties}
    (h : .object ∈ responsePropertiesAccesses properties) :
    ∃ page ∈ listObjectsPages (.ofCount 0) (fun _ _ => pageWithHeaders properties) [] []
      (cstr "/") 1,
      .object ∈ responsePropertiesAccesses page.reply.properties ∧ ¬ page.Undisturbed := by
  set page := pageRequest (fun _ _ => pageWithHeaders properties) [] (cstr "/") 0 [] {} with hpage
  have hdisturbed : ¬ page.reply.Plain := by
    rw [← accesses_eq_nil_iff]
    exact List.ne_nil_of_mem h
  have hdelivers : ¬ page.Delivers := fun hdelivers => hdisturbed hdelivers.1.1
  obtain ⟨e, hloop, -⟩ := listObjectsLoop_of_not_delivers (fun _ _ => pageWithHeaders properties) []
    (cstr "/") hdelivers
  have hpages : listObjectsPages (.ofCount 0) (fun _ _ => pageWithHeaders properties) [] []
      (cstr "/") 1 = [page] :=
    congrArg Prod.fst (hloop 0)
  rw [hpages]
  exact ⟨page, List.mem_singleton_self page, h, mt undisturbed_iff.mp hdisturbed⟩

/-- **Headers that disturb a listing.** The first page of a listing comes without headers, or with
an append position, and is accessed as the other struct. -/
theorem headers_disturb :
    (∃ page ∈ listObjectsPages (.ofCount 0) (fun _ _ => pageWithHeaders none) [] [] (cstr "/") 1,
      .object ∈ responsePropertiesAccesses page.reply.properties ∧ ¬ page.Undisturbed) ∧
    ∃ page ∈ listObjectsPages (.ofCount 0) (fun _ _ => pageWithHeaders (some ⟨some (cstr "0")⟩))
      [] [] (cstr "/") 1,
      .object ∈ responsePropertiesAccesses page.reply.properties ∧ ¬ page.Undisturbed :=
  ⟨disturbed_of_access (by decide), disturbed_of_access (by decide)⟩

end ObsBench
