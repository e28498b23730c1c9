import ObsBench.Client.DeletionBatches
import ObsBench.Client.DeletionService
import ObsBench.Client.UploadService
import ObsBench.Lib.Transition

/-!
# The test suite

Each test of `hw_obs_test` uses a key of its own with a random end, except `DeleteAll`, which works
on the whole bucket. What follows is the suite in any order, with any repetition and with any keys
drawn. Deletions are carried out, but an upload may be lost or go unreported: an expectation that
fails does not end a test, so the test still gets to its deletion.

* **`TestStep.restores`**: what one test does.
* **`tests_restore_bucket`**: what a run of tests does.
-/

namespace ObsBench

/-! ## The tests -/

def charset : CString := cstr "0123456789abcdefghijklmnopqrstuvwxyz"

theorem length_charset : charset.length = 36 := by decide +kernel

/-- `generate_random_key`, for what `dist(gen)` draws. -/
def generateRandomKey (keyPrefix : CString) (draws : Fin 8 → Fin 36) : CString :=
  keyPrefix ++ cstr "_" ++ List.ofFn fun i => charset.get ((draws i).cast length_charset.symm)

/-- `EXPECT_NO_THROW`. -/
def noThrow {α : Type} : Except Failure α → Bool
  | .ok _ => true
  | .error _ => false

/-- `EXPECT_THROW` with `std::exception`. -/
def throws {α : Type} : Except Failure α → Bool
  | .error (.exception _) => true
  | _ => false

/-- `PutObjectSuccess` and `PutLargeObject` on their data: the bucket, and the expectations. -/
def putAndDelete (put : PutCall) (delete : ℕ → BatchDeleteCall) (key : CString) (data : Bytes)
    (B : Bucket) : Bucket × List Bool :=
  let (B, stored) := putObject put B (.ofString key.bytes) (.ofString data)
  let (B, deleted) := deleteObjects delete B [key]
  (B, [noThrow stored, noThrow deleted])

def putObjectSuccess (put : PutCall) (delete : ℕ → BatchDeleteCall) (draws : Fin 8 → Fin 36) :
    Bucket → Bucket × List Bool :=
  putAndDelete put delete (generateRandomKey (cstr "unittest_put") draws)
    (text "Hello OBS, this is a put test.")

def putLargeObject (put : PutCall) (delete : ℕ → BatchDeleteCall) (draws : Fin 8 → Fin 36) :
    Bucket → Bucket × List Bool :=
  putAndDelete put delete (generateRandomKey (cstr "unittest_large") draws)
    (List.replicate (1024 * 1024) (byte 'a'))

/-- `AppendObjectSuccess`. -/
def appendObjectSuccess (append append' : AppendCall) (delete : DeleteCall)
    (draws : Fin 8 → Fin 36) (B : Bucket) : Bucket × List Bool :=
  let key : StringView := .ofString (generateRandomKey (cstr "unittest_append") draws).bytes
  let part1 := text "Hello "
  let part2 := text "World!"
  let (B, first) := appendObject append B key (.ofString part1) 0
  -- a call that throws assigns nothing
  let nextPos := first.toOption.getD 0
  let (B, second) := appendObject append' B key (.ofString part2) nextPos
  let lastPos := second.toOption.getD nextPos
  let (B, deleted) := deleteObject delete B key
  (B, [noThrow first, nextPos.toNat = part1.length, noThrow second,
    lastPos.toNat = part1.length + part2.length, noThrow deleted])

/-- `Throw`. -/
def throwTest (append : AppendCall) (draws : Fin 8 → Fin 36) (B : Bucket) : Bucket × List Bool :=
  let key : StringView := .ofString (generateRandomKey (cstr "unittest_throw") draws).bytes
  let (B, result) := appendObject append B key
    (.ofString (text "Hello OBS, this is a put test.")) 1000
  (B, [throws result])

/-! ## Tests as steps -/

inductive TestName where
  | putObjectSuccess
  | appendObjectSuccess
  | putLargeObject
  | throw
  | deleteAll
deriving DecidableEq

/-- A test that has run: the fates of the uploads it expects to succeed, and its expectations. -/
structure TestEvent where
  name : TestName
  fates : List Fate
  expectations : List Bool

def TestEvent.Passes (e : TestEvent) : Prop := ∀ met ∈ e.expectations, met = true

/-- A test on a service that carries out the deletions. -/
inductive TestStep : Bucket → TestEvent → Bucket → Prop where
  | putObjectSuccess {put : PutCall} {fate : Fate} {delete : ℕ → BatchDeleteCall}
      {draws : Fin 8 → Fin 36} {B B' : Bucket} {expectations : List Bool} (hput : put.Meets fate)
      (hdelete : ∀ n, (delete n).Meets fun _ => .removed)
      (h : putObjectSuccess put delete draws B = (B', expectations)) :
      TestStep B ⟨.putObjectSuccess, [fate], expectations⟩ B'
  | putLargeObject {put : PutCall} {fate : Fate} {delete : ℕ → BatchDeleteCall}
      {draws : Fin 8 → Fin 36} {B B' : Bucket} {expectations : List Bool} (hput : put.Meets fate)
      (hdelete : ∀ n, (delete n).Meets fun _ => .removed)
      (h : putLargeObject put delete draws B = (B', expectations)) :
      TestStep B ⟨.putLargeObject, [fate], expectations⟩ B'
  | appendObjectSuccess {append append' : AppendCall} {fate fate' : Fate} {delete : DeleteCall}
      {draws : Fin 8 → Fin 36} {B B' : Bucket} {expectations : List Bool}
      (happend : append.Meets fate) (happend' : append'.Meets fate') (hdelete : delete.Meets)
      (h : appendObjectSuccess append append' delete draws B = (B', expectations)) :
      TestStep B ⟨.appendObjectSuccess, [fate, fate'], expectations⟩ B'
  | throw {append : AppendCall} {fate : Fate} {draws : Fin 8 → Fin 36} {B B' : Bucket}
      {expectations : List Bool} (happend : append.Meets fate)
      (h : throwTest append draws B = (B', expectations)) :
      TestStep B ⟨.throw, [], expectations⟩ B'
  /-- `DeleteAll` expects nothing but to return. -/
  | deleteAll {storage : StorageReply} {listCalls : ℕ → ListRequest → ListReply}
      {delete : ℕ → BatchDeleteCall} {B B' : Bucket} {result : Except Failure ℕ}
      (hstorage : storage.Counts)
      (hcalls : ∀ n marker, (listCalls n (listRequest [] (cstr "/") marker)).Completes)
      (hpages : ∀ n marker, (listCalls n (listRequest [] (cstr "/") marker)).Pages B
        (listRequest [] (cstr "/") marker))
      (hdelete : ∀ n, (delete n).Meets fun _ => .removed)
      (h : Returns (deleteAll storage listCalls delete B) (B', result)) :
      TestStep B ⟨.deleteAll, [], [noThrow result]⟩ B'

/-! ## What one test does -/

/-- No object of the bucket has a name that a test could draw. -/
def Bucket.Clean (B : Bucket) : Prop := ∀ k ∈ B, ¬ cstr "unittest_" <+: k

/-- A clean bucket holds no key a test draws. -/
theorem Bucket.Clean.lookup {B : Bucket} (h : B.Clean) {keyPrefix : CString}
    (hstarts : cstr "unittest_" <+: keyPrefix) (draws : Fin 8 → Fin 36) :
    B.lookup (generateRandomKey keyPrefix draws) = none := by
  rw [Finmap.lookup_eq_none]
  intro hmem
  refine h _ hmem (hstarts.trans ?_)
  rw [generateRandomKey, List.append_assoc]
  exact List.prefix_append ..

/-- A deletion undoes what only touched a key that was not there. -/
theorem erase_of_frame {B B' : Bucket} {key : CString} (h : B.lookup key = none)
    (hframe : ∀ k, k ≠ key → B'.lookup k = B.lookup k) : Finmap.erase key B' = B := by
  apply Finmap.ext_lookup
  intro k
  by_cases hk : k = key
  · rw [hk, Finmap.lookup_erase, h]
  · rw [Finmap.lookup_erase_ne hk, hframe k hk]

/-- `EXPECT_NO_THROW` passes for a put exactly when it was applied and heard of. -/
theorem PutOutcome.noThrow_iff {B B' : Bucket} {key : CString} {body : Bytes} {fate : Fate}
    {result : Except Failure Unit} (h : PutOutcome B key body fate B' result) :
    noThrow result = true ↔ fate = .applied := by
  cases h <;> simp [noThrow]

/-- A put and its deletion leave the bucket as it was, whatever became of the put. -/
theorem putAndDelete_restores {put : PutCall} {fate : Fate} {delete : ℕ → BatchDeleteCall}
    (hput : put.Meets fate) (hdelete : ∀ n, (delete n).Meets fun _ => .removed) {B : Bucket}
    {key : CString} (h : B.lookup key = none) (data : Bytes) :
    putAndDelete put delete key data B = (B, [decide (fate = .applied), true]) := by
  have houtcome := putObject_outcome (StringView.reads_ofString key) hput B
    (StringView.readable_ofString data)
  rw [putAndDelete]
  dsimp only
  rw [deleteObjects_meets (fun _ => .removed) hdelete]
  dsimp only
  rw [Bucket.remove, if_pos rfl, Bucket.remove,
    erase_of_frame h fun k hk => houtcome.frame hk,
    Bool.eq_iff_iff.mpr (houtcome.noThrow_iff.trans decide_eq_true_iff.symm)]
  rfl

/-- `EXPECT_NO_THROW` passes for an append at the end exactly when it was applied and heard of. -/
theorem AppendOutcome.noThrow_iff {B B' : Bucket} {key : CString} {body : Bytes}
    {startPos : UInt64} {fate : Fate} {result : Except Failure UInt64}
    (h : AppendOutcome B key body startPos fate B' result)
    (hpos : startPos.toNat = (B.content key).length) :
    noThrow result = true ↔ fate = .applied := by
  cases h with
  | applied => simp [noThrow]
  | appliedButError => simp [noThrow]
  | lost => simp [noThrow]
  | refused hne => exact absurd hpos hne

/-- An append that creates its object. -/
theorem appendObject_new {append : AppendCall} (happend : append.Meets .applied) {B : Bucket}
    {key : StringView} {k : CString} (hkey : key.Reads k) (habsent : B.lookup k = none)
    (object : StringView) (hlength : object.chars.length < 2 ^ 63) :
    ∃ next, appendObject append B key object 0 = (B.insert k object.chars, .ok next) ∧
      next.toNat = object.chars.length := by
  have hempty := Bucket.content_of_absent habsent
  have hstart : (0 : UInt64).toNat = (B.content k).length := by
    rw [hempty]
    rfl
  obtain ⟨next, hreturn, hnext⟩ := appendObject_applied hkey happend object hstart
  rw [hempty] at hreturn hnext
  rw [List.length_nil] at hnext
  exact ⟨next, hreturn, by omega⟩

/-- Whatever became of the first append, the second one and the deletion follow. -/
theorem appendObjectSuccess_restores {append append' : AppendCall} {fate fate' : Fate}
    {delete : DeleteCall} (happend : append.Meets fate) (happend' : append'.Meets fate')
    (hdelete : delete.Meets) {B : Bucket} {draws : Fin 8 → Fin 36}
    (h : B.lookup (generateRandomKey (cstr "unittest_append") draws) = none) :
    ∃ expectations, appendObjectSuccess append append' delete draws B = (B, expectations) ∧
      ((∀ met ∈ expectations, met = true) ↔ fate = .applied ∧ fate' = .applied) := by
  have hkey := StringView.reads_ofString (generateRandomKey (cstr "unittest_append") draws)
  have hreadable : ∀ part, (StringView.ofString (text part)).Readable :=
    fun part => StringView.readable_ofString (text part)
  rw [appendObjectSuccess]
  generalize StringView.ofString (generateRandomKey (cstr "unittest_append") draws).bytes = key
    at hkey ⊢
  generalize generateRandomKey (cstr "unittest_append") draws = k at h hkey
  have hstart : (0 : UInt64).toNat = (B.content k).length := by
    rw [Bucket.content_of_absent h]
    rfl
  have hfirst := appendObject_outcome hkey happend B (hreadable "Hello ") 0
  have hsecond := appendObject_outcome hkey happend'
    (appendObject append B key (.ofString (text "Hello ")) 0).1 (hreadable "World!")
    ((appendObject append B key (.ofString (text "Hello ")) 0).2.toOption.getD 0)
  refine ⟨_, Prod.ext ?_ rfl, ?_⟩
  · -- the bucket: the appends touch the drawn key alone, and it is deleted
    dsimp only
    rw [deleteObject_meets hdelete _ hkey]
    exact erase_of_frame h fun k hk => (hsecond.frame hk).trans (hfirst.frame hk)
  · -- the expectations: the second append starts where the first one returned
    simp only [List.forall_mem_cons, hfirst.noThrow_iff hstart]
    refine and_congr_right fun hfate => ?_
    subst hfate
    obtain ⟨next, hreturn, hnext⟩ :=
      appendObject_new happend hkey h (.ofString (text "Hello ")) (by decide)
    have hpos : next.toNat = (Bucket.content (B.insert k
        (StringView.ofString (text "Hello ")).chars) k).length := by
      rw [hnext, Bucket.content_insert]
    simp only [hreturn] at hsecond ⊢
    rw [hsecond.noThrow_iff hpos]
    constructor
    · exact fun hmet => hmet.2.1
    · intro hfate'
      subst hfate'
      obtain ⟨last, hreturn', hlast⟩ :=
        appendObject_applied hkey happend' (.ofString (text "World!")) hpos
      rw [Bucket.content_insert] at hlast
      refine ⟨decide_eq_true (hnext.trans (by decide)), rfl, decide_eq_true ?_, ?_, by simp⟩
      · show ((appendObject append' _ key _ next).2.toOption.getD next).toNat = _
        rw [hreturn']
        exact hlast.trans (by decide)
      · rw [deleteObject_meets hdelete _ hkey]
        rfl

/-- The service takes no append behind the end of an object, so none to one that is not there. -/
theorem throwTest_restores {append : AppendCall} {fate : Fate} (happend : append.Meets fate)
    {B : Bucket} {draws : Fin 8 → Fin 36}
    (h : B.lookup (generateRandomKey (cstr "unittest_throw") draws) = none) :
    throwTest append draws B = (B, [true]) := by
  have hkey := StringView.reads_ofString (generateRandomKey (cstr "unittest_throw") draws)
  have hpos : (1000 : UInt64).toNat ≠
      (B.content (generateRandomKey (cstr "unittest_throw") draws)).length := by
    rw [Bucket.content_of_absent h]
    decide
  obtain ⟨e, he⟩ := appendObject_refused hkey happend hpos
    (Reply.prints_of_readable _ (StringView.readable_ofString
      (text "Hello OBS, this is a put test.")))
  rw [throwTest]
  dsimp only
  rw [he]
  rfl

/-- What one test does to a bucket with no object under a test's name. -/
theorem TestStep.restores {B B' : Bucket} {e : TestEvent} (h : TestStep B e B') (hB : B.Clean) :
    (e.Passes ↔ ∀ fate ∈ e.fates, fate = .applied) ∧ (e.name ≠ .deleteAll → B' = B) ∧
      (∀ k, B'.lookup k = B.lookup k ∨ B'.lookup k = none) ∧
      (e.name = .deleteAll → (∀ k ∈ B, k ≠ [] ∧ ¬ cstr "/" <:+: k) → B' = ∅) := by
  cases h with
  | putObjectSuccess hput hdelete h =>
    rw [ObsBench.putObjectSuccess,
      putAndDelete_restores hput hdelete (hB.lookup (by decide) _)] at h
    obtain ⟨rfl, rfl⟩ := Prod.mk.inj h
    exact ⟨by simp [TestEvent.Passes], fun _ => rfl, fun _ => .inl rfl, by simp⟩
  | putLargeObject hput hdelete h =>
    rw [ObsBench.putLargeObject,
      putAndDelete_restores hput hdelete (hB.lookup (by decide) _)] at h
    obtain ⟨rfl, rfl⟩ := Prod.mk.inj h
    exact ⟨by simp [TestEvent.Passes], fun _ => rfl, fun _ => .inl rfl, by simp⟩
  | appendObjectSuccess happend happend' hdelete h =>
    obtain ⟨expectations, hrun, hmet⟩ :=
      appendObjectSuccess_restores happend happend' hdelete (hB.lookup (by decide) _)
    obtain ⟨rfl, rfl⟩ := Prod.mk.inj (hrun.symm.trans h)
    exact ⟨by simpa [TestEvent.Passes] using hmet, fun _ => rfl, fun _ => .inl rfl, by simp⟩
  | throw happend h =>
    rw [throwTest_restores happend (hB.lookup (by decide) _)] at h
    obtain ⟨rfl, rfl⟩ := Prod.mk.inj h
    exact ⟨by simp [TestEvent.Passes], fun _ => rfl, fun _ => .inl rfl, by simp⟩
  | deleteAll hstorage hcalls hpages hdelete h =>
    obtain ⟨keys, hreturns, -, hlisted, hall⟩ := deleteAll_returns hstorage hcalls hpages hdelete
    obtain ⟨rfl, rfl⟩ := Prod.mk.inj (hreturns.unique h)
    refine ⟨by simp [TestEvent.Passes, noThrow], by simp, fun k => ?_, fun _ hflat => ?_⟩
    · by_cases hk : k ∈ B.remove (fun _ => .removed) 0 keys
      · exact .inl (Bucket.lookup_remove_of_not_removed (Bucket.mem_remove.mp hk).2 B)
      · exact .inr (Finmap.lookup_eq_none.mpr hk)
    · -- the listing found every key
      apply Finmap.ext_lookup
      intro k
      rw [Finmap.lookup_empty, Finmap.lookup_eq_none, Bucket.mem_remove]
      rintro ⟨hk, hkept⟩
      obtain ⟨p, hp⟩ := List.mem_iff_getElem?.mp
        (hall (fun k hk => (hflat k hk).2) k hk (hflat k hk).1)
      exact hkept p hp rfl

/-! ## Runs of the suite -/

/-- A run so far: nothing but deletions happened to the objects it found. -/
structure Restored (B₀ : Bucket) (events : List TestEvent) (B : Bucket) : Prop where
  passes : ∀ e ∈ events, e.Passes ↔ ∀ fate ∈ e.fates, fate = .applied
  kept : (∀ e ∈ events, e.name ≠ .deleteAll) → B = B₀
  lookup : ∀ k, B.lookup k = B₀.lookup k ∨ B.lookup k = none
  emptied : (∃ e ∈ events, e.name = .deleteAll) → (∀ k ∈ B₀, k ≠ [] ∧ ¬ cstr "/" <:+: k) → B = ∅

theorem Restored.mem {B₀ B : Bucket} {events : List TestEvent} (h : Restored B₀ events B)
    {k : CString} (hk : k ∈ B) : k ∈ B₀ := by
  rcases h.lookup k with hsame | hgone
  · rw [← Finmap.lookup_isSome, ← hsame]
    exact Finmap.lookup_isSome.mpr hk
  · exact absurd hk (Finmap.lookup_eq_none.mp hgone)

/-- One more test: what the bucket first held it still holds, or a deletion took it. -/
theorem Restored.step {B₀ B B' : Bucket} {events : List TestEvent} {e : TestEvent}
    (h : Restored B₀ events B) (hclean : B₀.Clean) (hstep : TestStep B e B') :
    Restored B₀ (events ++ [e]) B' := by
  obtain ⟨hpasses, hkept, hlookup, hemptied⟩ := hstep.restores fun k hk => hclean k (h.mem hk)
  refine ⟨?_, fun hnone => ?_, fun k => ?_, fun hsome hflat => ?_⟩
  · intro e' he'
    rcases List.mem_append.mp he' with hearlier | hlast
    · exact h.passes e' hearlier
    · rwa [List.mem_singleton.mp hlast]
  · rw [hkept (hnone e (by simp)), h.kept fun e' he' => hnone e' (List.mem_append_left _ he')]
  · rcases hlookup k with hsame | hgone
    · rw [hsame]
      exact h.lookup k
    · exact .inr hgone
  · by_cases hname : e.name = .deleteAll
    · exact hemptied hname fun k hk => hflat k (h.mem hk)
    · -- an earlier test has emptied the bucket, and this one kept it so
      obtain ⟨e', he', hdelete⟩ := hsome
      rcases List.mem_append.mp he' with hearlier | hlast
      · rw [hkept hname, h.emptied ⟨e', hearlier, hdelete⟩ hflat]
      · rw [List.mem_singleton.mp hlast] at hdelete
        exact absurd hdelete hname

/-- **The tests clean up after themselves.** Whatever becomes of their uploads, a test passes
exactly when the uploads it expects to succeed are reported; without `DeleteAll` the bucket is in
the end what it was. `DeleteAll` changes no object it does not delete, and empties a bucket without
nested keys. -/
theorem tests_restore_bucket {B₀ B : Bucket} {events : List TestEvent} (hclean : B₀.Clean)
    (h : Transition.Run TestStep B₀ events B) :
    (∀ e ∈ events, e.Passes ↔ ∀ fate ∈ e.fates, fate = .applied) ∧
    ((∀ e ∈ events, e.name ≠ .deleteAll) → B = B₀) ∧
    (∀ k, B.lookup k = B₀.lookup k ∨ B.lookup k = none) ∧
    ((∃ e ∈ events, e.name = .deleteAll) → (∀ k ∈ B₀, k ≠ [] ∧ ¬ cstr "/" <:+: k) → B = ∅) := by
  have hrestored : Restored B₀ events B :=
    h.invariant (Restored B₀) ⟨by simp, fun _ => rfl, fun _ => .inl rfl, by simp⟩
      fun _ _ _ _ hinv hstep => hinv.step hclean hstep
  exact ⟨hrestored.passes, hrestored.kept, hrestored.lookup, hrestored.emptied⟩

/-- A put that goes unreported fails its test, and leaves nothing behind. -/
theorem tests_restore_bucket_unreported :
    ∃ expectations,
      Transition.Run TestStep (.ofKeys [cstr "a"])
        [⟨.putObjectSuccess, [.appliedButError], expectations⟩] (.ofKeys [cstr "a"]) ∧
      ¬ TestEvent.Passes ⟨.putObjectSuccess, [.appliedButError], expectations⟩ := by
  have hclean : (Bucket.ofKeys [cstr "a"]).Clean := by
    intro k hk
    obtain rfl := List.mem_singleton.mp (Bucket.mem_ofKeys.mp hk)
    decide
  obtain ⟨B, expectations, hrun⟩ : ∃ B expectations, Transition.Run TestStep (.ofKeys [cstr "a"])
      [⟨.putObjectSuccess, [.appliedButError], expectations⟩] B :=
    ⟨_, _, .single (@TestStep.putObjectSuccess _ _ _ (fun _ => 0) _ _ _
      (PutCall.ofFate_meets .appliedButError) (fun _ => BatchDeleteCall.ofOutcome_meets _) rfl)⟩
  obtain ⟨hpasses, hkept, -⟩ := tests_restore_bucket hclean hrun
  obtain rfl : B = .ofKeys [cstr "a"] := hkept (by simp)
  refine ⟨expectations, hrun, ?_⟩
  rw [hpasses _ (List.mem_singleton_self _)]
  simp

end ObsBench
