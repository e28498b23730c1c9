import ObsBench.Client.UploadService
import ObsBench.Lib.AppendLog

/-!
# Appends of several writers

An object may be appended to by any number of writers, threads or processes, that know nothing of
each other. Each `append_object` names the position it writes at and meets the object as the calls
served before it left it; the service takes it only at the end of the object. So the order in which
the service serves the calls is all there is to their interleaving.

* **`appendAll_log`**: the object is a log of the calls that were taken.
* **`concurrent_appends`**: what the writers can rely on.
-/

namespace ObsBench

open AppendLog

/-- One call of `append_object`. -/
structure Append where
  call : AppendCall
  object : StringView
  startPos : UInt64

/-- Calls of `append_object` on one key, in the order the service serves them, with what each of
them gives its writer. -/
def appendAll (key : StringView) :
    Bucket → List Append → Bucket × List (Except Failure UInt64)
  | B, [] => (B, [])
  | B, append :: rest =>
    let (B', result) := appendObject append.call B key append.object append.startPos
    let (last, results) := appendAll key B' rest
    (last, result :: results)

def Append.entry (append : Append) : Entry Byte := ⟨append.startPos.toNat, append.object.chars⟩

/-- What is taken of a call: nothing, or its block at its position. -/
def Append.Takes (append : Append) (taken : Option (Entry Byte)) : Prop :=
  taken = none ∨ taken = some append.entry

/-- What a call reports of what is taken of it: if it returns, its block was taken, and it returns
the position behind the block as far as a `long long` reaches. -/
def Reports (result : Except Failure UInt64) (taken : Option (Entry Byte)) : Prop :=
  ∀ next, result = .ok next → ∃ e, taken = some e ∧ next.toNat = min e.stop (2 ^ 63 - 1)

variable {key : StringView} {k : CString} (hkey : key.Reads k)

include hkey in
/-- One call: its block is taken at the end of the object, or nothing happens. -/
theorem appendObject_takes (append : Append) {fate : Fate} (hcall : append.call.Meets fate)
    (B : Bucket) :
    let step := appendObject append.call B key append.object append.startPos
    ∃ taken, append.Takes taken ∧ Reports step.2 taken ∧
      step.1.content k = B.content k ++ contents taken.toList ∧
      ∀ e ∈ taken, e.pos = (B.content k).length := by
  intro step
  have hbucket : step.1 =
      (append.call.serve B k (decimal append.startPos.toNat) append.object.chars).1 :=
    appendObject_bucket append.call B hkey append.object append.startPos
  have hstatus : ∀ next, step.2 = .ok next →
      (append.call.serve B k (decimal append.startPos.toNat) append.object.chars).2.status = .OK :=
    fun next => status_of_appendObject hkey
  obtain ⟨haccepted, hrefused⟩ := hcall B k (decimal append.startPos.toNat) append.object.chars
  rw [Bucket.accepts_decimal] at haccepted hrefused
  by_cases hpos : append.startPos.toNat = (B.content k).length
  · obtain ⟨htaken, hok, -⟩ := haccepted hpos
    by_cases hlost : fate = .lost
    · refine ⟨none, .inl rfl, fun next hnext => ?_, ?_, nofun⟩
      · have happlied := hok.mp (hstatus next hnext)
        rw [hlost] at happlied
        cases happlied
      · rw [hbucket, htaken, if_pos hlost]
        exact (List.append_nil _).symm
    · refine ⟨some append.entry, .inr rfl, fun next hnext => ⟨_, rfl, ?_⟩, ?_, ?_⟩
      · -- it returns only what the service reports
        obtain rfl := hok.mp (hstatus next hnext)
        obtain ⟨next', hreturn, hvalue⟩ := appendObject_applied hkey hcall append.object hpos
        obtain rfl : next' = next :=
          Except.ok.inj ((congrArg Prod.snd hreturn).symm.trans hnext)
        rw [hvalue, Entry.stop, Append.entry, hpos]
      · rw [hbucket, htaken, if_neg hlost, Bucket.content_insert]
        simp [contents, Append.entry]
      · rintro e ⟨⟩
        exact hpos
  · obtain ⟨hkept, hfailed⟩ := hrefused hpos
    refine ⟨none, .inl rfl, fun next hnext => absurd (hstatus next hnext) hfailed, ?_, nofun⟩
    rw [hbucket, hkept]
    exact (List.append_nil _).symm

theorem appendAll_cons (key : StringView) (B : Bucket) (append : Append) (rest : List Append) :
    appendAll key B (append :: rest) =
      let step := appendObject append.call B key append.object append.startPos
      ((appendAll key step.1 rest).1, step.2 :: (appendAll key step.1 rest).2) := rfl

include hkey in
/-- Each call of a list gives a result, and what is taken of them tiles the object behind what it
held at first. Induction on the calls: the rest of them start from what the first one left. -/
theorem appendAll_log {appends : List Append}
    (hcalls : ∀ append ∈ appends, ∃ fate, append.call.Meets fate) (B : Bucket) :
    ∃ taken : List (Option (Entry Byte)), List.Forall₂ Append.Takes appends taken ∧
      List.Forall₂ Reports (appendAll key B appends).2 taken ∧
      Tiles (B.content k).length (taken.filterMap id) ∧
      (appendAll key B appends).1.content k =
        B.content k ++ contents (taken.filterMap id) := by
  induction appends generalizing B with
  | nil => exact ⟨[], .nil, .nil, trivial, (List.append_nil _).symm⟩
  | cons append rest ih =>
    obtain ⟨fate, hcall⟩ := hcalls append (List.mem_cons_self ..)
    have hfirst := appendObject_takes hkey append hcall B
    rw [appendAll_cons]
    generalize appendObject append.call B key append.object append.startPos = step at hfirst
    obtain ⟨first, htakes, hreports, hcontent, hpos⟩ := hfirst
    obtain ⟨taken, htakesRest, hreportsRest, htiles, hlast⟩ :=
      ih (fun a ha => hcalls a (List.mem_cons_of_mem _ ha)) step.1
    rw [hcontent] at htiles hlast
    refine ⟨first :: taken, .cons htakes htakesRest, .cons hreports hreportsRest, ?_,
      hlast.trans ?_⟩
    · -- an append that was taken starts where the object ended
      cases first with
      | none => simpa [contents] using htiles
      | some e =>
        refine ⟨hpos e rfl, ?_⟩
        simpa [contents, Entry.stop, hpos e rfl] using htiles
    · cases first <;> simp [contents]

theorem exists_of_forall₂ {α β : Type} {R : α → β → Prop} {l : List α} {l' : List β}
    (h : List.Forall₂ R l l') {n : ℕ} {a : α} (ha : l[n]? = some a) :
    ∃ b, l'[n]? = some b ∧ R a b := by
  obtain ⟨hn, rfl⟩ := List.getElem?_eq_some_iff.mp ha
  have hn' : n < l'.length := h.length_eq ▸ hn
  exact ⟨l'[n], List.getElem?_eq_getElem hn', h.get hn hn'⟩

/-- Blocks of the calls, at most one of each and in their order. -/
theorem sublist_of_takes {appends : List Append} {taken : List (Option (Entry Byte))}
    (h : List.Forall₂ Append.Takes appends taken) :
    (taken.filterMap id).Sublist (appends.map Append.entry) := by
  induction h with
  | nil => exact List.Sublist.slnil
  | cons htakes _ ih =>
    rcases htakes with rfl | rfl
    · exact ih.cons _
    · exact ih.cons_cons _

include hkey in
/-- **What writers of one object can rely on.** Whoever makes the calls and whatever becomes of the
requests, a call that returns has its block in the object for good, at the position it named, and
returns the position behind it, as far as a `long long` reaches; of two calls that return, the one
served first has its block in front of the other's, so no two blocks overlap. The object is what it
was at first, followed by blocks of the calls, at most one of each call and in the order they were
served. -/
theorem concurrent_appends {appends : List Append}
    (hcalls : ∀ append ∈ appends, ∃ fate, append.call.Meets fate) (B : Bucket) :
    ∃ last results, appendAll key B appends = (last, results) ∧
      (∀ (n : ℕ) (append : Append) (next : UInt64), appends[n]? = some append →
        results[n]? = some (.ok next) →
        ((last.content k).drop append.startPos.toNat).take append.object.chars.length =
            append.object.chars ∧
          next.toNat = min append.entry.stop (2 ^ 63 - 1) ∧
          ∀ (m : ℕ) (later : Append) (next' : UInt64), n < m → appends[m]? = some later →
            results[m]? = some (.ok next') → append.entry.stop ≤ later.startPos.toNat) ∧
      ∃ entries, entries.Sublist (appends.map Append.entry) ∧
        last.content k = B.content k ++ contents entries := by
  obtain ⟨taken, htakes, hreports, htiles, hcontent⟩ := appendAll_log hkey hcalls B
  set results := (appendAll key B appends).2 with hresults
  -- a call that returns has had its block taken
  have htaken : ∀ (n : ℕ) (append : Append) (next : UInt64), appends[n]? = some append →
      results[n]? = some (.ok next) →
      taken[n]? = some (some append.entry) ∧ next.toNat = min append.entry.stop (2 ^ 63 - 1) := by
    intro n append next happend hresult
    obtain ⟨entry, hentry, htake⟩ := exists_of_forall₂ htakes happend
    obtain ⟨entry', hentry', hreport⟩ := exists_of_forall₂ hreports hresult
    obtain rfl : entry = entry' := Option.some.inj (hentry.symm.trans hentry')
    obtain ⟨e, rfl, hnext⟩ := hreport next rfl
    obtain rfl : e = append.entry := Option.some.inj (htake.resolve_left nofun)
    exact ⟨hentry, hnext⟩
  refine ⟨_, _, rfl, fun n append next happend hresult => ?_, taken.filterMap id, ?_, hcontent⟩
  · obtain ⟨hn, hnext⟩ := htaken n append next happend hresult
    have hmem : append.entry ∈ taken.filterMap id :=
      List.mem_filterMap.mpr ⟨_, List.mem_of_getElem? hn, rfl⟩
    refine ⟨?_, hnext, fun m later next' hlt hlater hresult' => ?_⟩
    · rw [hcontent]
      exact htiles.read hmem
    · obtain ⟨hm, -⟩ := htaken m later next' hlater hresult'
      have hpairs := List.pairwise_iff_getElem.mp (List.pairwise_filterMap.mp htiles.pairwise)
      obtain ⟨hn', hentry⟩ := List.getElem?_eq_some_iff.mp hn
      obtain ⟨hm', hentry'⟩ := List.getElem?_eq_some_iff.mp hm
      exact hpairs n m hn' hm' hlt _ hentry _ hentry'
  · exact sublist_of_takes htakes

/-- Two writers race for position 0, and the one that is refused goes on behind the other. -/
def race : List Append :=
  [⟨.ofFate .applied, .ofString (text "Hello "), 0⟩,
    ⟨.ofFate .applied, .ofString (text "World!"), 0⟩,
    ⟨.ofFate .applied, .ofString (text "World!"), 6⟩]

theorem concurrent_appends_race :
    ∃ last e, appendAll (.ofString (text "k")) ∅ race = (last, [.ok 6, .error e, .ok 12]) ∧
      (last.content (cstr "k")).take 6 = text "Hello " ∧
      ((last.content (cstr "k")).drop 6).take 6 = text "World!" ∧
      ∃ entries, entries.Sublist (race.map Append.entry) ∧
        last.content (cstr "k") = contents entries := by
  have hcalls : ∀ append ∈ race, ∃ fate, append.call.Meets fate := by
    intro append happend
    simp only [race, List.mem_cons, List.not_mem_nil, or_false] at happend
    rcases happend with rfl | rfl | rfl <;> exact ⟨_, AppendCall.ofFate_meets .applied⟩
  obtain ⟨last, results, hrun, hblocks, entries, hsublist, hcontent⟩ :=
    concurrent_appends (StringView.reads_ofString (cstr "k")) hcalls ∅
  obtain ⟨e, hresults⟩ : ∃ e, results = [.ok 6, .error e, .ok 12] :=
    ⟨_, (congrArg Prod.snd hrun).symm.trans rfl⟩
  subst hresults
  exact ⟨last, e, hrun, (hblocks 0 _ 6 rfl rfl).1, (hblocks 2 _ 12 rfl rfl).1, entries, hsublist,
    hcontent⟩

end ObsBench
