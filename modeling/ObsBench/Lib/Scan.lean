import Mathlib.Data.Finset.Sort
import ObsBench.Lib.Batches
import Mathlib.Data.List.Sort
import Mathlib.Data.List.GetD

/-!
# Marker scans

A marker scan reads a sorted key space page by page: ask for the keys after a marker, keep
the page, move the marker to the last key of the page, stop at the first empty page. The
scan is described by the page oracle it runs against, `page n m` being what request number
`n` shows for marker `m`; nothing relates the oracle's answers to each other, so the key
space may change between two requests.

* **`Run`**: the scan as a relation between its start and its result, with the number of
  requests it took.
* **`Run.sorted`**, **`Run.pages`**, **`Run.complete`**: what a scan returns is ordered and
  was served, and a key that every page had to consider is returned.
* **`Run.exists`**: against an oracle that only moves forward the scan ends.
* **`Run.count_of_filled`**: how many requests a scan makes when pages are filled.
* **`Run.eq_filter_iff`**: when pages also carry keys the reader drops, the scan is complete
  exactly when no full page of dropped keys stands before a kept one.
-/

namespace Scan

variable {K : Type*}

/-- `Run page n m keys n'`: started with request number `n` and marker `m`, the scan returns
`keys`, and `n'` is the number of the first request it did not make. -/
inductive Run (page : ℕ → K → List K) : ℕ → K → List K → ℕ → Prop where
  | stop {n : ℕ} {m : K} (h : (page n m).getLast? = none) : Run page n m [] (n + 1)
  | more {n n' : ℕ} {m k : K} {rest : List K} (h : (page n m).getLast? = some k)
      (next : Run page (n + 1) k rest n') : Run page n m (page n m ++ rest) n'

theorem Run.lt {page : ℕ → K → List K} {n n' : ℕ} {m : K} {keys : List K}
    (h : Run page n m keys n') : n < n' := by
  induction h with
  | stop _ => omega
  | more _ _ ih => omega

/-- A scan that begins with an empty page ends there. -/
theorem Run.eq_nil {page : ℕ → K → List K} {n n' : ℕ} {m : K} {keys : List K}
    (h : Run page n m keys n') (hempty : page n m = []) : keys = [] := by
  cases h with
  | stop _ => rfl
  | more hlast _ =>
    rw [hempty] at hlast
    cases hlast

/-- A scan returns the pages of its requests, one behind the other. -/
theorem Run.pages {page : ℕ → K → List K} {n n' : ℕ} {m : K} {keys : List K}
    (h : Run page n m keys n') :
    ∃ pages : List (List K), pages.length = n' - n ∧ keys = pages.flatten ∧
      ∀ i p, pages[i]? = some p → ∃ m', p = page (n + i) m' := by
  induction h with
  | @stop n m hnone =>
    refine ⟨[page n m], by simp, ?_, fun i p hp => ?_⟩
    · simp [List.getLast?_eq_none_iff.mp hnone]
    · obtain ⟨rfl, rfl⟩ : i = 0 ∧ page n m = p := by
        cases i with
        | zero => simpa using hp
        | succ i => simp at hp
      exact ⟨m, rfl⟩
  | @more n n' m k rest _ next ih =>
    obtain ⟨pages, hlength, hrest, hpages⟩ := ih
    have hlt := next.lt
    refine ⟨page n m :: pages, by simp only [List.length_cons]; omega, by simp [hrest], ?_⟩
    intro i p hp
    cases i with
    | zero => exact ⟨m, by simpa using hp.symm⟩
    | succ i =>
      obtain ⟨m', hm'⟩ := hpages i p (by simpa using hp)
      exact ⟨m', by rw [hm', Nat.add_right_comm, Nat.add_assoc]⟩

/-- What holds of every key on a page holds of every key returned. -/
theorem Run.forall_mem {page : ℕ → K → List K} {P : K → Prop}
    (hpage : ∀ n m, ∀ k ∈ page n m, P k) {n n' : ℕ} {m : K} {keys : List K}
    (h : Run page n m keys n') : ∀ k ∈ keys, P k := by
  induction h with
  | stop _ => exact List.forall_mem_nil _
  | @more n n' m k rest _ _ ih => exact List.forall_mem_append.mpr ⟨hpage n m, ih⟩

/-! ## Kept and dropped keys -/

/-- No kept key of `l` comes after `size` consecutive dropped ones. -/
def NoDroppedPage (keep : K → Bool) (size : ℕ) (l : List K) : Prop :=
  ∀ pre page post, l = pre ++ page ++ post → page.length = size →
    (∀ k ∈ page, keep k = false) → ∀ k ∈ post, keep k = false

/-- Too few dropped keys for a page. -/
theorem noDroppedPage_of_few {keep : K → Bool} {size : ℕ} {l : List K}
    (h : (l.filter (!keep ·)).length < size) : NoDroppedPage keep size l := by
  intro pre page post heq hlen hdrop
  have hpage : page.filter (!keep ·) = page := by
    rw [List.filter_eq_self]
    intro k hk
    rw [hdrop k hk]
    rfl
  rw [heq, List.filter_append, List.filter_append, hpage, List.length_append,
    List.length_append] at h
  omega

/-- Cutting a list behind a kept key that lies on its first page does not change whether a
kept key comes after a full page of dropped ones. -/
theorem noDroppedPage_split {keep : K → Bool} {size : ℕ} {front back : List K} {k : K}
    (hk : keep k = true) (hfront : front.length < size) :
    NoDroppedPage keep size (front ++ k :: back) ↔ NoDroppedPage keep size back := by
  constructor
  · intro h pre page post heq
    exact h (front ++ k :: pre) page post (by simp [heq])
  · intro h pre page post heq hlen hdrop
    -- a dropped page cannot contain the kept key, so it lies behind it
    have hpre : front.length < pre.length := by
      by_contra hle
      have hget : (pre ++ page ++ post)[front.length]? = some k := by
        rw [← heq]
        simp
      rw [List.append_assoc, List.getElem?_append_right (by omega),
        List.getElem?_append_left (by omega)] at hget
      have := hdrop k (List.mem_of_getElem? hget)
      rw [hk] at this
      contradiction
    have hback : back = pre.drop (front.length + 1) ++ page ++ post := by
      have hdropped : (front ++ k :: back).drop (front.length + 1) =
          pre.drop (front.length + 1) ++ (page ++ post) := by
        rw [heq, List.append_assoc, List.drop_append_of_le_length (by omega)]
      have hnil : front.drop (front.length + 1) = [] := List.drop_eq_nil_of_le (by omega)
      simpa [List.drop_append, hnil] using hdropped
    exact h _ page post hback hlen hdrop

variable [LinearOrder K]

/-! ## What the pages of a scan promise -/

/-- Every page is increasing and lies after the marker it was asked for. -/
def Advances (page : ℕ → K → List K) : Prop :=
  ∀ n m, (page n m).Pairwise (· < ·) ∧ ∀ k ∈ page n m, m < k

/-- `Serves S m page`: `page` is an initial segment, in order, of the keys of `S` after `m`,
and it is empty only when there are none. -/
def Serves (S : Finset K) (m : K) (page : List K) : Prop :=
  page <+: (S.filter (m < ·)).sort (· ≤ ·) ∧ (page = [] → S.filter (m < ·) = ∅)

/-! ## Ordered lists -/

theorem le_getLast_of_pairwise {l : List K} (hl : l.Pairwise (· < ·)) {k last : K}
    (hlast : l.getLast? = some last) (hk : k ∈ l) : k ≤ last := by
  obtain ⟨front, rfl⟩ := List.getLast?_eq_some_iff.mp hlast
  rcases List.mem_append.mp hk with hfront | hend
  · exact le_of_lt ((List.pairwise_append.mp hl).2.2 k hfront last (by simp))
  · exact le_of_eq (by simpa using hend)

/-- An increasing list cut at one of its elements: the elements above it are what follows. -/
theorem filter_lt_of_split {l front back : List K} {k : K} (hl : l.Pairwise (· < ·))
    (heq : l = front ++ k :: back) : l.filter (k < ·) = back := by
  subst heq
  obtain ⟨_, hback, hcross⟩ := List.pairwise_append.mp hl
  have hfront : front.filter (k < ·) = [] := by
    rw [List.filter_eq_nil_iff]
    intro a ha
    have : a < k := hcross a ha k (by simp)
    simpa using le_of_lt this
  have hrest : back.filter (k < ·) = back := by
    rw [List.filter_eq_self]
    intro a ha
    simpa using (List.pairwise_cons.mp hback).1 a ha
  simp [List.filter_append, hfront, hrest]

/-! ## Pages served from a set of keys -/

theorem Serves.pairwise {S : Finset K} {m : K} {page : List K} (h : Serves S m page) :
    page.Pairwise (· < ·) :=
  (Finset.sortedLT_sort _).pairwise.sublist h.1.sublist

/-- A served page holds keys of the set that lie after the marker. -/
theorem Serves.mem {S : Finset K} {m k : K} {page : List K} (h : Serves S m page)
    (hk : k ∈ page) : k ∈ S ∧ m < k := by
  have hsort := h.1.subset hk
  simpa using hsort

/-- A page leaves no gap: a key of the set between the marker and the page's last key is on
the page. -/
theorem Serves.mem_of_le {S : Finset K} {m k last : K} {page : List K} (h : Serves S m page)
    (hlast : page.getLast? = some last) (hS : k ∈ S) (hm : m < k) (hle : k ≤ last) :
    k ∈ page := by
  obtain ⟨tail, htail⟩ := h.1
  have hk : k ∈ page ++ tail := by
    rw [htail]
    simp [hS, hm]
  rcases List.mem_append.mp hk with hpage | hbeyond
  · exact hpage
  · -- past the page every key is larger than the page's last one
    have hpair : (page ++ tail).Pairwise (· < ·) := by
      rw [htail]
      exact (Finset.sortedLT_sort _).pairwise
    have hlt := (List.pairwise_append.mp hpair).2.2 last (List.mem_of_getLast? hlast) k hbeyond
    exact absurd hle (not_le.mpr hlt)

/-- What a sorted set has after a marker is the sorted rest of the set. -/
theorem after_sort (S : Finset K) (m : K) :
    (S.sort (· ≤ ·)).filter (m < ·) = (S.filter (m < ·)).sort (· ≤ ·) := by
  have hleft : ((S.sort (· ≤ ·)).filter (m < ·)).Pairwise (· < ·) :=
    (Finset.sortedLT_sort S).pairwise.filter _
  apply hleft.eq_of_mem_iff (Finset.sortedLT_sort _).pairwise
  intro k
  simp

/-- The first keys after the marker are a page that is served. -/
theorem serves_take {S : Finset K} {m : K} {size : ℕ} (hsize : 0 < size) :
    Serves S m (((S.sort (· ≤ ·)).filter (m < ·)).take size) := by
  rw [after_sort]
  refine ⟨List.take_prefix _ _, fun hempty => ?_⟩
  rcases List.take_eq_nil_iff.mp hempty with hzero | hnone
  · omega
  · rw [← Finset.sort_toFinset (S.filter (m < ·)) (· ≤ ·), hnone, List.toFinset_nil]

/-- Pages served from sets move forward, whatever the sets are. -/
theorem advances_of_serves {page : ℕ → K → List K} {S : ℕ → Finset K}
    (h : ∀ n m, Serves (S n) m (page n m)) : Advances page :=
  fun n m => ⟨(h n m).pairwise, fun _ hk => ((h n m).mem hk).2⟩

theorem Advances.filter {page : ℕ → K → List K} (h : Advances page) (keep : K → Bool) :
    Advances fun n m => (page n m).filter keep :=
  fun n m => ⟨(h n m).1.filter keep, fun k hk => (h n m).2 k (List.mem_of_mem_filter hk)⟩

/-! ## What a scan returns -/

/-- A scan returns increasing keys, all after its marker. -/
theorem Run.sorted {page : ℕ → K → List K} (hadv : Advances page) {n n' : ℕ} {m : K}
    {keys : List K} (h : Run page n m keys n') :
    keys.Pairwise (· < ·) ∧ ∀ k ∈ keys, m < k := by
  induction h with
  | stop _ => simp
  | @more n n' m k rest hlast _ ih =>
    obtain ⟨hpage, hafter⟩ := hadv n m
    have hmk : m < k := hafter k (List.mem_of_getLast? hlast)
    constructor
    · refine List.pairwise_append.mpr ⟨hpage, ih.1, fun a ha b hb => ?_⟩
      exact lt_of_le_of_lt (le_getLast_of_pairwise hpage hlast ha) (ih.2 b hb)
    · intro a ha
      rcases List.mem_append.mp ha with hhere | hlater
      · exact hafter a hhere
      · exact lt_trans hmk (ih.2 a hlater)

/-- **A scan misses nothing that stayed.** A key after the marker that belongs to the key
space at every request is returned, whatever else comes and goes. -/
theorem Run.complete {page : ℕ → K → List K} {S : ℕ → Finset K}
    (hserve : ∀ n m, Serves (S n) m (page n m)) {n n' : ℕ} {m k : K} {keys : List K}
    (h : Run page n m keys n') (hS : ∀ i, n ≤ i → i < n' → k ∈ S i) (hm : m < k) :
    k ∈ keys := by
  induction h with
  | @stop n m hnone =>
    -- an empty page promises that nothing is left, and `k` is
    have hempty := (hserve n m).2 (List.getLast?_eq_none_iff.mp hnone)
    have hk : k ∈ (S n).filter (m < ·) := by
      simp [hS n le_rfl (by omega), hm]
    rw [hempty] at hk
    simp at hk
  | @more n n' m last rest hlast next ih =>
    have hnext := next.lt
    rcases le_or_gt k last with hle | hgt
    · exact List.mem_append_left _
        ((hserve n m).mem_of_le hlast (hS n le_rfl (by omega)) hm hle)
    · exact List.mem_append_right _ (ih (fun i hi hi' => hS i (by omega) hi') hgt)

/-! ## Termination -/

/-- The keys of a set that a marker has not reached. -/
def ahead (S : Finset K) (m : K) : Finset K := S.filter (m < ·)

@[simp] theorem mem_ahead {S : Finset K} {m k : K} : k ∈ ahead S m ↔ k ∈ S ∧ m < k :=
  Finset.mem_filter

/-- A marker that moves to a key of the set leaves fewer keys ahead. -/
theorem card_ahead_lt {S : Finset K} {m k : K} (hS : k ∈ S) (hm : m < k) :
    (ahead S k).card < (ahead S m).card := by
  refine Finset.card_lt_card (Finset.ssubset_iff_subset_ne.mpr ⟨fun a ha => ?_, fun heq => ?_⟩)
  · rw [mem_ahead] at ha ⊢
    exact ⟨ha.1, lt_trans hm ha.2⟩
  · have hk : k ∈ ahead S m := mem_ahead.mpr ⟨hS, hm⟩
    rw [← heq, mem_ahead] at hk
    exact lt_irrefl k hk.2

/-- **A scan ends.** If pages move forward inside a finite set of keys, the scan stops after
at most one request for each key after the marker, and one more. -/
theorem Run.exists {page : ℕ → K → List K} (hadv : Advances page) {S : Finset K}
    (hS : ∀ n m, ∀ k ∈ page n m, k ∈ S) (n : ℕ) (m : K) :
    ∃ keys n', Run page n m keys n' ∧ n' ≤ n + (S.filter (m < ·)).card + 1 := by
  induction hc : (S.filter (m < ·)).card using Nat.strong_induction_on generalizing n m with
  | _ c ih =>
    cases hlast : (page n m).getLast? with
    | none => exact ⟨[], n + 1, .stop hlast, by omega⟩
    | some k =>
      have hmem := List.mem_of_getLast? hlast
      have hmk : m < k := (hadv n m).2 k hmem
      have hlt : (S.filter (k < ·)).card < c := hc ▸ card_ahead_lt (hS n m k hmem) hmk
      obtain ⟨rest, n', hrun, hn'⟩ := ih _ hlt (n + 1) k rfl
      exact ⟨page n m ++ rest, n', .more hlast hrun, by omega⟩

/-! ## Pages that also carry dropped keys -/

abbrev after (l : List K) (m : K) : List K := l.filter (m < ·)

/-- Cutting twice is cutting at the later marker. -/
theorem after_after (l : List K) {m k : K} (h : m < k) : after (after l m) k = after l k := by
  rw [after, after, after, List.filter_filter]
  apply List.filter_congr
  intro a _
  have hiff : k < a ∧ m < a ↔ k < a := ⟨And.left, fun hka => ⟨hka, lt_trans h hka⟩⟩
  simpa using hiff

/-- A scan of the sorted list `l` in pages of `size` keys, keeping the keys `keep` accepts and
moving the marker over the kept keys alone. -/
def keptPage (l : List K) (keep : K → Bool) (size : ℕ) (_ : ℕ) (m : K) : List K :=
  ((after l m).take size).filter keep

/-- The kept part of the pages of an increasing list moves forward. -/
theorem keptPage_advances {l : List K} (hl : l.Pairwise (· < ·)) (keep : K → Bool) (size : ℕ) :
    Advances (keptPage l keep size) := by
  intro n m
  refine ⟨((hl.filter _).sublist (List.take_sublist _ _)).filter _, fun k hk => ?_⟩
  have htake := List.mem_of_mem_filter hk
  simpa using (List.mem_filter.mp (List.mem_of_mem_take htake)).2

/-- **When dropped keys cost nothing.** The scan returns all kept keys after its marker exactly
when none of them comes after a full page of dropped keys. Induction along the scan: the last
kept key of a page splits the remaining list, and the condition only concerns what follows. -/
theorem Run.eq_filter_iff {l : List K} (hl : l.Pairwise (· < ·)) {keep : K → Bool} {size n n' : ℕ}
    {m : K} {keys : List K} (h : Run (keptPage l keep size) n m keys n') :
    keys = (after l m).filter keep ↔ NoDroppedPage keep size (after l m) := by
  induction h with
  | @stop n m hnone =>
    have hpage : ∀ k ∈ (after l m).take size, keep k = false := by
      have hnil := List.getLast?_eq_none_iff.mp hnone
      simpa [keptPage, List.filter_eq_nil_iff] using hnil
    generalize after l m = ahead at hpage
    constructor
    · intro heq pre page post hsplit _ _ k hk
      have hnil : ahead.filter keep = [] := heq.symm
      rw [List.filter_eq_nil_iff] at hnil
      simpa using hnil k (by rw [hsplit]; simp [hk])
    · intro hno
      symm
      rw [List.filter_eq_nil_iff]
      intro k hk
      rw [← List.take_append_drop size ahead] at hk
      rcases List.mem_append.mp hk with htake | hdrop
      · simpa using hpage k htake
      · -- something is left beyond the first page, so that page is full
        have hlen : (ahead.take size).length = size := by
          have := List.length_pos_of_mem hdrop
          simp only [List.length_drop] at this
          simp only [List.length_take]
          omega
        simpa using hno [] (ahead.take size) (ahead.drop size) (by simp) hlen hpage k hdrop
  | @more n n' m k rest hlast _ ih =>
    -- split the first page at its last kept key `k`
    obtain ⟨kept, hkept⟩ := List.getLast?_eq_some_iff.mp hlast
    have hmem : k ∈ keptPage l keep size n m := List.mem_of_getLast? hlast
    have hkeep : keep k = true := (List.mem_filter.mp hmem).2
    obtain ⟨front, back, hpage, hfront, hback⟩ : ∃ front back,
        (after l m).take size = front ++ k :: back ∧ front.filter keep = kept ∧
          back.filter keep = [] := by
      unfold keptPage at hkept
      obtain ⟨left, right, hsplit, hleft, hright⟩ := List.filter_eq_append_iff.mp hkept
      obtain ⟨before, after, hright', hbefore, _, hafter⟩ := List.filter_eq_cons_iff.mp hright
      refine ⟨left ++ before, after, by simp [hsplit, hright'], ?_, hafter⟩
      rw [List.filter_append, hleft, List.filter_eq_nil_iff.mpr hbefore, List.append_nil]
    have hahead : after l m = front ++ k :: (back ++ (after l m).drop size) := by
      conv_lhs => rw [← List.take_append_drop size (after l m), hpage]
      simp
    have hrest : after l k = back ++ (after l m).drop size := by
      have hmk : m < k := ((keptPage_advances hl keep size) n m).2 k hmem
      rw [← after_after l hmk]
      exact filter_lt_of_split (hl.filter (m < ·)) hahead
    have hlen : front.length < size := by
      have := congrArg List.length hpage
      simp only [List.length_take, List.length_append, List.length_cons] at this
      omega
    rw [hahead, noDroppedPage_split hkeep hlen, ← hrest, ← ih]
    simp only [List.filter_append, List.filter_cons_of_pos hkeep, hfront]
    rw [hkept, List.append_assoc, List.singleton_append, List.append_cancel_left_eq,
      List.cons.injEq, and_iff_right rfl]

/-! ## Pages that are filled -/

/-- **How many requests a scan of full pages makes**: one for each batch of what is ahead, and one
to see that nothing is left. Induction along the scan. -/
theorem Run.count_of_filled {l : List K} (hl : l.Pairwise (· < ·)) {size : ℕ} (hsize : 0 < size)
    {page : ℕ → K → List K} (hpage : ∀ n m, page n m = (after l m).take size) {n n' : ℕ} {m : K}
    {keys : List K} (h : Run page n m keys n') :
    n' = n + (Batches.batches size (after l m)).length + 1 := by
  induction h with
  | @stop n m hnone =>
    rw [hpage, List.getLast?_eq_none_iff] at hnone
    have hempty : after l m = [] := by
      rcases List.take_eq_nil_iff.mp hnone with hzero | hnil
      · omega
      · exact hnil
    rw [hempty]
    rfl
  | @more n n' m k rest hlast _ ih =>
    rw [hpage] at hlast
    obtain ⟨front, hfront⟩ := List.getLast?_eq_some_iff.mp hlast
    have hahead : after l m = front ++ k :: (after l m).drop size := by
      conv_lhs => rw [← List.take_append_drop size (after l m), hfront]
      rw [List.append_assoc, List.singleton_append]
    have hk : k ∈ after l m := by
      rw [hahead]
      exact List.mem_append_right _ (List.mem_cons_self ..)
    have hmk : m < k := by simpa using (List.mem_filter.mp hk).2
    -- the keys after the last one of the page are those behind the page
    have hrest : after l k = (after l m).drop size := by
      rw [← after_after l hmk]
      exact filter_lt_of_split (hl.filter (m < ·)) hahead
    rw [ih, hrest, Batches.batches_cons hsize (List.ne_nil_of_mem hk), List.length_cons]
    omega

end Scan
