import Mathlib.Data.List.Basic

/-!
# Bracketed lists

The text form of a list: its elements in brackets, a comma and a blank between them. Elements are
tokens or bracketed lists again, so one reader for lists, given the reader of the elements, reads
lists nested to any depth.

* **`ReadsBack`**: a reader undoes a printer in front of whatever may follow an element.
* **`token_readsBack`**, **`list_readsBack`**: tokens, and lists of what is read back.
-/

namespace Bracketed

variable {α β : Type*}

structure Brackets (α : Type*) where
  opening : α
  closing : α
  comma : α
  blank : α
  distinct : [opening, closing, comma, blank].Nodup

theorem Brackets.closing_ne (b : Brackets α) : b.closing ≠ b.opening ∧ b.closing ≠ b.comma := by
  have h := b.distinct
  simp only [List.nodup_cons, List.mem_cons, List.not_mem_nil, or_false, not_or] at h
  exact ⟨Ne.symm h.1.1, h.2.1.1⟩

/-- A reader takes an element off the front. -/
abbrev Reader (α β : Type*) := List α → Option (β × List α)

/-! ## Printing -/

/-- What follows an element: the other elements and the closing bracket. -/
def printRest (b : Brackets α) (item : β → List α) : List β → List α
  | [] => [b.closing]
  | x :: rest => b.comma :: b.blank :: item x ++ printRest b item rest

def print (b : Brackets α) (item : β → List α) : List β → List α
  | [] => [b.opening, b.closing]
  | x :: rest => b.opening :: item x ++ printRest b item rest

/-- Behind the opening bracket a list is its first item and what `printRest` writes. -/
theorem intercalate_eq_printRest (b : Brackets α) (item : β → List α) (x : β) (xs : List β) :
    [b.comma, b.blank].intercalate ((x :: xs).map item) ++ [b.closing] =
      item x ++ printRest b item xs := by
  induction xs generalizing x with
  | nil =>
    rw [List.map_singleton, List.intercalate_singleton]
    rfl
  | cons y xs ih =>
    rw [List.map_cons, List.map_cons, List.intercalate_cons_cons, ← List.map_cons, printRest,
      List.append_assoc, ih]
    simp

/-- The printed form is the joined elements in brackets. -/
theorem print_eq_intercalate (b : Brackets α) (item : β → List α) (xs : List β) :
    print b item xs =
      b.opening :: ([b.comma, b.blank].intercalate (xs.map item) ++ [b.closing]) := by
  cases xs with
  | nil => rfl
  | cons x xs =>
    rw [intercalate_eq_printRest]
    rfl

/-- A property of the four characters and of the elements is one of the printed form. -/
theorem forall_mem_print {b : Brackets α} {P : α → Prop} {item : β → List α} {xs : List β}
    (hb : P b.opening ∧ P b.closing ∧ P b.comma ∧ P b.blank) (h : ∀ x ∈ xs, ∀ c ∈ item x, P c) :
    ∀ c ∈ print b item xs, P c := by
  obtain ⟨hopening, hclosing, hcomma, hblank⟩ := hb
  have hrest : ∀ ys, (∀ y ∈ ys, ∀ c ∈ item y, P c) → ∀ c ∈ printRest b item ys, P c := by
    intro ys
    induction ys with
    | nil => simpa [printRest] using hclosing
    | cons y ys ih =>
      intro hys
      simp only [printRest, List.forall_mem_append, List.forall_mem_cons]
      exact ⟨⟨hcomma, hblank, hys y (List.mem_cons_self ..)⟩,
        ih fun z hz => hys z (List.mem_cons_of_mem _ hz)⟩
  cases xs with
  | nil => simp [print, hopening, hclosing]
  | cons x xs =>
    simp only [print, List.forall_mem_append, List.forall_mem_cons]
    exact ⟨⟨hopening, h x (List.mem_cons_self ..)⟩,
      hrest xs fun z hz => h z (List.mem_cons_of_mem _ hz)⟩

/-- What is left of a printed list outlasts its items, so the reader does not run dry. -/
theorem length_lt_printRest (b : Brackets α) (item : β → List α) (others : List β) :
    others.length < (printRest b item others).length := by
  induction others with
  | nil => exact Nat.zero_lt_one
  | cons x others ih =>
    rw [printRest, List.length_append, List.length_cons, List.length_cons, List.length_cons]
    omega

/-! ## Reading -/

variable [DecidableEq α]

def Brackets.special (b : Brackets α) (c : α) : Bool :=
  c = b.opening || c = b.closing || c = b.comma || c = b.blank

/-- A token: what stands before the next character with a meaning, at least one character. -/
def token (b : Brackets α) : Reader α (List α) := fun s =>
  match s.takeWhile (!b.special ·) with
  | [] => none
  | c :: rest => some (c :: rest, s.dropWhile (!b.special ·))

/-- The elements up to the closing bracket, at most as many as the first argument says. -/
def items (b : Brackets α) (p : Reader α β) : ℕ → Reader α (List β)
  | 0, _ => none
  | n + 1, s =>
    match p s with
    | some (x, c :: rest) =>
      if c = b.closing then some ([x], rest)
      else if c = b.comma ∧ rest.head? = some b.blank then
        (items b p n rest.tail).map fun (xs, rest) => (x :: xs, rest)
      else none
    | _ => none

def list (b : Brackets α) (p : Reader α β) : Reader α (List β)
  | o :: c :: rest =>
    if o = b.opening then
      if c = b.closing then some ([], rest) else items b p (rest.length + 1) (c :: rest)
    else none
  | _ => none

/-- The whole text is one element. -/
def whole (p : Reader α β) (s : List α) : Option β :=
  match p s with
  | some (x, []) => some x
  | _ => none

/-! ## What is printed is read back -/

/-- The reader gives back `x` from its printed form, which is not taken for the end of a list,
when a separator follows. -/
structure ReadsBack (b : Brackets α) (p : Reader α β) (item : β → List α) (x : β) : Prop where
  head : ∃ c tail, item x = c :: tail ∧ c ≠ b.closing
  read : ∀ c rest, c = b.comma ∨ c = b.closing → p (item x ++ c :: rest) = some (x, c :: rest)

/-- A word without brackets, commas or blanks reads back as itself. -/
theorem token_readsBack {b : Brackets α} {t : List α} (hne : t ≠ [])
    (h : ∀ c ∈ t, b.special c = false) : ReadsBack b (token b) id t := by
  obtain ⟨c, tail, rfl⟩ := List.exists_cons_of_ne_nil hne
  constructor
  · refine ⟨c, tail, rfl, fun heq => ?_⟩
    have hc := h c (List.mem_cons_self ..)
    simp [Brackets.special, heq] at hc
  · intro e rest he
    have hstop : (!b.special e) = false := by
      rcases he with rfl | rfl <;> simp [Brackets.special]
    have htoken : ∀ e ∈ c :: tail, (!b.special e) = true := fun e he => by rw [h e he]; rfl
    have htake : (c :: tail ++ e :: rest).takeWhile (!b.special ·) = c :: tail := by
      rw [List.takeWhile_append_of_pos htoken, List.takeWhile_cons_of_neg (by simp [hstop]),
        List.append_nil]
    have hdrop : (c :: tail ++ e :: rest).dropWhile (!b.special ·) = e :: rest := by
      rw [List.dropWhile_append_of_pos htoken, List.dropWhile_cons_of_neg (by simp [hstop])]
    show token b (c :: tail ++ e :: rest) = _
    rw [token, htake, hdrop]

/-- Induction on the other elements; a comma and a blank lead on to each of them. -/
theorem items_printRest {b : Brackets α} {p : Reader α β} {item : β → List α} {x : β}
    {others : List β} (hx : ReadsBack b p item x) (h : ∀ y ∈ others, ReadsBack b p item y) {n : ℕ}
    (hn : others.length < n) (rest : List α) :
    items b p n (item x ++ (printRest b item others ++ rest)) = some (x :: others, rest) := by
  induction others generalizing n x with
  | nil =>
    cases n with
    | zero => omega
    | succ n =>
      show items b p (n + 1) (item x ++ b.closing :: rest) = _
      rw [items, hx.read b.closing rest (.inr rfl)]
      show (if b.closing = b.closing then _ else _) = _
      rw [if_pos rfl]
  | cons y others ih =>
    cases n with
    | zero => omega
    | succ n =>
      rw [List.length_cons] at hn
      have hrest := ih (h y (List.mem_cons_self ..)) (fun z hz => h z (List.mem_cons_of_mem _ hz))
        (n := n) (by omega)
      have hprint : printRest b item (y :: others) ++ rest =
          b.comma :: b.blank :: (item y ++ (printRest b item others ++ rest)) := by
        simp [printRest]
      rw [hprint, items, hx.read b.comma _ (.inl rfl)]
      show (if b.comma = b.closing then _ else if _ then _ else _) = _
      rw [if_neg b.closing_ne.2.symm, if_pos ⟨rfl, rfl⟩, List.tail_cons, hrest]
      rfl

/-- **Lists of what is read back are read back**, in front of anything. -/
theorem list_print {b : Brackets α} {p : Reader α β} {item : β → List α} {xs : List β}
    (h : ∀ x ∈ xs, ReadsBack b p item x) (rest : List α) :
    list b p (print b item xs ++ rest) = some (xs, rest) := by
  cases xs with
  | nil =>
    show (if b.opening = b.opening then if b.closing = b.closing then _ else _ else _) = _
    rw [if_pos rfl, if_pos rfl]
    rfl
  | cons x others =>
    have hx := h x (List.mem_cons_self ..)
    obtain ⟨c, tail, hc, hne⟩ := hx.head
    -- every element takes up a character, so the text has fuel for all of them
    have hfuel : others.length < (tail ++ (printRest b item others ++ rest)).length + 1 := by
      have hlength := length_lt_printRest b item others
      rw [List.length_append, List.length_append]
      omega
    have hitems := items_printRest hx (fun y hy => h y (List.mem_cons_of_mem _ hy)) hfuel rest
    have hsplit : print b item (x :: others) ++ rest =
        b.opening :: c :: (tail ++ (printRest b item others ++ rest)) := by
      simp [print, hc]
    rw [hc] at hitems
    rw [hsplit, list, if_pos rfl, if_neg hne]
    exact hitems

/-- If every item reads back, the list does. -/
theorem list_readsBack {b : Brackets α} {p : Reader α β} {item : β → List α} {xs : List β}
    (h : ∀ x ∈ xs, ReadsBack b p item x) : ReadsBack b (list b p) (print b item) xs where
  head := by
    cases xs with
    | nil => exact ⟨b.opening, _, rfl, b.closing_ne.1.symm⟩
    | cons x others => exact ⟨b.opening, _, rfl, b.closing_ne.1.symm⟩
  read c rest _ := list_print h (c :: rest)

/-- A printed list is read back whole, with nothing left over. -/
theorem whole_list {b : Brackets α} {p : Reader α β} {item : β → List α} {xs : List β}
    (h : ∀ x ∈ xs, ReadsBack b p item x) : whole (list b p) (print b item xs) = some xs := by
  have hread := list_print h []
  rw [List.append_nil] at hread
  rw [whole, hread]

end Bracketed
