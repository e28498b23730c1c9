import Mathlib.Data.List.Basic

/-!
# Append logs

A log that takes a block only at its end, whoever offers it. A writer names the position it takes
for the end; the blocks that were taken tile the log.

* **`Tiles.pairwise`**: the blocks stand in the order they were taken in, and none overlaps.
* **`Tiles.read`**: a block can be read at its position.
-/

namespace AppendLog

variable {β : Type*}

/-- A block that was taken, and the position it was offered for. -/
structure Entry (β : Type*) where
  pos : ℕ
  block : List β

def Entry.stop (e : Entry β) : ℕ := e.pos + e.block.length

def contents (entries : List (Entry β)) : List β := entries.flatMap (·.block)

/-- Each entry begins where the one before it stops, the first one at `start`. -/
def Tiles : ℕ → List (Entry β) → Prop
  | _, [] => True
  | start, e :: rest => e.pos = start ∧ Tiles e.stop rest

/-- No entry lies before the start of the tiling. -/
theorem Tiles.le_pos {start : ℕ} {entries : List (Entry β)} (h : Tiles start entries)
    {e : Entry β} (he : e ∈ entries) : start ≤ e.pos := by
  induction entries generalizing start with
  | nil => exact absurd he List.not_mem_nil
  | cons first rest ih =>
    obtain ⟨hfirst, hrest⟩ := h
    rcases List.mem_cons.mp he with rfl | hmem
    · exact Nat.le_of_eq hfirst.symm
    · have hle := ih hrest hmem
      rw [Entry.stop, hfirst] at hle
      omega

/-- **No two blocks overlap.** -/
theorem Tiles.pairwise {start : ℕ} {entries : List (Entry β)} (h : Tiles start entries) :
    entries.Pairwise fun e e' => e.stop ≤ e'.pos := by
  induction entries generalizing start with
  | nil => exact .nil
  | cons first rest ih =>
    obtain ⟨-, hrest⟩ := h
    exact .cons (fun e he => hrest.le_pos he) (ih hrest)

/-- **A block can be read at its position.** -/
theorem Tiles.read {initial : List β} {entries : List (Entry β)}
    (h : Tiles initial.length entries) {e : Entry β} (he : e ∈ entries) :
    ((initial ++ contents entries).drop e.pos).take e.block.length = e.block := by
  induction entries generalizing initial with
  | nil => exact absurd he List.not_mem_nil
  | cons first rest ih =>
    obtain ⟨hfirst, hrest⟩ := h
    have hsplit : initial ++ contents (first :: rest) =
        (initial ++ first.block) ++ contents rest := by
      rw [contents, List.flatMap_cons, ← contents, List.append_assoc]
    rcases List.mem_cons.mp he with rfl | hmem
    · rw [hsplit, hfirst, List.append_assoc, List.drop_left, List.take_left]
    · rw [hsplit]
      refine ih ?_ hmem
      rwa [List.length_append, ← hfirst]

end AppendLog
