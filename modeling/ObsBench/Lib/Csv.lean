import Mathlib.Data.List.Basic
import Mathlib.Data.List.DropRight

/-!
# Comma-separated values

The format of RFC 4180: records are lines of fields separated by commas, and a field may be put
in quotes, where it may hold commas, line breaks and doubled quotes. A line ends with a line feed,
with or without a carriage return in front of it; the last one may be missing. The reader refuses
a quote inside an unquoted field, text behind a closing quote, a lone carriage return and a quoted
field that does not end.

* **`records_field`**, **`records_record`**: one field, and one record, in front of any rest.
* **`parse_print`**: what is printed is read back.
* **`completeLines_of_prefix`**: what is complete in a text that is cut off.
-/

namespace Csv

variable {α : Type*}

/-- The four characters with a meaning of their own. -/
structure Dialect (α : Type*) where
  comma : α
  quote : α
  cr : α
  lf : α
  distinct : [comma, quote, cr, lf].Nodup

theorem Dialect.ne (d : Dialect α) :
    d.comma ≠ d.quote ∧ d.comma ≠ d.cr ∧ d.comma ≠ d.lf ∧ d.quote ≠ d.cr ∧ d.quote ≠ d.lf ∧
      d.cr ≠ d.lf := by
  have h := d.distinct
  simp only [List.nodup_cons, List.mem_cons, List.not_mem_nil, or_false, not_or] at h
  exact ⟨h.1.1, h.1.2.1, h.1.2.2, h.2.1.1, h.2.1.2, h.2.2.1⟩

/-- Where the reader is: at the start of a record or of a later field, in an unquoted field, in a
quoted one, behind a quote in there, or behind a carriage return. -/
inductive Mode where
  | record
  | start
  | plain
  | quoted
  | closing
  | lineEnd
deriving DecidableEq

/-- At a place where a separator ends the field. -/
def Mode.Separable (mode : Mode) : Prop := mode ≠ .quoted ∧ mode ≠ .lineEnd

variable [DecidableEq α]

/-- Reads records, with `field` and the `fields` before it already read. -/
def records (d : Dialect α) : Mode → List α → List (List α) → List α →
    Option (List (List (List α)))
  | .record, _, _, [] => some []
  | .quoted, _, _, [] => none
  | .lineEnd, _, _, [] => none
  | .start, field, fields, [] => some [fields ++ [field]]
  | .plain, field, fields, [] => some [fields ++ [field]]
  | .closing, field, fields, [] => some [fields ++ [field]]
  | .quoted, field, fields, c :: rest =>
    if c = d.quote then records d .closing field fields rest
    else records d .quoted (field ++ [c]) fields rest
  | .lineEnd, field, fields, c :: rest =>
    if c = d.lf then (records d .record [] [] rest).map ((fields ++ [field]) :: ·) else none
  | mode, field, fields, c :: rest =>
    if c = d.comma then records d .start [] (fields ++ [field]) rest
    else if c = d.lf then (records d .record [] [] rest).map ((fields ++ [field]) :: ·)
    else if c = d.cr then records d .lineEnd field fields rest
    else if c = d.quote then
      if mode = .plain then none
      -- the second of two quotes, or the one that opens the field
      else if mode = .closing then records d .quoted (field ++ [c]) fields rest
      else records d .quoted [] fields rest
    else if mode = .closing then none
    else records d .plain (field ++ [c]) fields rest

def parse (d : Dialect α) (s : List α) : Option (List (List (List α))) := records d .record [] [] s

/-! ## Printing -/

/-- A field as it is written: as it stands, or in quotes. -/
inductive Field (α : Type*) where
  | text (content : List α)
  | quoted (content : List α)

def Field.content : Field α → List α
  | .text content => content
  | .quoted content => content

omit [DecidableEq α] in
theorem map_content_text (names : List (List α)) :
    (names.map Field.text).map Field.content = names := by
  rw [List.map_map]
  exact List.map_id names

/-- A field as it stands may hold none of the four characters. -/
def Field.Ok (d : Dialect α) : Field α → Prop
  | .text content => ∀ c ∈ content, c ∉ [d.comma, d.quote, d.cr, d.lf]
  | .quoted _ => True

/-- Doubles the quotes. -/
def escape (d : Dialect α) (content : List α) : List α :=
  content.flatMap fun c => if c = d.quote then [c, c] else [c]

def Field.print (d : Dialect α) : Field α → List α
  | .text content => content
  | .quoted content => d.quote :: escape d content ++ [d.quote]

/-- The fields with commas between them. -/
def printFields (d : Dialect α) : List (Field α) → List α
  | [] => []
  | [field] => field.print d
  | field :: rest => field.print d ++ d.comma :: printFields d rest

/-- A record on a line of its own. -/
def printRecord (d : Dialect α) (record : List (Field α)) : List α := printFields d record ++ [d.lf]

/-- A content without quotes is written as it is. -/
theorem escape_of_notMem {d : Dialect α} {content : List α} (h : d.quote ∉ content) :
    escape d content = content := by
  induction content with
  | nil => rfl
  | cons c rest ih =>
    rw [List.mem_cons, not_or] at h
    rw [escape, List.flatMap_cons, if_neg (Ne.symm h.1), ← escape, ih h.2]
    rfl

/-! ## Reading one field -/

section Reading

variable (d : Dialect α) {mode : Mode} {field : List α} {fields : List (List α)}

theorem records_comma (hmode : mode.Separable) (rest : List α) :
    records d mode field fields (d.comma :: rest) =
      records d .start [] (fields ++ [field]) rest := by
  obtain ⟨hquoted, hlineEnd⟩ := hmode
  rw [records, if_pos rfl]
  · exact hquoted
  · exact hlineEnd

theorem records_lf (hmode : mode.Separable) (rest : List α) :
    records d mode field fields (d.lf :: rest) =
      (records d .record [] [] rest).map ((fields ++ [field]) :: ·) := by
  obtain ⟨hquoted, hlineEnd⟩ := hmode
  rw [records, if_neg d.ne.2.2.1.symm, if_pos rfl]
  · exact hquoted
  · exact hlineEnd

/-- An unquoted field is read up to what follows it. Induction on its characters. -/
theorem records_plain {content : List α}
    (h : ∀ c ∈ content, c ∉ [d.comma, d.quote, d.cr, d.lf]) (rest : List α) :
    records d .plain field fields (content ++ rest) =
      records d .plain (field ++ content) fields rest := by
  induction content generalizing field with
  | nil => rw [List.nil_append, List.append_nil]
  | cons c content ih =>
    have hc := h c (List.mem_cons_self ..)
    simp only [List.mem_cons, List.not_mem_nil, or_false, not_or] at hc
    obtain ⟨hcomma, hquote, hcr, hlf⟩ := hc
    rw [List.cons_append, records, if_neg hcomma, if_neg hlf, if_neg hcr, if_neg hquote,
      if_neg (by decide), ih (fun e he => h e (List.mem_cons_of_mem _ he)), List.append_assoc]
    · rfl
    · simp
    · simp

/-- In quotes everything is content, a doubled quote being one of it. -/
theorem records_quoted (content rest : List α) :
    records d .quoted field fields (escape d content ++ d.quote :: rest) =
      records d .closing (field ++ content) fields rest := by
  induction content generalizing field with
  | nil =>
    rw [List.append_nil]
    show records d .quoted field fields (d.quote :: rest) = _
    rw [records, if_pos rfl]
  | cons c content ih =>
    have hsplit : field ++ c :: content = (field ++ [c]) ++ content := by simp
    rw [escape, List.flatMap_cons, ← escape, hsplit, ← ih]
    by_cases hc : c = d.quote
    · -- a quote is printed twice and read once
      rw [if_pos hc, hc]
      show records d .quoted field fields (d.quote :: d.quote :: (escape d content ++ _)) = _
      rw [records, if_pos rfl, records, if_neg d.ne.1.symm, if_neg d.ne.2.2.2.2.1,
        if_neg d.ne.2.2.2.1, if_pos rfl, if_neg (by decide), if_pos rfl]
      · simp
      · simp
    · rw [if_neg hc]
      show records d .quoted field fields (c :: (escape d content ++ _)) = _
      rw [records, if_neg hc]

/-- **One field in front of any rest.** A field may start where no field has been begun. -/
theorem records_field {f : Field α} (hf : f.Ok d) (hmode : mode = .record ∨ mode = .start) :
    ∃ mode' : Mode, mode'.Separable ∧ ∀ (fields : List (List α)) (rest : List α),
      records d mode [] fields (f.print d ++ rest) = records d mode' f.content fields rest := by
  have hseparable : mode.Separable := by
    rcases hmode with rfl | rfl <;> exact ⟨by decide, by decide⟩
  have hopen : mode ≠ .plain ∧ mode ≠ .closing := by
    rcases hmode with rfl | rfl <;> exact ⟨by decide, by decide⟩
  cases f with
  | text content =>
    cases content with
    | nil => exact ⟨mode, hseparable, fun _ _ => rfl⟩
    | cons c content =>
      -- a bare field: its first character decides that it is one
      refine ⟨.plain, ⟨by decide, by decide⟩, fun fields rest => ?_⟩
      have hc := hf c (List.mem_cons_self ..)
      simp only [List.mem_cons, List.not_mem_nil, or_false, not_or] at hc
      obtain ⟨hcomma, hquote, hcr, hlf⟩ := hc
      show records d mode [] fields (c :: (content ++ rest)) = _
      rw [records, if_neg hcomma, if_neg hlf, if_neg hcr, if_neg hquote, if_neg hopen.2,
        records_plain d fun e he => hf e (List.mem_cons_of_mem _ he)]
      · rfl
      · exact hseparable.1
      · exact hseparable.2
  | quoted content =>
    -- the closing quote is the one that no second quote follows
    refine ⟨.closing, ⟨by decide, by decide⟩, fun fields rest => ?_⟩
    have hprint : (Field.quoted content).print d ++ rest =
        d.quote :: (escape d content ++ d.quote :: rest) := by
      simp [Field.print]
    rw [hprint, records, if_neg d.ne.1.symm, if_neg d.ne.2.2.2.2.1, if_neg d.ne.2.2.2.1,
      if_pos rfl, if_neg hopen.1, if_neg hopen.2, records_quoted]
    · rfl
    · exact hseparable.1
    · exact hseparable.2

/-- **One record in front of any rest.** Induction on its fields. -/
theorem records_record {record : List (Field α)} (hne : record ≠ []) (hok : ∀ f ∈ record, f.Ok d)
    (hmode : mode = .record ∨ mode = .start) (rest : List α) :
    records d mode [] fields (printRecord d record ++ rest) =
      (records d .record [] [] rest).map ((fields ++ record.map Field.content) :: ·) := by
  induction record generalizing mode fields with
  | nil => exact absurd rfl hne
  | cons f others ih =>
    obtain ⟨mode', hseparable, hread⟩ := records_field d (hok f (List.mem_cons_self ..)) hmode
    cases others with
    | nil =>
      -- the last field, up to the line end
      show records d mode [] fields (f.print d ++ [d.lf] ++ rest) = _
      rw [List.append_assoc, hread]
      exact records_lf d hseparable rest
    | cons g others =>
      -- a field, a comma, and the fields behind it
      have hrest : records d .start [] (fields ++ [f.content])
          (printRecord d (g :: others) ++ rest) = _ :=
        ih (by simp) (fun f hf => hok f (List.mem_cons_of_mem _ hf)) (.inr rfl)
      have hprint : printRecord d (f :: g :: others) ++ rest =
          f.print d ++ d.comma :: (printRecord d (g :: others) ++ rest) := by
        simp [printRecord, printFields]
      rw [hprint, hread, records_comma d hseparable, hrest, List.append_assoc]
      rfl

/-- **What is printed is read back.** -/
theorem parse_print {rs : List (List (Field α))} (hne : ∀ record ∈ rs, record ≠ [])
    (hok : ∀ record ∈ rs, ∀ f ∈ record, f.Ok d) :
    parse d (rs.flatMap (printRecord d)) = some (rs.map (·.map Field.content)) := by
  unfold parse
  induction rs with
  | nil => rfl
  | cons record rs ih =>
    rw [List.flatMap_cons,
      records_record d (hne record (List.mem_cons_self ..)) (hok record (List.mem_cons_self ..))
        (.inl rfl),
      ih (fun r hr => hne r (List.mem_cons_of_mem _ hr))
        fun r hr => hok r (List.mem_cons_of_mem _ hr)]
    rfl

end Reading

/-! ## Texts that are cut off -/

section Torn

variable (d : Dialect α)

/-- A text up to its last line end. -/
def completeLines (s : List α) : List α := s.rdropWhile (· ≠ d.lf)

theorem completeLines_of_notMem {s : List α} (h : d.lf ∉ s) : completeLines d s = [] := by
  refine List.rdropWhile_eq_nil_iff.mpr fun c hc => ?_
  rw [decide_eq_true_iff]
  rintro rfl
  exact h hc

/-- A line that is complete stays in front of the complete ones behind it. -/
theorem completeLines_line_append (line s : List α) :
    completeLines d (line ++ [d.lf] ++ s) = line ++ [d.lf] ++ completeLines d s := by
  unfold completeLines List.rdropWhile
  rw [List.reverse_append, List.dropWhile_append]
  by_cases hnone : (s.reverse.dropWhile (· ≠ d.lf)).isEmpty
  · -- nothing complete behind the line
    rw [if_pos hnone, List.isEmpty_iff.mp hnone, List.reverse_append, List.reverse_singleton]
    simp
  · rw [if_neg hnone, List.reverse_append, List.reverse_reverse]

/-- Printed records are complete lines. -/
theorem completeLines_print (rs : List (List (Field α))) :
    completeLines d (rs.flatMap (printRecord d)) = rs.flatMap (printRecord d) := by
  induction rs with
  | nil => exact completeLines_of_notMem d List.not_mem_nil
  | cons record rs ih =>
    rw [List.flatMap_cons, printRecord, completeLines_line_append, ih]

/-- A record has no line end inside if none of its fields has one. -/
theorem lf_notMem_printFields {record : List (Field α)} (h : ∀ f ∈ record, d.lf ∉ f.content) :
    d.lf ∉ printFields d record := by
  have hprint : ∀ f ∈ record, d.lf ∉ f.print d := by
    intro f hf hmem
    have hcontent := h f hf
    cases f with
    | text content => exact hcontent hmem
    | quoted content =>
      have hquote := d.ne.2.2.2.2.1
      simp only [Field.print, List.mem_append, List.mem_cons, List.not_mem_nil, or_false] at hmem
      rcases hmem with (hopen | hinside) | hclose
      · exact hquote hopen.symm
      · -- doubling quotes adds quotes only
        obtain ⟨c, hc, hlf⟩ := List.mem_flatMap.mp hinside
        have hsame : d.lf = c := by
          split at hlf
          · simpa using hlf
          · exact List.mem_singleton.mp hlf
        exact hcontent (hsame ▸ hc)
      · exact hquote hclose.symm
  induction record with
  | nil => exact List.not_mem_nil
  | cons f rest ih =>
    have hfirst := hprint f (List.mem_cons_self ..)
    cases rest with
    | nil => exact hfirst
    | cons g rest =>
      have hrest := ih (fun f hf => h f (List.mem_cons_of_mem _ hf))
        fun f hf => hprint f (List.mem_cons_of_mem _ hf)
      intro hmem
      rcases List.mem_append.mp hmem with hhere | hlater
      · exact hfirst hhere
      · rcases List.mem_cons.mp hlater with hcomma | hlater
        · exact d.ne.2.2.1 hcomma.symm
        · exact hrest hlater

/-- **What is complete in a text that is cut off**: the first records, if none of them has a line
end inside. Induction on the records, the cut being in the first one or behind it. -/
theorem completeLines_of_prefix {rs : List (List (Field α))}
    (hlf : ∀ record ∈ rs, d.lf ∉ printFields d record) {s : List α}
    (h : s <+: rs.flatMap (printRecord d)) :
    ∃ m ≤ rs.length, completeLines d s = (rs.take m).flatMap (printRecord d) := by
  induction rs generalizing s with
  | nil =>
    rw [List.flatMap_nil, List.prefix_nil] at h
    exact ⟨0, Nat.le_refl _, by rw [h]; rfl⟩
  | cons record rs ih =>
    have hrecord := hlf record (List.mem_cons_self ..)
    rw [List.flatMap_cons] at h
    by_cases hshort : s.length < (printRecord d record).length
    · -- cut inside the first record
      have hlength : s.length ≤ (printFields d record).length := by
        rw [printRecord, List.length_append, List.length_singleton] at hshort
        omega
      have hinside : s <+: printFields d record := by
        refine List.prefix_of_prefix_length_le h ?_ hlength
        rw [printRecord, List.append_assoc]
        exact List.prefix_append _ _
      exact ⟨0, Nat.zero_le _, completeLines_of_notMem d fun hs => hrecord (hinside.subset hs)⟩
    · have hline : printRecord d record <+: s :=
        List.prefix_of_prefix_length_le (List.prefix_append _ _) h (Nat.le_of_not_lt hshort)
      obtain ⟨rest, rfl⟩ := hline
      have hrest := (List.prefix_append_right_inj _).mp h
      obtain ⟨m, hm, hcomplete⟩ := ih (fun r hr => hlf r (List.mem_cons_of_mem _ hr)) hrest
      refine ⟨m + 1, Nat.succ_le_succ hm, ?_⟩
      rw [printRecord, completeLines_line_append, hcomplete, List.take_succ_cons,
        List.flatMap_cons, printRecord]

end Torn

end Csv
