import Mathlib.Data.Fin.Basic
import Mathlib.Data.List.Lex
import ObsBench.Lib.Decimal

/-!
# Strings at the C boundary

The client hands the SDK `const char *` arguments and gets `const char *` fields back, so a
string that crosses the interface is what lies before the terminating NUL: a list of bytes
none of which is zero. Keys, prefixes, delimiters and header values are such strings; object
bodies are plain bytes with a length.

The client's own strings carry a length instead: a `std::string_view` is handed to the SDK as
the bare pointer it holds, so the SDK sees the C string at that place.

The number formats the client relies on live here too: `std::to_string` and `fmt` print
canonical decimals, `atoll` and `std::stoull` read an integer from the front of a string.
-/

namespace ObsBench

abbrev Byte := Fin 256

abbrev Bytes := List Byte

/-- A `char` that does not end a C string. -/
abbrev CChar := {b : Byte // b ≠ 0}

/-- The contents of a C string. The order on lists is the bytewise order of keys. -/
abbrev CString := List CChar

def CString.bytes (s : CString) : Bytes := s.map Subtype.val

/-- The bytes in front of the first NUL, or all of them. -/
def upToNul : Bytes → CString
  | [] => []
  | b :: rest => if h : b = 0 then [] else ⟨b, h⟩ :: upToNul rest

/-- What a C function reads at a pointer, for the memory that begins there: the bytes up to the
first NUL. It is `none` where the memory ends first, since the function would read on. -/
def readCString (mem : Bytes) : Option CString :=
  if mem.contains 0 then some (upToNul mem) else none

/-- A character literal of the source, as the byte it is in ASCII. -/
def byte (c : Char) : Byte := Fin.ofNat 256 c.toNat

/-- A string literal of the source, as bytes. -/
def text (s : String) : Bytes := s.toUTF8.data.toList.map UInt8.toFin

/-- A string literal of the source, as the C string it is. -/
def cstr (s : String) : CString := upToNul (text s)

/-- What is behind the first NUL does not count. -/
@[simp] theorem upToNul_bytes (s : CString) (rest : Bytes) :
    upToNul (s.bytes ++ 0 :: rest) = s := by
  induction s with
  | nil => simp [CString.bytes, upToNul]
  | cons c s ih =>
    simp only [CString.bytes, List.map_cons, List.cons_append, upToNul]
    rw [dif_neg c.property]
    exact congrArg _ ih

/-- A C string ends at its NUL, not before. -/
@[simp] theorem upToNul_bytes_nil (s : CString) : upToNul s.bytes = s := by
  induction s with
  | nil => rfl
  | cons c s ih =>
    simp only [CString.bytes, List.map_cons, upToNul]
    rw [dif_neg c.property]
    exact congrArg _ ih

/-- Memory with a NUL is a C string, the NUL, and something behind it. -/
theorem bytes_upToNul {mem : Bytes} (h : 0 ∈ mem) : (upToNul mem).bytes ++ [0] <+: mem := by
  induction mem with
  | nil => exact absurd h List.not_mem_nil
  | cons b rest ih =>
    by_cases hb : b = 0
    · rw [upToNul, dif_pos hb, hb]
      exact List.prefix_append [0] rest
    · rw [upToNul, dif_neg hb]
      obtain ⟨back, hback⟩ := ih ((List.mem_cons.mp h).resolve_left (Ne.symm hb))
      exact ⟨back, congrArg (b :: ·) hback⟩

/-- **What a C function reads at a pointer** are the bytes there, with a NUL behind them. -/
theorem readCString_eq_some_iff {mem : Bytes} {k : CString} :
    readCString mem = some k ↔ k.bytes ++ [0] <+: mem := by
  unfold readCString
  constructor
  · intro h
    split at h
    · next hnul => exact Option.some.inj h ▸ bytes_upToNul (List.contains_iff_mem.mp hnul)
    · exact absurd h (Option.some_ne_none _).symm
  · intro h
    obtain ⟨rest, rfl⟩ := h
    rw [if_pos (by simp), List.append_assoc]
    exact congrArg some (upToNul_bytes k rest)

theorem bytes_injective : Function.Injective CString.bytes :=
  List.map_injective_iff.mpr Subtype.val_injective

theorem zero_notMem_bytes (s : CString) : 0 ∉ s.bytes := by
  intro h
  obtain ⟨c, -, hc⟩ := List.mem_map.mp h
  exact c.property hc

/-- Bytes without a NUL are a C string. -/
theorem exists_bytes_eq {s : Bytes} (h : 0 ∉ s) : ∃ k : CString, k.bytes = s := by
  induction s with
  | nil => exact ⟨[], rfl⟩
  | cons b s ih =>
    rw [List.mem_cons, not_or] at h
    obtain ⟨k, hk⟩ := ih h.2
    exact ⟨⟨b, Ne.symm h.1⟩ :: k, congrArg (b :: ·) hk⟩

/-! ## Strings with a length -/

/-- `std::string_view`: the memory from `data()` on, and the number of characters. -/
structure StringView where
  mem : Bytes
  size : UInt64
  size_le : size.toNat ≤ mem.length

def StringView.chars (v : StringView) : Bytes := v.mem.take v.size.toNat

/-- The C string at `data()`: what the SDK reads when it is handed the bare pointer, and `printf`
for `%s`. -/
def StringView.cString (v : StringView) : Option CString := readCString v.mem

/-- The view of a `std::string`, whose buffer ends with a NUL. -/
def StringView.ofString (s : Bytes) : StringView where
  mem := s ++ [0]
  size := UInt64.ofNat s.length
  size_le := by
    rw [UInt64.toNat_ofNat']
    have := Nat.mod_le s.length (2 ^ 64)
    simp
    omega

/-- A `std::string`; its length is a `size_t`. -/
structure StdString where
  bytes : Bytes
  length_lt : bytes.length < 2 ^ 64

def StdString.view (s : StdString) : StringView := .ofString s.bytes

@[simp] theorem StringView.length_chars (v : StringView) : v.chars.length = v.size.toNat := by
  simp [StringView.chars, v.size_le]

/-- The view of a `std::string` has its length: it fits into 64 bits. -/
theorem StdString.toNat_size_view (s : StdString) : s.view.size.toNat = s.bytes.length := by
  simp only [StdString.view, StringView.ofString, UInt64.toNat_ofNat']
  exact Nat.mod_eq_of_lt s.length_lt

@[simp] theorem StdString.chars_view (s : StdString) : s.view.chars = s.bytes := by
  rw [StringView.chars, StdString.toNat_size_view]
  simp [StdString.view, StringView.ofString]

/-! ### Views that end where they say -/

/-- The SDK reads `k` at the view's pointer: its bytes, and a NUL. -/
def StringView.Reads (v : StringView) (k : CString) : Prop := k.bytes ++ [0] <+: v.mem

theorem StringView.Reads.cString {v : StringView} {k : CString} (h : v.Reads k) :
    v.cString = some k :=
  readCString_eq_some_iff.mpr h

/-- The view of a `std::string` is read as that string. -/
theorem StringView.reads_ofString (s : CString) : (StringView.ofString s.bytes).Reads s :=
  List.prefix_rfl

/-- A pointer is read as one string. -/
theorem StringView.Reads.unique {v : StringView} {k k' : CString} (h : v.Reads k)
    (h' : v.Reads k') : k = k' :=
  Option.some.inj (h.cString.symm.trans h'.cString)

/-- There is a NUL at the view's pointer or somewhere behind it. -/
def StringView.Readable (v : StringView) : Prop := 0 ∈ v.mem

theorem StringView.Readable.cString {v : StringView} (h : v.Readable) :
    ∃ k, v.cString = some k :=
  ⟨_, if_pos (List.contains_iff_mem.mpr h)⟩

/-- A view without a NUL in or behind it cannot be read as a C string. -/
theorem StringView.cString_eq_none {v : StringView} (h : ¬ v.Readable) : v.cString = none :=
  if_neg (mt List.contains_iff_mem.mp h)

/-- The buffer of a `std::string` ends with a NUL. -/
theorem StringView.readable_ofString (s : Bytes) : (StringView.ofString s).Readable :=
  List.mem_append_right s (List.mem_singleton_self 0)

/-- Behind the bytes of a `std::string` stands a NUL. -/
theorem StdString.readable_view (s : StdString) : s.view.Readable :=
  StringView.readable_ofString s.bytes

/-- A view whose pointer can be read as a C string. -/
structure ReadableView extends StringView where
  readable : toStringView.Readable

/-- The C string at `data()`. -/
def ReadableView.cString (v : ReadableView) : CString := upToNul v.mem

/-- The view a `const char *` is converted to. -/
def ReadableView.ofCString (s : CString) : ReadableView :=
  ⟨.ofString s.bytes, StringView.readable_ofString s.bytes⟩

@[simp] theorem ReadableView.cString_ofCString (s : CString) : (ofCString s).cString = s :=
  upToNul_bytes s []

/-- The characters hold no NUL and the memory goes on with one. -/
def StringView.Terminated (v : StringView) : Prop :=
  0 ∉ v.chars ∧ v.mem[v.size.toNat]? = some 0

instance (v : StringView) : Decidable v.Terminated := inferInstanceAs (Decidable (_ ∧ _))

/-- **The SDK reads the view's characters** exactly when the view ends where it says. -/
theorem reads_chars_iff {v : StringView} : (∃ k, k.bytes = v.chars ∧ v.Reads k) ↔ v.Terminated := by
  constructor
  · rintro ⟨k, hk, hreads⟩
    refine ⟨hk ▸ zero_notMem_bytes k, ?_⟩
    obtain ⟨rest, hrest⟩ := hreads
    rw [hk] at hrest
    rw [← hrest, List.append_assoc, List.getElem?_append_right (by simp), StringView.length_chars,
      Nat.sub_self]
    rfl
  · rintro ⟨hnul, hend⟩
    obtain ⟨k, hk⟩ := exists_bytes_eq hnul
    refine ⟨k, hk, v.mem.drop (v.size.toNat + 1), ?_⟩
    obtain ⟨hlt, hzero⟩ := List.getElem?_eq_some_iff.mp hend
    rw [hk, StringView.chars, List.append_assoc, List.singleton_append, ← hzero,
      List.getElem_cons_drop, List.take_append_drop]

/-! ## Printing numbers -/

def digitChar (d : ℕ) : CChar :=
  ⟨Fin.ofNat 256 (48 + d % 10), by
    intro h
    have := congrArg Fin.val h
    simp at this
    omega⟩

/-- `std::to_string` on an unsigned number, and `fmt`'s `{}` for it. -/
def decimal (n : ℕ) : CString := (Decimal.digits n).map digitChar

def minus : CChar := ⟨45, by decide⟩

def letterA : CChar := ⟨97, by decide⟩

/-- `fmt`'s `{}` for a signed number. -/
def formatInt : ℤ → CString
  | .ofNat n => decimal n
  | .negSucc n => minus :: decimal (n + 1)

/-! ## Reading numbers -/

def digitValue (c : CChar) : Option ℕ :=
  if 48 ≤ c.val.val ∧ c.val.val ≤ 57 then some (c.val.val - 48) else none

def leadingDigits : CString → List ℕ
  | [] => []
  | c :: rest =>
    match digitValue c with
    | some d => d :: leadingDigits rest
    | none => []

/-- `isspace` in the C locale. -/
def isSpace (c : CChar) : Bool := c.val.val = 32 || (9 ≤ c.val.val && c.val.val ≤ 13)

/-- The optional sign in front of the digits. -/
def splitSign : CString → Bool × CString
  | [] => (false, [])
  | c :: rest =>
    if c = minus then (true, rest)
    else if c.val = 43 then (false, rest)
    else (false, c :: rest)

/-- The scan shared by the `strto*` family: white space, a sign, digits. `none` when there is
no digit. -/
def parseInteger (s : CString) : Option ℤ :=
  let (negative, rest) := splitSign (s.dropWhile isSpace)
  match leadingDigits rest with
  | [] => none
  | ds => some (if negative then -(Decimal.value ds : ℤ) else Decimal.value ds)

/-- `std::atoll`: zero without digits, clamped to the range of `long long`. -/
def atoll (s : CString) : Int64 :=
  Int64.ofInt (max (-2 ^ 63) (min (2 ^ 63 - 1) ((parseInteger s).getD 0)))

inductive StoullError where
  | invalidArgument
  | outOfRange
deriving DecidableEq, Repr

/-- `std::stoull`: a minus sign wraps around, an absolute value past 64 bits is refused. -/
def stoull (s : CString) : Except StoullError UInt64 :=
  match parseInteger s with
  | none => .error .invalidArgument
  | some z =>
    if z.natAbs < 2 ^ 64 then .ok (UInt64.ofNat (z % 2 ^ 64).toNat) else .error .outOfRange

/-- A whole string read as a decimal number: digits only, at least one. -/
def readDecimal (s : CString) : Option ℕ :=
  if s ≠ [] ∧ s.all fun c => (digitValue c).isSome then
    some (Decimal.value (leadingDigits s))
  else none

/-! ## Reading back what was printed -/

@[simp] theorem digitValue_digitChar {d : ℕ} (h : d < 10) : digitValue (digitChar d) = some d := by
  have hval : (digitChar d).val.val = 48 + d := by
    simp [digitChar, Nat.mod_eq_of_lt h]
    omega
  simp only [digitValue, hval]
  rw [if_pos (by omega)]
  congr 1
  omega

/-- A text of digits is read to its end. -/
theorem leadingDigits_map_digitChar {ds : List ℕ} (h : ∀ d ∈ ds, d < 10) :
    leadingDigits (ds.map digitChar) = ds := by
  induction ds with
  | nil => rfl
  | cons d ds ih =>
    rw [List.map_cons, leadingDigits, digitValue_digitChar (h d (by simp))]
    simp only [ih fun e he => h e (List.mem_cons_of_mem _ he)]

@[simp] theorem leadingDigits_decimal (n : ℕ) : leadingDigits (decimal n) = Decimal.digits n :=
  leadingDigits_map_digitChar fun _ hd => Decimal.lt_of_mem_digits hd

theorem decimal_injective : Function.Injective decimal := by
  intro a b h
  have := congrArg leadingDigits h
  simpa using Decimal.digits_injective (by simpa using this)

theorem decimal_ne_nil (n : ℕ) : decimal n ≠ [] := by
  simpa [decimal] using Decimal.digits_ne_nil n

/-- A number is written in digits. -/
theorem digitValue_isSome_of_mem_decimal {n : ℕ} {c : CChar} (h : c ∈ decimal n) :
    (digitValue c).isSome := by
  obtain ⟨d, hd, rfl⟩ := List.mem_map.mp h
  rw [digitValue_digitChar (Decimal.lt_of_mem_digits hd)]
  rfl

/-- A printed number is made of the bytes of the digits. -/
theorem digit_of_mem_bytes_decimal {n : ℕ} {b : Byte} (h : b ∈ (decimal n).bytes) :
    48 ≤ b.val ∧ b.val ≤ 57 := by
  obtain ⟨c, hc, rfl⟩ := List.mem_map.mp h
  have hdigit := digitValue_isSome_of_mem_decimal hc
  unfold digitValue at hdigit
  split at hdigit
  · next hrange => exact hrange
  · simp at hdigit

/-- A digit is neither a blank nor a sign. -/
theorem not_space_of_digit {c : CChar} (h : (digitValue c).isSome) :
    isSpace c = false ∧ c ≠ minus ∧ c.val ≠ 43 := by
  have hc : 48 ≤ c.val.val := by
    unfold digitValue at h
    split at h
    · omega
    · simp at h
  refine ⟨?_, fun heq => ?_, fun heq => ?_⟩
  · simp only [isSpace, Bool.or_eq_false_iff, decide_eq_false_iff_not, Bool.and_eq_false_iff]
    omega
  · rw [heq] at hc
    exact absurd hc (by decide)
  · rw [heq] at hc
    exact absurd hc (by decide)

/-- The `strto*` scan reads a decimal number back. -/
@[simp] theorem parseInteger_decimal (n : ℕ) : parseInteger (decimal n) = some (n : ℤ) := by
  cases hs : decimal n with
  | nil => exact absurd hs (decimal_ne_nil n)
  | cons c rest =>
    obtain ⟨hspace, hminus, hplus⟩ := not_space_of_digit
      (digitValue_isSome_of_mem_decimal (n := n) (c := c) (by simp [hs]))
    have hdrop : (c :: rest).dropWhile isSpace = c :: rest := by simp [hspace]
    have hsign : splitSign (c :: rest) = (false, c :: rest) := by
      simp [splitSign, hminus, hplus]
    have hdigits : leadingDigits (c :: rest) = Decimal.digits n := by
      rw [← hs, leadingDigits_decimal]
    simp only [parseInteger, hdrop, hsign, hdigits]
    cases hd : Decimal.digits n with
    | nil => exact absurd hd (Decimal.digits_ne_nil n)
    | cons d ds => simp [← hd]

@[simp] theorem readDecimal_decimal (n : ℕ) : readDecimal (decimal n) = some n := by
  have hall : (decimal n).all fun c => (digitValue c).isSome :=
    List.all_eq_true.mpr fun _ hc => digitValue_isSome_of_mem_decimal hc
  rw [readDecimal, if_pos ⟨decimal_ne_nil n, hall⟩]
  simp

/-- **What `atoll` makes of a printed number**, stored in a `size_t`: the number itself up to
the largest `long long`, and that bound from there on. -/
theorem toNat_atoll_decimal (n : ℕ) :
    (atoll (decimal n)).toUInt64.toNat = min n (2 ^ 63 - 1) := by
  have hclamp : max (-2 ^ 63) (min (2 ^ 63 - 1) ((parseInteger (decimal n)).getD 0))
      = ((min n (2 ^ 63 - 1) : ℕ) : ℤ) := by
    simp only [parseInteger_decimal, Option.getD_some]
    omega
  rw [atoll, hclamp, Int64.ofInt_eq_ofNat, Int64.toUInt64_ofNat', UInt64.toNat_ofNat']
  omega

theorem stoull_decimal {n : ℕ} (h : n < 2 ^ 64) : stoull (decimal n) = .ok (UInt64.ofNat n) := by
  have hmod : ((n : ℤ) % 2 ^ 64).toNat = n := by omega
  simp only [stoull, parseInteger_decimal, Int.natAbs_natCast, if_pos h, hmod]

end ObsBench
