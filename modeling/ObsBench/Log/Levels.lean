import Mathlib.Data.List.AList
import Mathlib.Data.List.DropRight
import ObsBench.Sdk

/-!
# Log levels in the environment

`SPDLOG_LEVEL` holds a list of settings such as `off,logger1=debug`. The reader splits it at the
commas, each piece at its first `=`, and takes the blanks off both parts; a piece without a name
gives the level of all loggers that have none of their own. The last piece with a name counts, and
a level it does not know is passed over. There are no wildcards: `*` is a name like any other.

* **`levelOf_loadLevels`**: what is read, setting by setting.
* **`levels_readable`**: a list of settings that is written out is read as it was meant.
-/

namespace ObsBench

/-! ## Levels -/

/-- `spdlog::level::level_enum`. -/
inductive LogLevel where
  | trace
  | debug
  | info
  | warn
  | err
  | critical
  | off
deriving DecidableEq, Repr

/-- The value of the enumerator. -/
def LogLevel.value : LogLevel → ℕ
  | .trace => 0
  | .debug => 1
  | .info => 2
  | .warn => 3
  | .err => 4
  | .critical => 5
  | .off => 6

/-- `level_string_views`, with the enumerators their positions stand for. -/
def levelStringViews : List (Bytes × LogLevel) :=
  [(text "trace", .trace), (text "debug", .debug), (text "info", .info), (text "warning", .warn),
    (text "error", .err), (text "critical", .critical), (text "off", .off)]

/-- `level::from_str`. -/
def fromStr (name : Bytes) : LogLevel :=
  match levelStringViews.lookup name with
  | some level => level
  | none =>
    -- check also for "warn" and "err" before giving up
    if name = text "warn" then .warn
    else if name = text "err" then .err
    else .off

/-! ## Reading a list of settings -/

/-- `to_lower_`. -/
def toLower (str : Bytes) : Bytes :=
  str.map fun ch =>
    if byte 'A' ≤ ch ∧ ch ≤ byte 'Z' then ch + (byte 'a' - byte 'A') else ch

def spaces : Bytes := text " \n\r\t"

/-- `trim_`. -/
def trim (str : Bytes) : Bytes := (str.rdropWhile (· ∈ spaces)).dropWhile (· ∈ spaces)

/-- `extract_kv_`. -/
def extractKv (sep : Byte) (str : Bytes) : Bytes × Bytes :=
  if sep ∈ str then (trim (str.takeWhile (· ≠ sep)), trim ((str.dropWhile (· ≠ sep)).drop 1))
  else (trim [], trim str)

/-- `extract_key_vals_`. The order in which the map lists its entries is some order. -/
def extractKeyVals (str : Bytes) : AList fun _ : Bytes => Bytes :=
  -- `getline` gives no empty token behind a last comma, and the others are skipped
  let tokens := (str.splitOn (byte ',')).filter (· ≠ [])
  tokens.foldl (fun rv token =>
    let kv := extractKv (byte '=') token
    rv.insert kv.1 kv.2) ∅

/-- What `load_levels` collects: the levels of loggers, and the global level if it found one. -/
structure Levels where
  named : Bytes → Option LogLevel
  global : Option LogLevel

def Levels.empty : Levels where
  named := fun _ => none
  global := none

/-- The body of the loop of `load_levels`. -/
def Levels.take (found : Levels) (nameLevel : Sigma fun _ : Bytes => Bytes) : Levels :=
  let levelName := toLower nameLevel.2
  let level := fromStr levelName
  -- ignore unrecognized level names
  if level = .off ∧ levelName ≠ text "off" then found
  -- no logger name indicates the global level
  else if nameLevel.1 = [] then { found with global := some level }
  else { found with named := Function.update found.named nameLevel.1 (some level) }

/-- `load_levels` up to the call of `set_levels`, which it makes unless it returns before. -/
def loadLevels (input : Bytes) : Option Levels :=
  if input = [] ∨ 512 < input.length then none
  else some ((extractKeyVals input).entries.foldl Levels.take .empty)

/-! ## What is read -/

/-- The words for a level. -/
def LogLevel.words : LogLevel → List Bytes
  | .trace => [text "trace"]
  | .debug => [text "debug"]
  | .info => [text "info"]
  | .warn => [text "warning", text "warn"]
  | .err => [text "error", text "err"]
  | .critical => [text "critical"]
  | .off => [text "off"]

def logLevels : List LogLevel := [.trace, .debug, .info, .warn, .err, .critical, .off]

theorem mem_logLevels (level : LogLevel) : level ∈ logLevels := by
  cases level <;> decide

/-- The level a word in lower case gives, unless the reader passes over it. -/
def levelOfWord (word : Bytes) : Option LogLevel :=
  if fromStr word = .off ∧ word ≠ text "off" then none else some (fromStr word)

/-- A word of no level means `off`. -/
theorem fromStr_of_unknown {word : Bytes} (h : ∀ level ∈ logLevels, word ∉ level.words) :
    fromStr word = .off := by
  have hview : levelStringViews.lookup word = none := by
    have hwords : ∀ p ∈ levelStringViews, p.1 ∈ p.2.words := by decide +kernel
    rw [List.lookup_eq_none_iff]
    intro p hp
    rw [bne_iff_ne]
    rintro rfl
    exact h p.2 (mem_logLevels _) (hwords p hp)
  have hwarn : word ≠ text "warn" := by
    rintro rfl
    exact h .warn (mem_logLevels _) (by decide +kernel)
  have herr : word ≠ text "err" := by
    rintro rfl
    exact h .err (mem_logLevels _) (by decide +kernel)
  rw [fromStr, hview]
  dsimp only
  rw [if_neg hwarn, if_neg herr]

theorem levelOfWord_eq_some_iff {word : Bytes} {level : LogLevel} :
    levelOfWord word = some level ↔ word ∈ level.words := by
  by_cases hknown : ∃ l ∈ logLevels, word ∈ l.words
  · have hall : ∀ l ∈ logLevels, ∀ word ∈ l.words, ∀ level ∈ logLevels,
        (levelOfWord word = some level ↔ word ∈ level.words) := by decide +kernel
    obtain ⟨l, hl, hword⟩ := hknown
    exact hall l hl word hword level (mem_logLevels level)
  · -- an unknown word counts as "off", but is not that word
    have hunknown : ∀ l ∈ logLevels, word ∉ l.words := fun l hl hword => hknown ⟨l, hl, hword⟩
    have hoff : word ≠ text "off" := by
      rintro rfl
      exact hunknown .off (mem_logLevels _) (by decide +kernel)
    rw [levelOfWord, if_pos ⟨fromStr_of_unknown hunknown, hoff⟩]
    exact iff_of_false nofun (hunknown level (mem_logLevels level))

/-- The level of a logger: what is said about its name comes before what is said about all. -/
def Levels.levelOf (found : Levels) (name : Bytes) : Option LogLevel :=
  (found.named name).or found.global

/-- What is said about a name, where the empty name stands for all loggers. -/
def Levels.get (found : Levels) (name : Bytes) : Option LogLevel :=
  if name = [] then found.global else found.named name

/-- A pair changes the level of its own name, and only if its word is known. -/
theorem Levels.get_take (found : Levels) (nameLevel : Sigma fun _ : Bytes => Bytes)
    (name : Bytes) :
    (found.take nameLevel).get name =
      if nameLevel.1 = name then (levelOfWord (toLower nameLevel.2)).or (found.get name)
      else found.get name := by
  unfold take levelOfWord
  dsimp only
  by_cases hunknown : fromStr (toLower nameLevel.2) = .off ∧ toLower nameLevel.2 ≠ text "off"
  · rw [if_pos hunknown, if_pos hunknown, Option.none_or, ite_self]
  · rw [if_neg hunknown, if_neg hunknown, Option.some_or]
    unfold get
    by_cases hglobal : nameLevel.1 = []
    · rw [if_pos hglobal, hglobal]
      by_cases hname : name = []
      · rw [if_pos hname, if_pos hname.symm]
      · rw [if_neg hname, if_neg (Ne.symm hname), if_neg hname]
    · rw [if_neg hglobal]
      by_cases hname : nameLevel.1 = name
      · subst hname
        rw [if_pos rfl, if_neg hglobal]
        exact Function.update_self ..
      · rw [if_neg hname]
        dsimp only
        rw [Function.update_of_ne (Ne.symm hname)]

/-- Each name is listed once, so the order of the entries does not matter. -/
theorem Levels.get_foldl_take {entries : List (Sigma fun _ : Bytes => Bytes)}
    (h : entries.NodupKeys) (found : Levels) (name : Bytes) :
    (entries.foldl Levels.take found).get name =
      ((entries.dlookup name).bind fun value => levelOfWord (toLower value)).or
        (found.get name) := by
  induction entries generalizing found with
  | nil => rfl
  | cons entry rest ih =>
    obtain ⟨entryName, value⟩ := entry
    obtain ⟨hnew, hrest⟩ := List.nodupKeys_cons.mp h
    rw [List.foldl_cons, ih hrest, get_take]
    by_cases hname : entryName = name
    · subst hname
      have hnone : rest.dlookup entryName = none := List.dlookup_eq_none.mpr hnew
      rw [hnone, if_pos rfl, List.dlookup_cons_eq]
      rfl
    · rw [if_neg hname, List.dlookup_cons_ne _ _ (Ne.symm hname)]

/-- The last entry of a name counts. -/
theorem lookup_foldl_insert (kvs : List (Bytes × Bytes)) (rv : AList fun _ : Bytes => Bytes)
    (name : Bytes) :
    (kvs.foldl (fun rv kv => rv.insert kv.1 kv.2) rv).lookup name =
      (kvs.reverse.lookup name).or (rv.lookup name) := by
  induction kvs generalizing rv with
  | nil => rfl
  | cons kv rest ih =>
    rw [List.foldl_cons, ih, List.reverse_cons, List.lookup_append, Option.or_assoc]
    congr 1
    by_cases hname : name = kv.1
    · rw [hname, AList.lookup_insert, List.lookup_cons_self]
      rfl
    · rw [AList.lookup_insert_ne hname, List.lookup_cons, beq_eq_false_iff_ne.mpr hname]
      rfl

/-- The names and values of the tokens that are not empty. -/
def keyVals (tokens : List Bytes) : List (Bytes × Bytes) :=
  (tokens.filter (· ≠ [])).map (extractKv (byte '='))

/-- Of two settings of a name the later one counts. -/
theorem lookup_extractKeyVals (str name : Bytes) :
    (extractKeyVals str).lookup name =
      (keyVals (str.splitOn (byte ','))).reverse.lookup name := by
  have hfold := lookup_foldl_insert (keyVals (str.splitOn (byte ','))) ∅ name
  rw [keyVals, List.foldl_map, AList.lookup_empty, Option.or_none] at hfold
  exact hfold

/-- The loop keeps levels of loggers under their names only, and no name is empty. -/
theorem Levels.named_nil_foldl_take (entries : List (Sigma fun _ : Bytes => Bytes))
    {found : Levels} (h : found.named [] = none) :
    (entries.foldl Levels.take found).named [] = none := by
  induction entries generalizing found with
  | nil => exact h
  | cons entry rest ih =>
    refine ih ?_
    unfold take
    dsimp only
    split
    · exact h
    · split
      · exact h
      · rename_i hname
        exact (Function.update_of_ne (Ne.symm hname) ..).trans h

/-- What settings say about a name: the level of the last one with the name, if it is a level. -/
def said (kvs : List (Bytes × Bytes)) (name : Bytes) : Option LogLevel :=
  (kvs.reverse.lookup name).bind fun value => levelOfWord (toLower value)

/-- **What is read**, setting by setting. -/
theorem levelOf_loadLevels {input : Bytes} {found : Levels} (h : loadLevels input = some found)
    (name : Bytes) :
    let kvs := keyVals (input.splitOn (byte ','))
    found.levelOf name = (said kvs name).or (said kvs []) := by
  intro kvs
  unfold loadLevels at h
  by_cases hskip : input = [] ∨ 512 < input.length
  · rw [if_pos hskip] at h
    cases h
  · rw [if_neg hskip] at h
    cases h
    set found := (extractKeyVals input).entries.foldl Levels.take .empty with hfound
    have hget : ∀ name, found.get name = said kvs name := by
      intro name
      rw [hfound, Levels.get_foldl_take (extractKeyVals input).nodupKeys]
      show (((extractKeyVals input).lookup name).bind _).or _ = _
      rw [lookup_extractKeyVals, Levels.get, Levels.empty, ite_self, Option.or_none, said]
    rw [← hget, ← hget, Levels.levelOf, Levels.get, Levels.get, if_pos rfl]
    by_cases hname : name = []
    · have hnil : found.named [] = none := Levels.named_nil_foldl_take _ rfl
      rw [if_pos hname, hname, hnil, Option.none_or, Option.or_self]
    · rw [if_neg hname]

/-! ## Settings as they are written -/

/-- The text with blanks around it. -/
def Padded (written str : Bytes) : Prop :=
  ∃ left right, (∀ b ∈ left ++ right, b ∈ spaces) ∧ written = left ++ str ++ right

/-- Nothing in the text ends a setting or a name, or is taken off as a blank. -/
structure Bare (str : Bytes) : Prop where
  comma : byte ',' ∉ str
  equals : byte '=' ∉ str
  head : ∀ b ∈ str.head?, b ∉ spaces
  last : ∀ b ∈ str.getLast?, b ∉ spaces

/-- A value means the level that has its word, in any case, and otherwise nothing. -/
def Means (value : Bytes) (level : Option LogLevel) : Prop :=
  ∀ l, level = some l ↔ toLower value ∈ l.words

/-- The ways to write a setting: a level for all loggers, or a name with its level. -/
inductive Spells : Bytes → Bytes × Option LogLevel → Prop
  | global {written value : Bytes} {level : Option LogLevel} (hsome : written ≠ [])
      (hvalue : Padded written value) (hbare : Bare value) (hmeans : Means value level) :
      Spells written ([], level)
  | named {writtenName name written value : Bytes} {level : Option LogLevel}
      (hname : Padded writtenName name) (hbareName : Bare name)
      (hvalue : Padded written value) (hbare : Bare value) (hmeans : Means value level) :
      Spells (writtenName ++ byte '=' :: written) (name, level)

theorem rdropWhile_append_of_pos {p : Byte → Bool} {front back : Bytes}
    (h : ∀ b ∈ back, p b) : (front ++ back).rdropWhile p = front.rdropWhile p := by
  have hback : ∀ b ∈ back.reverse, p b := fun b hb => h b (List.mem_reverse.mp hb)
  rw [List.rdropWhile, List.reverse_append, List.dropWhile_append_of_pos hback, List.rdropWhile]

theorem trim_padded {written str : Bytes} (hpad : Padded written str) (hbare : Bare str) :
    trim written = str := by
  obtain ⟨left, right, hblank, rfl⟩ := hpad
  have hleft : ∀ b ∈ left, decide (b ∈ spaces) = true := fun b hb =>
    decide_eq_true (hblank b (List.mem_append_left _ hb))
  have hright : ∀ b ∈ right, decide (b ∈ spaces) = true := fun b hb =>
    decide_eq_true (hblank b (List.mem_append_right _ hb))
  rw [trim, rdropWhile_append_of_pos hright]
  by_cases hstr : str = []
  · subst hstr
    rw [List.append_nil, List.rdropWhile_eq_nil_iff.mpr hleft, List.dropWhile_nil]
  · -- both ends of the text stop the trimming
    have hlast : (left ++ str).rdropWhile (· ∈ spaces) = left ++ str := by
      rw [List.rdropWhile_eq_self_iff]
      intro hne
      rw [List.getLast_append_of_ne_nil hne hstr, decide_eq_true_eq]
      exact hbare.last _ (List.getLast?_eq_getLast_of_ne_nil hstr)
    rw [hlast, List.dropWhile_append_of_pos hleft]
    cases str with
    | nil => rfl
    | cons b rest =>
      rw [List.dropWhile_cons_of_neg]
      rw [decide_eq_true_eq]
      exact hbare.head b rfl

/-- Padding brings in nothing but blanks. -/
theorem Padded.notMem {written str : Bytes} (hpad : Padded written str) {sep : Byte}
    (hblank : sep ∉ spaces) (hsep : sep ∉ str) : sep ∉ written := by
  obtain ⟨left, right, hspaces, rfl⟩ := hpad
  intro hmem
  rcases List.mem_append.mp hmem with hfront | hright
  · rcases List.mem_append.mp hfront with hleft | hstr
    · exact hblank (hspaces sep (List.mem_append_left _ hleft))
    · exact hsep hstr
  · exact hblank (hspaces sep (List.mem_append_right _ hright))

theorem Means.levelOfWord {value : Bytes} {level : Option LogLevel} (h : Means value level) :
    ObsBench.levelOfWord (toLower value) = level := by
  ext l
  rw [levelOfWord_eq_some_iff]
  exact (h l).symm

/-- At the first separator a name ends. -/
theorem extractKv_append {sep : Byte} {front : Bytes} (h : sep ∉ front) (back : Bytes) :
    extractKv sep (front ++ sep :: back) = (trim front, trim back) := by
  have hfront : ∀ b ∈ front, decide (b ≠ sep) = true := by
    intro b hb
    rw [decide_eq_true_eq]
    rintro rfl
    exact h hb
  rw [extractKv, if_pos (List.mem_append_right _ (List.mem_cons_self ..)),
    List.takeWhile_append_of_pos hfront, List.takeWhile_cons_of_neg (by simp), List.append_nil,
    List.dropWhile_append_of_pos hfront, List.dropWhile_cons_of_neg (by simp), List.drop_one,
    List.tail_cons]

/-- A setting that is written is read back. -/
theorem Spells.read {token : Bytes} {setting : Bytes × Option LogLevel} (h : Spells token setting) :
    byte ',' ∉ token ∧ token ≠ [] ∧ (extractKv (byte '=') token).1 = setting.1 ∧
      levelOfWord (toLower (extractKv (byte '=') token).2) = setting.2 := by
  have hcomma : byte ',' ∉ spaces := by decide +kernel
  have hequals : byte '=' ∉ spaces := by decide +kernel
  cases h with
  | global hsome hvalue hbare hmeans =>
    refine ⟨hvalue.notMem hcomma hbare.comma, hsome, ?_⟩
    rw [extractKv, if_neg (hvalue.notMem hequals hbare.equals), trim_padded hvalue hbare]
    exact ⟨rfl, hmeans.levelOfWord⟩
  | named hname hbareName hvalue hbare hmeans =>
    have hne : byte ',' ≠ byte '=' := by decide
    refine ⟨?_, by simp, ?_⟩
    · rw [List.mem_append, List.mem_cons, not_or, not_or]
      exact ⟨hname.notMem hcomma hbareName.comma, hne, hvalue.notMem hcomma hbare.comma⟩
    · rw [extractKv_append (hname.notMem hequals hbareName.equals), trim_padded hname hbareName,
        trim_padded hvalue hbare]
      exact ⟨rfl, hmeans.levelOfWord⟩

/-- What settings that are read say is what they were written for. -/
theorem said_of_forall₂ {kvs : List (Bytes × Bytes)} {settings : List (Bytes × Option LogLevel)}
    (h : List.Forall₂ (fun kv setting => kv.1 = setting.1 ∧ levelOfWord (toLower kv.2) = setting.2)
      kvs settings) (name : Bytes) :
    said kvs name = (settings.reverse.lookup name).getD none := by
  have hlookup := List.forall₂_reverse_iff.mpr h
  unfold said
  generalize kvs.reverse = lastKvs, settings.reverse = lastSettings at hlookup
  induction hlookup with
  | nil => rfl
  | @cons kv setting kvs settings hread _ ih =>
    rw [List.lookup_cons, List.lookup_cons, hread.1]
    cases name == setting.1 with
    | true => exact hread.2
    | false => exact ih

/-- A spelled setting is one token: it is not empty and has no comma. -/
theorem Spells.tokens {tokens : List Bytes} {settings : List (Bytes × Option LogLevel)}
    (h : List.Forall₂ Spells tokens settings) :
    ∀ token ∈ tokens, byte ',' ∉ token ∧ token ≠ [] := by
  induction h with
  | nil => exact List.forall_mem_nil _
  | cons hspells _ ih => exact List.forall_mem_cons.mpr ⟨⟨hspells.read.1, hspells.read.2.1⟩, ih⟩

/-- **A list of settings is read as it is written.** Each setting is a level, or a name and a
level, in any spelling and with blanks around both. A logger gets the level of the last setting
with its name, else the one of the last setting without a name; a setting whose level is no word
the reader knows gives none. More than 512 bytes are not read at all. -/
theorem levels_readable {tokens : List Bytes} {settings : List (Bytes × Option LogLevel)}
    (hspells : List.Forall₂ Spells tokens settings) (hsome : settings ≠ []) :
    let input := [byte ','].intercalate tokens
    (input.length ≤ 512 → ∃ found, loadLevels input = some found ∧
      ∀ name, found.levelOf name =
        ((settings.reverse.lookup name).getD none).or
          ((settings.reverse.lookup []).getD none)) ∧
    (512 < input.length → loadLevels input = none) := by
  intro input
  have hread := Spells.tokens hspells
  have htokens : tokens ≠ [] := by
    rintro rfl
    cases hspells
    exact hsome rfl
  have hsplit : input.splitOn (byte ',') = tokens :=
    List.splitOn_intercalate _ (fun token htoken => (hread token htoken).1) htokens
  have hfilter : tokens.filter (· ≠ []) = tokens :=
    List.filter_eq_self.mpr fun token htoken => decide_eq_true (hread token htoken).2
  constructor
  · intro hshort
    have hloaded : ∃ found, loadLevels input = some found := by
      have hne : input ≠ [] := by
        intro hnil
        rw [hnil, List.splitOn_nil] at hsplit
        exact (hread [] (hsplit ▸ List.mem_singleton_self _)).2 rfl
      exact ⟨_, if_neg (not_or.mpr ⟨hne, by omega⟩)⟩
    obtain ⟨found, hfound⟩ := hloaded
    refine ⟨found, hfound, fun name => ?_⟩
    -- each token reads back as its setting; the later setting of a name counts
    have hkvs : List.Forall₂ (fun kv setting => kv.1 = setting.1 ∧
        levelOfWord (toLower kv.2) = setting.2) (keyVals tokens) settings := by
      rw [keyVals, hfilter, List.forall₂_map_left_iff]
      exact hspells.imp fun token setting hspell => hspell.read.2.2
    have hlevel := levelOf_loadLevels hfound name
    rw [hsplit] at hlevel
    rw [hlevel, said_of_forall₂ hkvs, said_of_forall₂ hkvs]
  · intro hlong
    exact if_pos (.inr hlong)

/-- Everything off but one logger; the blank and the capitals do not matter. -/
theorem levels_readable_off :
    ∃ found, loadLevels (text "off,logger1= DEBUG") = some found ∧
      found.levelOf (text "logger1") = some .debug ∧
      found.levelOf (text "main_logger") = some .off := by
  have hpadded : ∀ str : Bytes, Padded str str := fun str =>
    ⟨[], [], nofun, by rw [List.nil_append, List.append_nil]⟩
  have hoff : Spells (text "off") ([], some .off) := by
    refine .global (by decide +kernel) (hpadded _) ?_ ?_
    · constructor <;> decide +kernel
    · intro l
      cases l <;> decide +kernel
  have hlogger : Spells (text "logger1" ++ byte '=' :: text " DEBUG")
      (text "logger1", some .debug) := by
    have hblank : Padded (text " DEBUG") (text "DEBUG") :=
      ⟨text " ", [], by decide +kernel, by decide +kernel⟩
    refine .named (hpadded _) ?_ hblank ?_ ?_
    · constructor <;> decide +kernel
    · constructor <;> decide +kernel
    · intro l
      cases l <;> decide +kernel
  obtain ⟨found, hfound, hlevel⟩ := (levels_readable (.cons hoff (.cons hlogger .nil))
    (List.cons_ne_nil _ _)).1 (by decide +kernel)
  have hinput : text "off,logger1= DEBUG" =
      [byte ','].intercalate [text "off", text "logger1" ++ byte '=' :: text " DEBUG"] := by
    decide +kernel
  refine ⟨found, ?_, ?_, ?_⟩
  · rw [hinput, hfound]
  · rw [hlevel]
    decide +kernel
  · rw [hlevel]
    decide +kernel

end ObsBench
