import ObsBench.Client.Config
import ObsBench.Log.Levels

/-!
# Loggers

`init_logger` makes `main_logger` the only logger and loads the levels of the environment. In a
build with `DEBUG` a module constructs a `ModuleLogger` under its name, with a level of its own or
without. The constructor looks the name up; a logger that is there gets the level, one that is
missing is cloned from `main_logger` and registered. Last it loads the levels of the environment
again, so that the environment has the last word.

Modules are constructed by threads, and the registry is locked for the look-up, for the
registration and for the loading each by itself. A level is stored without the lock.

* **`one_logger_per_name`**: the registrations, and when a constructor throws.
* **`environment_wins`**: the level of a logger.
-/

namespace ObsBench

/-! ## The registry -/

/-- `MAIN_LOGGER`. -/
def mainLogger : Bytes := text "main_logger"

/-- `loggers_`, with the level of each logger. -/
abbrev Loggers := Bytes → Option LogLevel

/-- The body of the loop of `registry::set_levels`. -/
def Levels.apply (found : Levels) (name : Bytes) (level : LogLevel) : LogLevel :=
  match found.named name with
  | some entry => entry
  | none => found.global.getD level

/-- `registry::set_levels`. -/
def setLevels (found : Levels) (loggers : Loggers) : Loggers :=
  fun name => (loggers name).map (found.apply name)

/-- What `load_env_levels` hands to `set_levels`, if it calls it. -/
def loadEnvLevels (env : Environment) : Option Levels :=
  -- `os::getenv` gives an empty string for a variable that is not set
  loadLevels ((env (cstr "SPDLOG_LEVEL")).elim [] CString.bytes)

/-- `registry::registry`, whose default logger has no name. -/
def initialLoggers : Loggers := Function.update (fun _ => none) [] (some .info)

/-- `init_logger`. -/
def initLogger (env : Environment) : Loggers :=
  -- `set_default_logger` drops the default logger it replaces
  let loggers := Function.update initialLoggers [] none
  let loggers := Function.update loggers mainLogger (some .trace)
  match loadEnvLevels env with
  | some found => setLevels found loggers
  | none => loggers

/-- The level the environment gives to a logger. -/
def envLevel (env : Environment) (name : Bytes) : Option LogLevel :=
  (loadEnvLevels env).bind (·.levelOf name)

/-- A logger gets the level set for its name, or keeps its own. -/
theorem Levels.apply_eq (found : Levels) (name : Bytes) (level : LogLevel) :
    found.apply name level = (found.levelOf name).getD level := by
  unfold apply levelOf
  cases found.named name <;> rfl

/-- After `init_logger` there is `main_logger`, with the level the environment gives it, if any. -/
theorem initLogger_eq (env : Environment) :
    initLogger env = Function.update (fun _ => none) mainLogger
      (some ((envLevel env mainLogger).getD .trace)) := by
  have hloggers : Function.update (Function.update initialLoggers [] none) mainLogger
      (some .trace) = Function.update (fun _ => none) mainLogger (some .trace) := by
    rw [initialLoggers, Function.update_idem, Function.update_eq_self]
  unfold initLogger envLevel
  dsimp only
  rw [hloggers]
  cases loadEnvLevels env with
  | none => rfl
  | some found =>
    funext name
    show Option.map (found.apply name) _ = _
    by_cases hname : name = mainLogger
    · rw [hname, Function.update_self, Function.update_self, Option.map_some, found.apply_eq]
      rfl
    · rw [Function.update_of_ne hname, Function.update_of_ne hname, Option.map_none]

/-! ## Constructors of `ModuleLogger` -/

/-- Where a thread stands: outside; in a constructor, before `spdlog::get`, before the level is
set on the logger it found, before the clone of `main_logger`, before `register_logger`; before
`load_env_levels`; or in `set_levels`, with the loggers whose turn is still to come. -/
inductive ModulePc where
  | outside
  | looking (name : Bytes) (level : Option LogLevel)
  | present (name : Bytes) (level : Option LogLevel)
  | missing (name : Bytes) (level : Option LogLevel)
  | cloned (name : Bytes) (level : LogLevel)
  | loading
  | storing (found : Levels) (todo : List Bytes)

structure Logging where
  loggers : Loggers
  pcs : ℕ → ModulePc

/-- The program after `init_logger`. -/
def Logging.start (env : Environment) : Logging where
  loggers := initLogger env
  pcs := fun _ => .outside

def Logging.set (s : Logging) (i : ℕ) (pc : ModulePc) : Logging :=
  { s with pcs := Function.update s.pcs i pc }

def Logging.setLevel (s : Logging) (name : Bytes) (level : LogLevel) : Logging :=
  { s with loggers := Function.update s.loggers name (some level) }

@[simp] theorem Logging.pcs_set_self (s : Logging) (i : ℕ) (pc : ModulePc) :
    (s.set i pc).pcs i = pc :=
  Function.update_self ..

theorem Logging.pcs_set_of_ne {s : Logging} {i j : ℕ} {pc : ModulePc} (h : j ≠ i) :
    (s.set i pc).pcs j = s.pcs j :=
  Function.update_of_ne h ..

theorem Logging.loggers_setLevel_self (s : Logging) (name : Bytes) (level : LogLevel) :
    (s.setLevel name level).loggers name = some level :=
  Function.update_self ..

theorem Logging.loggers_setLevel_of_ne {s : Logging} {name n : Bytes} {level : LogLevel}
    (h : name ≠ n) : (s.setLevel name level).loggers n = s.loggers n :=
  Function.update_of_ne (Ne.symm h) ..

/-- A level is stored in a logger that is there. -/
theorem Logging.setLevel_eq_none_iff {s : Logging} {name : Bytes} (h : s.loggers name ≠ none)
    (level : LogLevel) (n : Bytes) :
    (s.setLevel name level).loggers n = none ↔ s.loggers n = none := by
  by_cases hname : name = n
  · subst hname
    rw [loggers_setLevel_self]
    exact iff_of_false (Option.some_ne_none level) h
  · rw [loggers_setLevel_of_ne hname]

/-- Nobody holds `logger_map_mutex_`. -/
def Logging.Free (s : Logging) : Prop := ∀ i found todo, s.pcs i ≠ .storing found todo

/-- A module that goes on without entering `set_levels` leaves the lock free. -/
theorem Logging.Free.go {s : Logging} (h : s.Free) (i : ℕ) (pc : ModulePc)
    (hpc : ∀ found todo, pc ≠ .storing found todo) : (s.set i pc).Free := by
  intro j found todo hj
  by_cases hji : j = i
  · subst hji
    rw [Logging.pcs_set_self] at hj
    exact hpc found todo hj
  · rw [Logging.pcs_set_of_ne hji] at hj
    exact h j found todo hj

inductive LoggingEvent where
  -- a constructor found no logger
  | missed (i : ℕ) (name : Bytes)
  | registered (i : ℕ) (name : Bytes) (level : LogLevel)
  | threw (i : ℕ) (name : Bytes)
  -- a constructor with a level found a logger
  | levelSet (name : Bytes) (level : LogLevel)
  -- `set_levels` has come to a logger
  | stored (name : Bytes)
  -- somebody called `ModuleLogger::set_level`
  | overrode (name : Bytes) (level : LogLevel)
  | silent

inductive LoggingStep (env : Environment) : Logging → LoggingEvent → Logging → Prop where
  | construct {s : Logging} {i : ℕ} (name : Bytes) (level : Option LogLevel)
      (hpc : s.pcs i = .outside) :
      LoggingStep env s .silent (s.set i (.looking name level))
  | found {s : Logging} {i : ℕ} {name : Bytes} {level : Option LogLevel}
      (hpc : s.pcs i = .looking name level) (hfree : s.Free) (hfound : s.loggers name ≠ none) :
      LoggingStep env s .silent (s.set i (.present name level))
  | missed {s : Logging} {i : ℕ} {name : Bytes} {level : Option LogLevel}
      (hpc : s.pcs i = .looking name level) (hfree : s.Free) (hmissing : s.loggers name = none) :
      LoggingStep env s (.missed i name) (s.set i (.missing name level))
  | setLevel {s : Logging} {i : ℕ} {name : Bytes} {level : LogLevel}
      (hpc : s.pcs i = .present name (some level)) :
      LoggingStep env s (.levelSet name level) ((s.setLevel name level).set i .loading)
  | keepLevel {s : Logging} {i : ℕ} {name : Bytes} (hpc : s.pcs i = .present name none) :
      LoggingStep env s .silent (s.set i .loading)
  /-- The clone has the level `main_logger` has at that moment, unless it is given one. -/
  | clone {s : Logging} {i : ℕ} {name : Bytes} {level : Option LogLevel} {main : LogLevel}
      (hpc : s.pcs i = .missing name level) (hmain : s.loggers mainLogger = some main) :
      LoggingStep env s .silent (s.set i (.cloned name (level.getD main)))
  | register {s : Logging} {i : ℕ} {name : Bytes} {level : LogLevel}
      (hpc : s.pcs i = .cloned name level) (hfree : s.Free) (hnew : s.loggers name = none) :
      LoggingStep env s (.registered i name level) ((s.setLevel name level).set i .loading)
  /-- `throw_if_exists_`. -/
  | throws {s : Logging} {i : ℕ} {name : Bytes} {level : LogLevel}
      (hpc : s.pcs i = .cloned name level) (hfree : s.Free) (hexists : s.loggers name ≠ none) :
      LoggingStep env s (.threw i name) (s.set i .outside)
  /-- `ModuleLogger::load_env_levels`. -/
  | reload {s : Logging} {i : ℕ} (hpc : s.pcs i = .outside) :
      LoggingStep env s .silent (s.set i .loading)
  | loadNothing {s : Logging} {i : ℕ} (hpc : s.pcs i = .loading)
      (hnothing : loadEnvLevels env = none) :
      LoggingStep env s .silent (s.set i .outside)
  /-- `set_levels` takes the lock and goes through the map in some order. -/
  | load {s : Logging} {i : ℕ} {found : Levels} {todo : List Bytes} (hpc : s.pcs i = .loading)
      (hfree : s.Free) (hfound : loadEnvLevels env = some found) (hnodup : todo.Nodup)
      (htodo : ∀ name, name ∈ todo ↔ s.loggers name ≠ none) :
      LoggingStep env s .silent (s.set i (.storing found todo))
  | store {s : Logging} {i : ℕ} {found : Levels} {name : Bytes} {todo : List Bytes}
      {level : LogLevel} (hpc : s.pcs i = .storing found (name :: todo))
      (hlevel : s.loggers name = some level) :
      LoggingStep env s (.stored name)
        ((s.setLevel name (found.apply name level)).set i (.storing found todo))
  | loaded {s : Logging} {i : ℕ} {found : Levels} (hpc : s.pcs i = .storing found []) :
      LoggingStep env s .silent (s.set i .outside)
  /-- `ModuleLogger::set_level`, on a logger that somebody has constructed. -/
  | override {s : Logging} {name : Bytes} (level : LogLevel) (hname : s.loggers name ≠ none) :
      LoggingStep env s (.overrode name level) (s.setLevel name level)

/-! ## Registrations -/

def LoggingEvent.registeredName : LoggingEvent → Option Bytes
  | .registered _ name _ => some name
  | _ => none

/-- The names registered by constructors, in order. -/
def registeredNames (events : List LoggingEvent) : List Bytes :=
  events.filterMap LoggingEvent.registeredName

theorem registeredNames_append (events : List LoggingEvent) (e : LoggingEvent) :
    registeredNames (events ++ [e]) = registeredNames events ++ e.registeredName.toList := by
  rw [registeredNames, List.filterMap_append]
  cases h : e.registeredName <;> simp [h, registeredNames]

/-- The thread found no logger of the name and has not come to its registration. -/
def ModulePc.Missed (name : Bytes) : ModulePc → Prop
  | .missing n _ => n = name
  | .cloned n _ => n = name
  | _ => False

/-- When the thread looked there was no logger of the name, and it has registered none since. -/
def MissedSince (events : List LoggingEvent) (i : ℕ) (name : Bytes) : Prop :=
  ∃ before after, events = before ++ .missed i name :: after ∧
    name ∉ mainLogger :: registeredNames before ∧ ∀ level, .registered i name level ∉ after

/-- The loggers are `main_logger` and those of the registrations, and no name comes twice. A thread
that found a logger has one before it, and one about to register a logger found none. -/
structure Registered (events : List LoggingEvent) (s : Logging) : Prop where
  nodup : (mainLogger :: registeredNames events).Nodup
  loggers : ∀ name, s.loggers name ≠ none ↔ name ∈ mainLogger :: registeredNames events
  present : ∀ i name level, s.pcs i = .present name level → s.loggers name ≠ none
  missed : ∀ i name, (s.pcs i).Missed name → MissedSince events i name

section Steps

variable {env : Environment} {events : List LoggingEvent} {s s' : Logging} {e : LoggingEvent}
  {name : Bytes} {i : ℕ} {pc : ModulePc}

/-- The thread has still registered none, unless that is what it does now. -/
theorem MissedSince.append (h : MissedSince events i name)
    (he : ∀ level, e ≠ .registered i name level) : MissedSince (events ++ [e]) i name := by
  obtain ⟨before, after, rfl, hbefore, hafter⟩ := h
  refine ⟨before, after ++ [e], by rw [List.append_assoc, List.cons_append], hbefore, ?_⟩
  intro level hmem
  rcases List.mem_append.mp hmem with hold | hlast
  · exact hafter level hold
  · exact he level (List.mem_singleton.mp hlast).symm

/-- A step that registers nothing: a thread goes on, and the loggers are those there were. -/
theorem Registered.quiet (h : Registered events s) (he : e.registeredName = none)
    (hloggers : ∀ name, s'.loggers name = none ↔ s.loggers name = none)
    (hpcs : s'.pcs = Function.update s.pcs i pc)
    (hpresent : ∀ name level, pc = .present name level → s.loggers name ≠ none)
    (hmissed : ∀ name, pc.Missed name →
      (s.pcs i).Missed name ∨ e = .missed i name ∧ s.loggers name = none) :
    Registered (events ++ [e]) s' := by
  have hnames : registeredNames (events ++ [e]) = registeredNames events := by
    rw [registeredNames_append, he, Option.toList_none, List.append_nil]
  have hevent : ∀ j name level, e ≠ .registered j name level := by
    rintro j name level rfl
    cases he
  constructor
  · rw [hnames]
    exact h.nodup
  · intro name
    rw [hnames, ← h.loggers name]
    exact not_congr (hloggers name)
  · intro j name level hj
    rw [hpcs] at hj
    refine (not_congr (hloggers name)).mpr ?_
    by_cases hji : j = i
    · subst hji
      rw [Function.update_self] at hj
      exact hpresent name level hj
    · rw [Function.update_of_ne hji] at hj
      exact h.present j name level hj
  · intro j name hj
    rw [hpcs] at hj
    have hold : (s.pcs j).Missed name → MissedSince (events ++ [e]) j name := fun hbefore =>
      (h.missed j name hbefore).append (hevent j name)
    by_cases hji : j = i
    · subst hji
      rw [Function.update_self] at hj
      rcases hmissed name hj with hbefore | ⟨rfl, hnone⟩
      · exact hold hbefore
      · -- the thread has just looked
        refine ⟨events, [], rfl, ?_, fun _ => List.not_mem_nil⟩
        rw [← h.loggers name]
        exact not_not.mpr hnone
    · rw [Function.update_of_ne hji] at hj
      exact hold hj

/-- A new name is added to the loggers and, once, to the registered names. The loggers only grow,
so a thread that found one still has it; a thread that missed the name before may be late now, and
that is still recorded. -/
theorem Registered.register {level : LogLevel} (h : Registered events s)
    (hpc : s.pcs i = .cloned name level) (hnew : s.loggers name = none) :
    Registered (events ++ [.registered i name level])
      ((s.setLevel name level).set i .loading) := by
  have hnames : registeredNames (events ++ [.registered i name level]) =
      registeredNames events ++ [name] := registeredNames_append ..
  have hfresh : name ∉ mainLogger :: registeredNames events := by
    rw [← h.loggers name]
    exact not_not.mpr hnew
  have hgrows : ∀ n, s.loggers n ≠ none → (s.setLevel name level).loggers n ≠ none := by
    intro n hn
    rwa [Logging.loggers_setLevel_of_ne]
    rintro rfl
    exact hn hnew
  constructor
  · -- nodup
    rw [hnames, ← List.cons_append]
    exact h.nodup.append (List.nodup_singleton name) (List.disjoint_singleton.mpr hfresh)
  · -- loggers: one more on both sides
    intro n
    rw [hnames, ← List.cons_append, List.mem_append, List.mem_singleton, ← h.loggers n]
    by_cases hname : name = n
    · subst hname
      refine iff_of_true ?_ (.inr rfl)
      exact Option.ne_none_iff_exists'.mpr ⟨level, Logging.loggers_setLevel_self ..⟩
    · have hsame : (s.setLevel name level).loggers n = s.loggers n :=
        Logging.loggers_setLevel_of_ne hname
      rw [or_iff_left (Ne.symm hname), ← hsame]
      rfl
  · -- present: thread `i` goes on to load, the others keep the logger they found
    intro j n l hj
    by_cases hji : j = i
    · subst hji
      rw [Logging.pcs_set_self] at hj
      cases hj
    · rw [Logging.pcs_set_of_ne hji] at hj
      exact hgrows n (h.present j n l hj)
  · -- missed: only thread `i` has registered anything
    intro j n hj
    by_cases hji : j = i
    · subst hji
      rw [Logging.pcs_set_self] at hj
      exact hj.elim
    · rw [Logging.pcs_set_of_ne hji] at hj
      refine (h.missed j n hj).append fun l he => ?_
      cases he
      exact hji rfl

/-- Every step of any thread keeps the loggers and the registrations in accord. -/
theorem Registered.step (h : Registered events s) (hstep : LoggingStep env s e s') :
    Registered (events ++ [e]) s' := by
  cases hstep with
  | construct name level hpc => exact h.quiet rfl (fun _ => Iff.rfl) rfl nofun nofun
  | found hpc hfree hfound =>
    refine h.quiet rfl (fun _ => Iff.rfl) rfl ?_ nofun
    rintro _ _ ⟨⟩
    exact hfound
  | missed hpc hfree hmissing =>
    refine h.quiet rfl (fun _ => Iff.rfl) rfl nofun ?_
    rintro _ rfl
    exact .inr ⟨rfl, hmissing⟩
  | clone hpc hmain =>
    refine h.quiet rfl (fun _ => Iff.rfl) rfl nofun ?_
    rintro _ rfl
    rw [hpc]
    exact .inl rfl
  | register hpc hfree hnew => exact h.register hpc hnew
  | keepLevel _ | throws _ _ _ | reload _ | loadNothing _ _ | loaded _ | load _ _ _ _ _ =>
    exact h.quiet rfl (fun _ => Iff.rfl) rfl nofun nofun
  | setLevel hpc =>
    have hname := h.present _ _ _ hpc
    exact h.quiet rfl (Logging.setLevel_eq_none_iff hname _) rfl nofun nofun
  | store hpc hlevel =>
    have hname := Option.ne_none_iff_exists'.mpr ⟨_, hlevel⟩
    exact h.quiet rfl (Logging.setLevel_eq_none_iff hname _) rfl nofun nofun
  | override level hname =>
    -- no thread goes on
    exact h.quiet (i := 0) rfl (Logging.setLevel_eq_none_iff hname level)
      (Function.update_eq_self 0 _).symm (fun n l hpc => h.present 0 n l hpc) fun _ => .inl

end Steps

/-- Registered names are distinct in every reachable state. -/
theorem registered_of_run {env : Environment} {events : List LoggingEvent} {s : Logging}
    (h : Transition.Run (LoggingStep env) (.start env) events s) : Registered events s := by
  refine h.invariant Registered ⟨?_, ?_, ?_, ?_⟩ fun _ _ _ _ hinv hstep => hinv.step hstep
  · exact List.nodup_singleton mainLogger
  · intro name
    show initLogger env name ≠ none ↔ name ∈ [mainLogger]
    rw [initLogger_eq, List.mem_singleton]
    by_cases hmain : name = mainLogger
    · rw [hmain, Function.update_self]
      exact iff_of_true (Option.some_ne_none _) rfl
    · rw [Function.update_of_ne hmain]
      exact iff_of_false (not_not.mpr rfl) hmain
  · rintro _ _ _ ⟨⟩
  · rintro _ _ ⟨⟩

/-- **One logger for a name.** Besides `main_logger` the loggers are those of the registrations,
and no name is registered twice. A constructor throws only if it lost a race: after it found no
logger of the name, another thread registered one. -/
theorem one_logger_per_name {env : Environment} {events : List LoggingEvent} {s : Logging}
    (h : Transition.Run (LoggingStep env) (.start env) events s) :
    (mainLogger :: registeredNames events).Nodup ∧
    (∀ name, s.loggers name ≠ none ↔ name ∈ mainLogger :: registeredNames events) ∧
    ∀ before after i name, events = before ++ .threw i name :: after →
      ∃ front back j level, before = front ++ .missed i name :: back ∧ j ≠ i ∧
        .registered j name level ∈ back := by
  have hregistered := registered_of_run h
  refine ⟨hregistered.nodup, hregistered.loggers, fun before after i name hevents => ?_⟩
  have hprefix : before ++ [.threw i name] <+: events := ⟨after, by simp [hevents]⟩
  obtain ⟨s', h'⟩ := h.of_prefix hprefix
  obtain ⟨q, hbefore, hstep⟩ := h'.last
  cases hstep with
  | throws hpc hfree hexists =>
    have hmissed : (q.pcs i).Missed name := by
      rw [hpc]
      rfl
    obtain ⟨front, back, rfl, hnew, hself⟩ := (registered_of_run hbefore).missed i name hmissed
    -- the logger that is there now was not there when the thread looked
    have hnow : name ∈ (mainLogger :: registeredNames front) ++ registeredNames back := by
      have hmem := ((registered_of_run hbefore).loggers name).mp hexists
      rwa [registeredNames, List.filterMap_append] at hmem
    have hback := (List.mem_append.mp hnow).resolve_left hnew
    obtain ⟨e, he, hname⟩ := List.mem_filterMap.mp hback
    cases e with
    | registered j n level =>
      cases hname
      refine ⟨front, back, j, level, rfl, ?_, he⟩
      rintro rfl
      exact hself level he
    | _ => cases hname

/-- Two threads construct a logger of one name at the same time. -/
theorem one_logger_per_name_race :
    ∃ events, ∃ s : Logging,
      Transition.Run (LoggingStep fun _ => none) (.start fun _ => none) events s ∧
      ∃ before after, events = before ++ .threw 1 (text "net") :: after ∧
        ∃ front back j level, before = front ++ .missed 1 (text "net") :: back ∧ j ≠ 1 ∧
          .registered j (text "net") level ∈ back := by
  have hnew : initLogger (fun _ => none) (text "net") = none := by decide +kernel
  have hmain : initLogger (fun _ => none) mainLogger = some .trace := by decide +kernel
  have hstart : (Logging.start fun _ => none).Free := by rintro _ _ _ ⟨⟩
  have hlooking := (hstart.go 0 (.looking (text "net") none) nofun).go 1
    (.looking (text "net") none) nofun
  have hmissed := (hlooking.go 0 (.missing (text "net") none) nofun).go 1
    (.missing (text "net") none) nofun
  have hcloned := (hmissed.go 0 (.cloned (text "net") .trace) nofun).go 1
    (.cloned (text "net") .trace) nofun
  -- both threads have cloned `main_logger`
  obtain ⟨events, s, hrun, hfirst, hsecond, hfree, hnone⟩ : ∃ events, ∃ s : Logging,
      Transition.Run (LoggingStep fun _ => none) (.start fun _ => none) events s ∧
      s.pcs 0 = .cloned (text "net") .trace ∧ s.pcs 1 = .cloned (text "net") .trace ∧
      s.Free ∧ s.loggers (text "net") = none := by
    refine ⟨_, _, (((((Transition.Run.start.step
      (.construct (i := 0) (text "net") none rfl)).step
      (.construct (i := 1) (text "net") none rfl)).step
      (.missed (i := 0) rfl hlooking hnew)).step
      (.missed (i := 1) rfl (hlooking.go 0 _ nofun) hnew)).step
      (.clone (i := 0) rfl hmain)).step
      (.clone (i := 1) rfl hmain), rfl, rfl, hcloned, ?_⟩
    exact hnew
  have hregistered := hrun.step (.register hfirst hfree hnone)
  have hsome : (s.setLevel (text "net") .trace).loggers (text "net") ≠ none :=
    Option.ne_none_iff_exists'.mpr ⟨.trace, Logging.loggers_setLevel_self ..⟩
  have hthrown := hregistered.step (.throws
    ((Logging.pcs_set_of_ne Nat.one_ne_zero).trans hsecond)
    (Logging.Free.go (s := s.setLevel _ _) hfree 0 .loading nofun) hsome)
  exact ⟨_, _, hthrown, _, [], rfl, (one_logger_per_name hthrown).2.2 _ [] 1 _ rfl⟩

/-! ## The level of a logger -/

/-- The level the program gave a logger last. -/
def lastLevelAfter (name : Bytes) (last : LogLevel) : LoggingEvent → LogLevel
  | .registered _ n level | .levelSet n level | .overrode n level =>
    if n = name then level else last
  | _ => last

def lastLevel (name : Bytes) (events : List LoggingEvent) : LogLevel :=
  events.foldl (lastLevelAfter name) .trace

theorem lastLevel_append (name : Bytes) (events : List LoggingEvent) (e : LoggingEvent) :
    lastLevel name (events ++ [e]) = lastLevelAfter name (lastLevel name events) e :=
  List.foldl_append

/-- Somebody called `set_level` on the logger and the levels were not loaded since then. -/
def overriddenAfter (name : Bytes) (overridden : Bool) : LoggingEvent → Bool
  | .overrode n _ => overridden || n = name
  | .stored n => overridden && n ≠ name
  | _ => overridden

def overridden (name : Bytes) (events : List LoggingEvent) : Bool :=
  events.foldl (overriddenAfter name) false

theorem overridden_append (name : Bytes) (events : List LoggingEvent) (e : LoggingEvent) :
    overridden name (events ++ [e]) = overriddenAfter name (overridden name events) e :=
  List.foldl_append

/-- The thread is still to load the level of the logger. -/
def ModulePc.Loads (name : Bytes) : ModulePc → Prop
  | .loading => True
  | .storing _ todo => name ∈ todo
  | _ => False

def Logging.Pending (s : Logging) (name : Bytes) : Prop := ∃ i, (s.pcs i).Loads name

section Steps

variable {env : Environment} {events : List LoggingEvent} {s s' : Logging} {e : LoggingEvent}
  {name : Bytes}

/-- A thread that goes on leaves what is to be loaded, if it still loads what it had to. -/
theorem Logging.Pending.go {i : ℕ} {pc : ModulePc} (h : s.Pending name)
    (hpc : (s.pcs i).Loads name → pc.Loads name) : (s.set i pc).Pending name := by
  obtain ⟨j, hj⟩ := h
  by_cases hji : j = i
  · subst hji
    exact ⟨j, by rw [Logging.pcs_set_self]; exact hpc hj⟩
  · exact ⟨j, by rwa [Logging.pcs_set_of_ne hji]⟩

theorem Logging.pending_loading (s : Logging) (i : ℕ) (name : Bytes) :
    (s.set i .loading).Pending name :=
  ⟨i, by simp [ModulePc.Loads]⟩

/-- What the levels are, between the stores of the constructors and those of the environment. -/
structure Governed (env : Environment) (events : List LoggingEvent) (s : Logging) : Prop where
  storing : ∀ i found todo, s.pcs i = .storing found todo → loadEnvLevels env = some found
  program : ∀ name level, s.loggers name = some level → envLevel env name = none →
    level = lastLevel name events
  environment : ∀ name level l, s.loggers name = some level → envLevel env name = some l →
    level = l ∨ s.Pending name ∨ overridden name events = true

/-- A step that stores no level: a thread goes on, with as much to load as before. -/
theorem Governed.silent {i : ℕ} {pc : ModulePc} (h : Governed env events s)
    (hstoring : ∀ found todo, pc = .storing found todo → loadEnvLevels env = some found)
    (hpc : ∀ name, s.loggers name ≠ none → envLevel env name ≠ none → (s.pcs i).Loads name →
      pc.Loads name)
    (hlast : ∀ name last, lastLevelAfter name last e = last)
    (hoverridden : ∀ name overridden, overriddenAfter name overridden e = overridden) :
    Governed env (events ++ [e]) (s.set i pc) := by
  constructor
  · intro j found todo hj
    by_cases hji : j = i
    · subst hji
      rw [Logging.pcs_set_self] at hj
      exact hstoring found todo hj
    · rw [Logging.pcs_set_of_ne hji] at hj
      exact h.storing j found todo hj
  · intro name level hname henv
    rw [lastLevel_append, hlast]
    exact h.program name level hname henv
  · intro name level l hname henv
    rw [overridden_append, hoverridden]
    refine (h.environment name level l hname henv).imp_right (Or.imp_left fun hpending => ?_)
    exact hpending.go (hpc name (Option.ne_none_iff_exists'.mpr ⟨_, hname⟩)
      (Option.ne_none_iff_exists'.mpr ⟨_, henv⟩))

/-- The levels the program gave last, after one more. -/
theorem Governed.program_setLevel {level : LogLevel} (h : Governed env events s)
    (hlast : ∀ n last, lastLevelAfter n last e = if name = n then level else last) (n : Bytes)
    (l : LogLevel) (hn : (s.setLevel name level).loggers n = some l)
    (henv : envLevel env n = none) :
    l = lastLevel n (events ++ [e]) := by
  rw [lastLevel_append, hlast]
  by_cases hname : name = n
  · subst hname
    rw [Logging.loggers_setLevel_self] at hn
    rw [if_pos rfl, Option.some.inj hn]
  · rw [Logging.loggers_setLevel_of_ne hname] at hn
    rw [if_neg hname]
    exact h.program n l hn henv

/-- A step that stores a level and leaves the load of the environment's to do. -/
theorem Governed.loading {i : ℕ} {level : LogLevel} (h : Governed env events s)
    (hlast : ∀ n last, lastLevelAfter n last e = if name = n then level else last) :
    Governed env (events ++ [e]) ((s.setLevel name level).set i .loading) := by
  constructor
  · intro j found todo hj
    by_cases hji : j = i
    · subst hji
      rw [Logging.pcs_set_self] at hj
      cases hj
    · rw [Logging.pcs_set_of_ne hji] at hj
      exact h.storing j found todo hj
  · exact h.program_setLevel hlast
  · exact fun n _ _ _ _ => .inr (.inl (Logging.pending_loading _ i n))

/-- The turn of a logger in `set_levels`: it gets the level of the environment, or keeps its own. -/
theorem Governed.store {i : ℕ} {found : Levels} {todo : List Bytes} {level : LogLevel}
    (h : Governed env events s) (hpc : s.pcs i = .storing found (name :: todo))
    (hlevel : s.loggers name = some level) :
    Governed env (events ++ [.stored name])
      ((s.setLevel name (found.apply name level)).set i (.storing found todo)) := by
  have hfound := h.storing i _ _ hpc
  have henvLevel : envLevel env name = found.levelOf name := by
    rw [envLevel, hfound]
    rfl
  constructor
  · intro j found' todo' hj
    by_cases hji : j = i
    · subst hji
      rw [Logging.pcs_set_self] at hj
      cases hj
      exact hfound
    · rw [Logging.pcs_set_of_ne hji] at hj
      exact h.storing j found' todo' hj
  · intro n l hn henv
    show l = lastLevel n (events ++ [.stored name])
    rw [lastLevel_append]
    by_cases hname : name = n
    · subst hname
      have hsame : found.apply name level = level := by
        rw [found.apply_eq, ← henvLevel, henv, Option.getD_none]
      rw [hsame] at hn
      rw [← Option.some.inj ((Logging.loggers_setLevel_self ..).symm.trans hn)]
      exact h.program name level hlevel henv
    · exact h.program n l ((Logging.loggers_setLevel_of_ne hname).symm.trans hn) henv
  · intro n level' l hn henv
    by_cases hname : name = n
    · subst hname
      left
      rw [← Option.some.inj ((Logging.loggers_setLevel_self ..).symm.trans hn), found.apply_eq,
        ← henvLevel, henv, Option.getD_some]
    · have hbefore := (Logging.loggers_setLevel_of_ne hname).symm.trans hn
      refine (h.environment n level' l hbefore henv).imp_right (Or.imp (fun hpending => ?_) ?_)
      · -- the logger is still among those to come
        refine Logging.Pending.go (s := s.setLevel name _) hpending fun hloads => ?_
        have hmem : n ∈ name :: todo := by
          rw [show (s.setLevel name _).pcs i = .storing found (name :: todo) from hpc] at hloads
          exact hloads
        exact (List.mem_cons.mp hmem).resolve_left (Ne.symm hname)
      · intro hoverridden
        rw [overridden_append, hoverridden]
        simp [overriddenAfter, hname]

/-- A step stores a level that the events record, or one of the environment, or none at all. The
cases are those of the loop of `set_levels`, which has each logger's level still to store, and of
a program's own `set_level`. -/
theorem Governed.step (h : Governed env events s) (hstep : LoggingStep env s e s') :
    Governed env (events ++ [e]) s' := by
  cases hstep with
  | construct name level hpc | found hpc hfree hfound | keepLevel hpc | missed hpc hfree hmissing
  | clone hpc hmain | throws hpc hfree hexists | reload hpc =>
    -- before the load: such a thread has no level to store
    refine h.silent nofun (fun _ _ _ hloads => ?_) (fun _ _ => rfl) (fun _ _ => rfl)
    rw [hpc] at hloads
    exact hloads.elim
  | setLevel hpc => exact h.loading fun _ _ => rfl
  | register hpc hfree hnew => exact h.loading fun _ _ => rfl
  | loadNothing hpc hnothing =>
    refine h.silent nofun (fun name _ henv _ => ?_) (fun _ _ => rfl) (fun _ _ => rfl)
    rw [envLevel, hnothing] at henv
    exact absurd rfl henv
  | load hpc hfree hfound hnodup htodo =>
    -- the loop of `set_levels` begins with all loggers still to come
    refine h.silent ?_ (fun name hname _ _ => ?_) (fun _ _ => rfl) (fun _ _ => rfl)
    · rintro _ _ ⟨⟩
      exact hfound
    · exact (htodo name).mpr hname
  | loaded hpc =>
    refine h.silent nofun (fun _ _ _ hloads => ?_) (fun _ _ => rfl) (fun _ _ => rfl)
    rw [hpc] at hloads
    exact absurd hloads List.not_mem_nil
  | store hpc hlevel => exact h.store hpc hlevel
  | @override name level hname =>
    -- the logger is recorded as overridden, and the others are as before
    refine ⟨h.storing, h.program_setLevel fun _ _ => rfl, fun n l l' hn henv => ?_⟩
    rw [overridden_append]
    by_cases hne : name = n
    · exact .inr (.inr (by simp [overriddenAfter, hne]))
    · rw [Logging.loggers_setLevel_of_ne hne] at hn
      have hafter : overriddenAfter n (overridden n events) (.overrode name level) =
          overridden n events := by simp [overriddenAfter, hne]
      rw [hafter]
      exact h.environment n l l' hn henv

end Steps

section Runs

variable {env : Environment} {events : List LoggingEvent} {s : Logging}

/-- The rule for levels holds in every reachable state. -/
theorem governed_of_run (h : Transition.Run (LoggingStep env) (.start env) events s) :
    Governed env events s := by
  refine h.invariant (Governed env) ?_ fun _ _ _ _ hinv hstep => hinv.step hstep
  have hlevel : ∀ name level, (Logging.start env).loggers name = some level →
      level = (envLevel env name).getD .trace := by
    intro name level hname
    have hname : initLogger env name = some level := hname
    rw [initLogger_eq] at hname
    by_cases hmain : name = mainLogger
    · rw [hmain, Function.update_self] at hname
      rw [hmain, Option.some.inj hname]
    · rw [Function.update_of_ne hmain] at hname
      cases hname
  refine ⟨nofun, fun name level hname henv => ?_, fun name level l hname henv => .inl ?_⟩
  · rw [hlevel name level hname, henv]
    rfl
  · rw [hlevel name level hname, henv]
    rfl

/-- **The environment wins.** Let threads construct loggers, set levels and load them in any
interleaving. A logger that the environment says something about, by its name or for all, has that
level, unless some thread is still to load it or somebody called `set_level` on it since it was
loaded last. All other loggers have the level the program gave them last. -/
theorem environment_wins (h : Transition.Run (LoggingStep env) (.start env) events s)
    {name : Bytes} {level : LogLevel} (hname : s.loggers name = some level) :
    (∀ l, envLevel env name = some l → ¬ s.Pending name → overridden name events = false →
      level = l) ∧
    (envLevel env name = none → level = lastLevel name events) := by
  have hgoverned := governed_of_run h
  refine ⟨fun l henv hdone hkept => ?_, hgoverned.program name level hname⟩
  refine (hgoverned.environment name level l hname henv).resolve_right ?_
  rw [not_or, hkept]
  exact ⟨hdone, Bool.false_ne_true⟩

end Runs

/-- An environment that gives one logger a level. -/
def errEnvironment : Environment := fun name =>
  if name = cstr "SPDLOG_LEVEL" then some (cstr "main_logger=err") else none

/-- Somebody sets a level, and the levels are loaded again. -/
theorem environment_wins_again :
    ∃ events, ∃ s : Logging,
      Transition.Run (LoggingStep errEnvironment) (.start errEnvironment) events s ∧
      lastLevel mainLogger events = .debug ∧ s.loggers mainLogger = some .err := by
  have henv : envLevel errEnvironment mainLogger = some .err := by decide +kernel
  obtain ⟨found, hfound⟩ : ∃ found, loadEnvLevels errEnvironment = some found :=
    Option.isSome_iff_exists.mp (by decide +kernel)
  have hempty : Transition.Run (LoggingStep errEnvironment) (.start errEnvironment) [] _ := .start
  have hset := hempty.step
    (.override .debug (((registered_of_run hempty).loggers _).mpr (List.mem_singleton_self _)))
  have hfree : ((Logging.start errEnvironment).setLevel mainLogger .debug).Free := by
    rintro _ _ _ ⟨⟩
  have hreload := hset.step (.reload (i := 0) rfl)
  have hload := hreload.step (.load (i := 0) rfl (hfree.go 0 .loading nofun) hfound
    (List.nodup_singleton mainLogger) fun name => ((registered_of_run hreload).loggers name).symm)
  have hdebug := Logging.loggers_setLevel_self (.start errEnvironment) mainLogger .debug
  have hstored := hload.step (.store (i := 0) rfl hdebug)
  have hloaded := hstored.step (.loaded (i := 0) rfl)
  have hlevel := Logging.loggers_setLevel_self
    ((((Logging.start errEnvironment).setLevel mainLogger .debug).set 0 .loading).set 0
      (.storing found [mainLogger])) mainLogger (found.apply mainLogger .debug)
  obtain ⟨s, hrun, hsome, houtside⟩ : ∃ s : Logging,
      Transition.Run (LoggingStep errEnvironment) (.start errEnvironment) _ s ∧
      s.loggers mainLogger = some (found.apply mainLogger .debug) ∧ ∀ j, s.pcs j = .outside := by
    refine ⟨_, hloaded, hlevel, fun j => ?_⟩
    by_cases hj : j = 0 <;> simp [Logging.set, Logging.setLevel, Logging.start, hj]
  refine ⟨_, s, hrun, rfl, hsome.trans (congrArg some ?_)⟩
  refine (environment_wins hrun hsome).1 .err henv ?_ (by decide +kernel)
  rintro ⟨j, hj⟩
  rw [houtside] at hj
  exact hj

end ObsBench
