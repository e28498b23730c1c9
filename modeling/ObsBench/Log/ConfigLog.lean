import ObsBench.Log.Registry

/-!
# What loading the configuration prints

`init_config` prints each variable with its value, at level `info`, in every build. `main_logger`
passes what it prints on to the console and to the log file, if the message is up to its level and
to the level of the sink.

* **`initAllConfigPrinted_eq`**: the lines of `init_all_config`.
* **`secret_printed_iff`**: when the secret access key is among them.
-/

namespace ObsBench

/-! ## Printing -/

/-- The sinks of `main_logger`, which its clones share. -/
inductive LogSink where
  | console
  | file

def LogSink.level : LogSink → LogLevel
  | .console => .info
  | .file => .trace

/-- `logger::should_log` and `sink::should_log`. -/
def LogLevel.shouldLog (level msgLevel : LogLevel) : Bool := level.value ≤ msgLevel.value

/-- `logger::log`: whether a sink is given a message. -/
def LogSink.log (sink : LogSink) (level msgLevel : LogLevel) : Bool :=
  level.shouldLog msgLevel && sink.level.shouldLog msgLevel

/-- `init_config` on a string, with the line it prints. -/
def initConfigPrinted (env : Environment) (config : ReadableView) (configName : CString) :
    Option (ReadableView × Bytes) := do
  let name ← envName configName
  let config ← initConfig env config configName
  return (config, name.bytes ++ text " = " ++ config.chars)

/-- `init_all_config`, with the lines it prints. -/
def initAllConfigPrinted (env : Environment) (config : GlobalConfig) :
    Option (GlobalConfig × List Bytes) := do
  let (endpoint, line₁) ← initConfigPrinted env config.endpoint (cstr "CONFIG::ENDPOINT")
  let (bucketLocation, line₂) ←
    initConfigPrinted env config.bucketLocation (cstr "CONFIG::BUCKET_LOCATION")
  let (bucketName, line₃) ← initConfigPrinted env config.bucketName (cstr "CONFIG::BUCKET_NAME")
  let (accessKeyId, line₄) ←
    initConfigPrinted env config.accessKeyId (cstr "CONFIG::ACCESS_KEY_ID")
  let (secretAccessKey, line₅) ←
    initConfigPrinted env config.secretAccessKey (cstr "CONFIG::SECRET_ACCESS_KEY")
  return ({ endpoint, bucketLocation, bucketName, accessKeyId, secretAccessKey },
    [line₁, line₂, line₃, line₄, line₅])

/-- The line of a variable. -/
def configLine (name : String) (config : ReadableView) : Bytes :=
  (cstr name).bytes ++ text " = " ++ config.chars

/-- The lines of `init_all_config`, from the globals as it leaves them. -/
def GlobalConfig.lines (config : GlobalConfig) : List Bytes :=
  [configLine "CONFIG_ENDPOINT" config.endpoint,
    configLine "CONFIG_BUCKET_LOCATION" config.bucketLocation,
    configLine "CONFIG_BUCKET_NAME" config.bucketName,
    configLine "CONFIG_ACCESS_KEY_ID" config.accessKeyId,
    configLine "CONFIG_SECRET_ACCESS_KEY" config.secretAccessKey]

theorem initConfigPrinted_eq {configName : CString} {name : String}
    (h : envName configName = some (cstr name)) (env : Environment) (config : ReadableView) :
    initConfigPrinted env config configName =
      some (loadedView env (cstr name) config,
        configLine name (loadedView env (cstr name) config)) := by
  unfold initConfigPrinted
  rw [h, initConfig_eq h]
  rfl

/-- **The lines of `init_all_config`** show what it has loaded. -/
theorem initAllConfigPrinted_eq (env : Environment) (config : GlobalConfig) :
    initAllConfigPrinted env config = some (config.loaded env, (config.loaded env).lines) := by
  obtain ⟨hendpoint, hlocation, hbucket, haccess, hsecret⟩ := envName_config
  unfold initAllConfigPrinted
  rw [initConfigPrinted_eq hendpoint, initConfigPrinted_eq hlocation,
    initConfigPrinted_eq hbucket, initConfigPrinted_eq haccess, initConfigPrinted_eq hsecret]
  rfl

/-- What a run gives a sink to print, of the lines of `init_all_config`. -/
def configLog (env : Environment) (sink : LogSink) : List ProcessEvent → List Bytes
  | [] => []
  | .statement .initAllConfig :: rest =>
    let lines := (initAllConfigPrinted env .compiledIn).elim [] Prod.snd
    let level := (initLogger env mainLogger).getD .trace
    (if sink.log level .info then lines else []) ++ configLog env sink rest
  | _ :: rest => configLog env sink rest

/-! ## The secret access key -/

section Secrets

variable {env : Environment} {events : List ProcessEvent} {p : Process}

/-- Both sinks take what `main_logger` passes on at level `info`. -/
theorem log_info_iff (sink : LogSink) (level : LogLevel) :
    sink.log level .info = true ↔ level ∈ [.trace, .debug, .info] := by
  cases sink <;> cases level <;> decide

/-- What the configuration log holds: the loaded values, if they were loaded and pass the levels. -/
theorem mem_configLog {sink : LogSink} {line : Bytes} :
    line ∈ configLog env sink events ↔ .statement .initAllConfig ∈ events ∧
      sink.log ((envLevel env mainLogger).getD .trace) .info ∧
        line ∈ (GlobalConfig.compiledIn.loaded env).lines := by
  induction events with
  | nil => simp [configLog]
  | cons e rest ih =>
    by_cases he : e = .statement .initAllConfig
    · subst he
      have hlevel : (initLogger env mainLogger).getD .trace =
          (envLevel env mainLogger).getD .trace := by
        rw [initLogger_eq, Function.update_self, Option.getD_some]
      rw [configLog, initAllConfigPrinted_eq, hlevel, List.mem_append, ih, Option.elim_some]
      simp only [List.mem_cons_self, true_and]
      split
      · rename_i hlog
        exact ⟨fun hmem => ⟨hlog, hmem.elim id (·.2.2)⟩, fun hmem => .inl hmem.2⟩
      · rename_i hlog
        simp [hlog]
    · have hskip : configLog env sink (e :: rest) = configLog env sink rest := by
        cases e with
        | statement s =>
          cases s with
          | initAllConfig => exact absurd rfl he
          | _ => rfl
        | _ => rfl
      rw [hskip, ih, List.mem_cons, or_iff_right (Ne.symm he)]

theorem chars_ofString {s : Bytes} (h : s.length < 2 ^ 64) : (StringView.ofString s).chars = s :=
  StdString.chars_view ⟨s, h⟩

/-- What is loaded for the secret access key is what requests are signed with. -/
theorem chars_secretAccessKey
    (hlength : ∀ value ∈ env (cstr "CONFIG_SECRET_ACCESS_KEY"), value.length < 2 ^ 64) :
    (GlobalConfig.compiledIn.loaded env).secretAccessKey.chars =
      (overlay env).secretAccessKey.bytes := by
  show (loadedView env _ _).chars = ((env _).getD []).bytes
  unfold loadedView
  cases hvalue : env (cstr "CONFIG_SECRET_ACCESS_KEY") with
  | none => rfl
  | some value =>
    refine chars_ofString ?_
    rw [CString.bytes, List.length_map]
    exact hlength value hvalue

/-- `hw_obs_bench` does not load its configuration. -/
theorem hwObsTest_of_loads {exe : Executable} (hrun : exe.Run env events p)
    (hload : .statement .initAllConfig ∈ events) : exe = .hwObsTest := by
  cases exe with
  | hwObsTest => rfl
  | hwObsBench =>
    have hinv : UnloadedInv p ∧ .statement .initAllConfig ∉ events := by
      refine hrun.invariant (fun events p => UnloadedInv p ∧ .statement .initAllConfig ∉ events)
        ⟨⟨rfl, by simp [Process.start], by decide⟩, List.not_mem_nil⟩ ?_
      rintro events q e q' ⟨hunloaded, hnever⟩ hstep
      refine ⟨unloadedInv_step hunloaded hstep, fun hmem => ?_⟩
      have hlast := (List.mem_append.mp hmem).resolve_left hnever
      rw [← List.mem_singleton.mp hlast] at hstep
      cases hstep with
      | initAllConfig htodo _ =>
        rw [UnloadedInv, htodo] at hunloaded
        exact hunloaded.2.2 (List.mem_cons_self ..)
    exact absurd hload hinv.2

/-- **When the secret access key is printed.** A run gives both sinks a line with the secret access
key as soon as `hw_obs_test` has loaded its configuration, unless the environment sets the level of
`main_logger` above `info`. `hw_obs_bench` never prints one. -/
theorem secret_printed_iff {exe : Executable}
    (hlength : ∀ value ∈ env (cstr "CONFIG_SECRET_ACCESS_KEY"), value.length < 2 ^ 64)
    (hrun : exe.Run env events p) (sink : LogSink) :
    (cstr "CONFIG_SECRET_ACCESS_KEY").bytes ++ text " = " ++ (overlay env).secretAccessKey.bytes ∈
        configLog env sink events ↔
      exe = .hwObsTest ∧ .statement .initAllConfig ∈ events ∧
        ∀ level, envLevel env mainLogger = some level → level ∈ [.trace, .debug, .info] := by
  have hline : (cstr "CONFIG_SECRET_ACCESS_KEY").bytes ++ text " = " ++
      (overlay env).secretAccessKey.bytes ∈ (GlobalConfig.compiledIn.loaded env).lines := by
    rw [← chars_secretAccessKey hlength, GlobalConfig.lines]
    simp [configLine]
  rw [mem_configLog, log_info_iff]
  constructor
  · rintro ⟨hload, hlevel, -⟩
    refine ⟨hwObsTest_of_loads hrun hload, hload, fun level henv => ?_⟩
    rwa [henv] at hlevel
  · rintro ⟨-, hload, hlevel⟩
    refine ⟨hload, ?_, hline⟩
    cases henv : envLevel env mainLogger with
    | none => exact List.mem_cons_self ..
    | some level => exact hlevel level henv

end Secrets

/-- The first statements of `hw_obs_test`, without `SPDLOG_LEVEL`. -/
theorem secret_printed_iff_loaded :
    ∃ events p, Executable.hwObsTest.Run keyEnvironment events p ∧
      (cstr "CONFIG_SECRET_ACCESS_KEY").bytes ++ text " = " ++ (cstr "SK").bytes ∈
        configLog keyEnvironment .file events := by
  have hrun : Executable.hwObsTest.Run keyEnvironment _ _ :=
    (Transition.Run.start.step (.initLogger rfl)).step
      (.initAllConfig rfl (initAllConfig_eq keyEnvironment .compiledIn))
  have hsecret : (overlay keyEnvironment).secretAccessKey = cstr "SK" := by decide +kernel
  have hlength : ∀ value ∈ keyEnvironment (cstr "CONFIG_SECRET_ACCESS_KEY"),
      value.length < 2 ^ 64 := by decide +kernel
  have hunset : envLevel keyEnvironment mainLogger = none := by decide +kernel
  refine ⟨_, _, hrun, ?_⟩
  rw [← hsecret, secret_printed_iff hlength hrun]
  refine ⟨rfl, by simp, fun level hlevel => ?_⟩
  rw [hunset] at hlevel
  cases hlevel

end ObsBench
