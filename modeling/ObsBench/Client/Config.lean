import ObsBench.Lib.Transition
import ObsBench.Sdk

/-!
# Configuration

The configuration lives in globals. `init_all_config` overlays the environment on them, and the
client copies four of their pointers into `base_option` when its singleton is built, on the first
`get_instance`. All requests use `base_option`, so what counts is what the globals hold then.
`hw_obs_test` loads the environment at its start; `hw_obs_bench` never does.

* **`initAllConfig_eq`**: loading replaces the values whose variables are set.
* **`request_of_loadsFirst`**, **`request_of_neverLoads`**: what the requests of a program use
  that loads before it uses the client, and of one that never loads.
* **`configuration_reaches_requests_iff`**: when the environment reaches the requests.
-/

namespace ObsBench

/-- The environment of the process, as `getenv` shows it. -/
abbrev Environment := CString → Option CString

/-- The globals of `CONFIG`. Their views are made from literals and from values of the environment,
so there is a NUL behind all of them. -/
structure GlobalConfig where
  endpoint : ReadableView
  bucketLocation : ReadableView
  bucketName : ReadableView
  accessKeyId : ReadableView
  secretAccessKey : ReadableView

/-- The values the globals are compiled with. -/
def GlobalConfig.compiledIn : GlobalConfig where
  endpoint := .ofCString (cstr "obs.cn-east-3.myhuaweicloud.com")
  bucketLocation := .ofCString (cstr "cn-east-3")
  bucketName := .ofCString (cstr "hw-obs-bench")
  accessKeyId := .ofCString (cstr "")
  secretAccessKey := .ofCString (cstr "")

/-! ## Loading -/

/-- `std::string_view::find`. -/
def findString (what : CString) : CString → Option ℕ
  | [] => if what = [] then some 0 else none
  | c :: rest => if what <+: c :: rest then some 0 else (findString what rest).map (· + 1)

/-- The variable `init_config` looks for; `none` is the exception `substr` throws. -/
def envName (configName : CString) : Option CString :=
  let pos :=
    match findString (cstr "::") configName with
    | some i => i + 2
    | none => 1  -- `npos + 2` wraps around
  if pos ≤ configName.length then some (cstr "CONFIG_" ++ configName.drop pos) else none

/-- `CONFIG::init_config` on a string. -/
def initConfig (env : Environment) (config : ReadableView) (configName : CString) :
    Option ReadableView := do
  let name ← envName configName
  match env name with
  | some value => return .ofCString value
  | none => return config

/-- `init_all_config`. -/
def initAllConfig (env : Environment) (config : GlobalConfig) : Option GlobalConfig := do
  let endpoint ← initConfig env config.endpoint (cstr "CONFIG::ENDPOINT")
  let bucketLocation ← initConfig env config.bucketLocation (cstr "CONFIG::BUCKET_LOCATION")
  let bucketName ← initConfig env config.bucketName (cstr "CONFIG::BUCKET_NAME")
  let accessKeyId ← initConfig env config.accessKeyId (cstr "CONFIG::ACCESS_KEY_ID")
  let secretAccessKey ← initConfig env config.secretAccessKey (cstr "CONFIG::SECRET_ACCESS_KEY")
  return { endpoint, bucketLocation, bucketName, accessKeyId, secretAccessKey }

/-- `base_option.bucket_options`, as far as the client sets it: the C strings at the pointers. -/
structure BucketOptions where
  hostName : CString
  bucketName : CString
  accessKey : CString
  secretAccessKey : CString
deriving DecidableEq

/-- `HuaweiCloudObs::init`: the pointers are taken without the lengths of the views. -/
def HuaweiCloudObs.init (config : GlobalConfig) : BucketOptions where
  hostName := config.endpoint.cString
  bucketName := config.bucketName.cString
  accessKey := config.accessKeyId.cString
  secretAccessKey := config.secretAccessKey.cString

/-- The variables the client depends on, each with the value it has by default. -/
def clientVariables : List (CString × CString) :=
  [(cstr "CONFIG_ENDPOINT", cstr "obs.cn-east-3.myhuaweicloud.com"),
    (cstr "CONFIG_BUCKET_NAME", cstr "hw-obs-bench"),
    (cstr "CONFIG_ACCESS_KEY_ID", []), (cstr "CONFIG_SECRET_ACCESS_KEY", [])]

/-- What requests should use: the environment laid over the defaults. -/
def overlay (env : Environment) : BucketOptions where
  hostName := (env (cstr "CONFIG_ENDPOINT")).getD (cstr "obs.cn-east-3.myhuaweicloud.com")
  bucketName := (env (cstr "CONFIG_BUCKET_NAME")).getD (cstr "hw-obs-bench")
  accessKey := (env (cstr "CONFIG_ACCESS_KEY_ID")).getD []
  secretAccessKey := (env (cstr "CONFIG_SECRET_ACCESS_KEY")).getD []

/-- The environment says nothing else about the client than the defaults do. -/
def Environment.Agrees (env : Environment) : Prop :=
  ∀ v ∈ clientVariables, ∀ value ∈ env v.1, value = v.2

/-- A global after loading. -/
def loadedView (env : Environment) (name : CString) (config : ReadableView) : ReadableView :=
  (env name).elim config .ofCString

def GlobalConfig.loaded (env : Environment) (config : GlobalConfig) : GlobalConfig where
  endpoint := loadedView env (cstr "CONFIG_ENDPOINT") config.endpoint
  bucketLocation := loadedView env (cstr "CONFIG_BUCKET_LOCATION") config.bucketLocation
  bucketName := loadedView env (cstr "CONFIG_BUCKET_NAME") config.bucketName
  accessKeyId := loadedView env (cstr "CONFIG_ACCESS_KEY_ID") config.accessKeyId
  secretAccessKey := loadedView env (cstr "CONFIG_SECRET_ACCESS_KEY") config.secretAccessKey

/-- `init_config` loads the view from the variable that is named for it. -/
theorem initConfig_eq {configName name : CString} (h : envName configName = some name)
    (env : Environment) (config : ReadableView) :
    initConfig env config configName = some (loadedView env name config) := by
  unfold initConfig loadedView
  rw [h]
  show (match env name with | some value => some _ | none => some config) = _
  cases env name <;> rfl

/-- The variables `init_all_config` looks for. -/
theorem envName_config :
    envName (cstr "CONFIG::ENDPOINT") = some (cstr "CONFIG_ENDPOINT") ∧
    envName (cstr "CONFIG::BUCKET_LOCATION") = some (cstr "CONFIG_BUCKET_LOCATION") ∧
    envName (cstr "CONFIG::BUCKET_NAME") = some (cstr "CONFIG_BUCKET_NAME") ∧
    envName (cstr "CONFIG::ACCESS_KEY_ID") = some (cstr "CONFIG_ACCESS_KEY_ID") ∧
    envName (cstr "CONFIG::SECRET_ACCESS_KEY") = some (cstr "CONFIG_SECRET_ACCESS_KEY") := by
  decide +kernel

/-- **Loading replaces the values whose variables are set**, and never throws. -/
theorem initAllConfig_eq (env : Environment) (config : GlobalConfig) :
    initAllConfig env config = some (config.loaded env) := by
  obtain ⟨hendpoint, hlocation, hbucket, haccess, hsecret⟩ := envName_config
  unfold initAllConfig
  rw [initConfig_eq hendpoint, initConfig_eq hlocation, initConfig_eq hbucket,
    initConfig_eq haccess, initConfig_eq hsecret]
  rfl

theorem loadedView_loadedView (env : Environment) (name : CString) (config : ReadableView) :
    loadedView env name (loadedView env name config) = loadedView env name config := by
  unfold loadedView
  cases env name <;> rfl

/-- Loading twice is loading once. -/
theorem loaded_loaded (env : Environment) (config : GlobalConfig) :
    (config.loaded env).loaded env = config.loaded env := by
  unfold GlobalConfig.loaded
  simp only [loadedView_loadedView]

/-- Nothing is lost behind the pointer of a value. -/
theorem cString_loadedView (env : Environment) (name value : CString) :
    (loadedView env name (.ofCString value)).cString = (env name).getD value := by
  unfold loadedView
  cases env name with
  | none => exact ReadableView.cString_ofCString value
  | some set => exact ReadableView.cString_ofCString set

/-- What the client captures after loading. -/
theorem init_loaded (env : Environment) :
    HuaweiCloudObs.init (GlobalConfig.compiledIn.loaded env) = overlay env := by
  unfold HuaweiCloudObs.init GlobalConfig.loaded GlobalConfig.compiledIn
  simp only [cString_loadedView]
  rfl

/-- What the client captures without loading. -/
theorem init_compiledIn : HuaweiCloudObs.init .compiledIn = overlay fun _ => none :=
  init_loaded fun _ => none

/-- The environment changes no option exactly when it agrees with the compiled-in values. -/
theorem overlay_eq_iff (env : Environment) :
    (overlay fun _ => none) = overlay env ↔ env.Agrees := by
  have hvalue : ∀ name value : CString,
      value = (env name).getD value ↔ ∀ set ∈ env name, set = value := by
    intro name value
    cases env name with
    | none => simp
    | some set => simp [eq_comm]
  unfold Environment.Agrees clientVariables overlay
  simp only [BucketOptions.mk.injEq, Option.getD_none, hvalue, List.forall_mem_cons,
    List.not_mem_nil, IsEmpty.forall_iff, implies_true, and_true]

/-! ## The two programs -/

/-- What the statements of the two `main`s do to the configuration and the client. -/
inductive Statement where
  | initLogger
  | initAllConfig
  -- `Initialize` and `ReportUnrecognizedArguments`, or `InitGoogleTest`, which may end the process
  | readArguments
  -- `delete_all`, the benchmarks or the tests: `get_instance`, and requests through it
  | useClient
deriving DecidableEq

inductive Executable where
  | hwObsBench
  | hwObsTest
deriving DecidableEq

def Executable.main : Executable → List Statement
  | .hwObsBench => [.initLogger, .readArguments, .useClient, .useClient]
  | .hwObsTest => [.initLogger, .initAllConfig, .readArguments, .useClient]

/-- A process: the statements of its `main` not yet left, the globals, and the `base_option` of
the singleton once it is built. -/
structure Process where
  todo : List Statement
  config : GlobalConfig
  client : Option BucketOptions

def Process.start (main : List Statement) : Process where
  todo := main
  config := .compiledIn
  client := none

/-- `HuaweiCloudObs::get_instance`; only the first call builds the singleton. -/
def Process.getInstance (p : Process) : Process :=
  { p with client := some (p.client.getD (HuaweiCloudObs.init p.config)) }

inductive ProcessEvent where
  | statement (s : Statement)
  | exit
  | getInstance
  | request (options : BucketOptions)
  | leave

/-- The steps of a process. While it uses the client, its threads call `get_instance` and make
requests in any order. -/
inductive ProcessStep (env : Environment) : Process → ProcessEvent → Process → Prop where
  | initLogger {p : Process} {rest : List Statement} (h : p.todo = .initLogger :: rest) :
      ProcessStep env p (.statement .initLogger) { p with todo := rest }
  | initAllConfig {p : Process} {rest : List Statement} {config : GlobalConfig}
      (h : p.todo = .initAllConfig :: rest) (hload : initAllConfig env p.config = some config) :
      ProcessStep env p (.statement .initAllConfig) { p with todo := rest, config }
  | readArguments {p : Process} {rest : List Statement} (h : p.todo = .readArguments :: rest) :
      ProcessStep env p (.statement .readArguments) { p with todo := rest }
  | exit {p : Process} {rest : List Statement} (h : p.todo = .readArguments :: rest) :
      ProcessStep env p .exit { p with todo := [] }
  | getInstance {p : Process} {rest : List Statement} (h : p.todo = .useClient :: rest) :
      ProcessStep env p .getInstance p.getInstance
  | request {p : Process} {rest : List Statement} {options : BucketOptions}
      (h : p.todo = .useClient :: rest) (hclient : p.client = some options) :
      ProcessStep env p (.request options) p
  | leave {p : Process} {rest : List Statement} (h : p.todo = .useClient :: rest) :
      ProcessStep env p .leave { p with todo := rest }

/-- The runs of an executable. -/
def Executable.Run (exe : Executable) (env : Environment) :
    List ProcessEvent → Process → Prop :=
  Transition.Run (ProcessStep env) (.start exe.main)

/-! ## Programs that load first, and programs that never load -/

/-- The program loads the configuration before it uses the client. -/
def LoadsFirst : List Statement → Prop
  | [] => True
  | .initAllConfig :: _ => True
  | .useClient :: _ => False
  | _ :: rest => LoadsFirst rest

/-- **Requests use what is captured.** If an invariant of the process knows the captured options,
all requests of a run use them. -/
theorem requests_of_invariant {env : Environment} {start : Process} {options : BucketOptions}
    (Inv : Process → Prop) (init : Inv start)
    (keep : ∀ p e p', Inv p → ProcessStep env p e p' → Inv p')
    (hclient : ∀ p, Inv p → ∀ o ∈ p.client, o = options)
    {events : List ProcessEvent} {p : Process}
    (hrun : Transition.Run (ProcessStep env) start events p) :
    ∀ o, .request o ∈ events → o = options := by
  have hall : Inv p ∧ ∀ o, .request o ∈ events → o = options := by
    refine hrun.invariant (fun events p => Inv p ∧ ∀ o, .request o ∈ events → o = options)
      ⟨init, by simp⟩ ?_
    intro events p e p' hinv hstep
    refine ⟨keep p e p' hinv.1 hstep, fun o ho => ?_⟩
    rcases List.mem_append.mp ho with hbefore | hlast
    · exact hinv.2 o hbefore
    · rw [← List.mem_singleton.mp hlast] at hstep
      cases hstep with
      | request _ hoptions => exact hclient p hinv.1 o hoptions
  exact hall.2

/-- Before the load the client stays unbuilt, and only the load ends that. -/
theorem beforeLoad_step {env : Environment} {p p' : Process} {e : ProcessEvent}
    (hnone : p.client = none) (hfirst : LoadsFirst p.todo) (hstep : ProcessStep env p e p') :
    (e = .statement .initAllConfig ∧ p'.config = p.config.loaded env ∧ p'.client = none) ∨
      (p'.config = p.config ∧ p'.client = none ∧ LoadsFirst p'.todo) := by
  cases hstep with
  | initAllConfig h hload =>
    rw [initAllConfig_eq] at hload
    exact .inl ⟨rfl, (Option.some.inj hload).symm, hnone⟩
  | initLogger h | readArguments h =>
    rw [h] at hfirst
    exact .inr ⟨rfl, hnone, hfirst⟩
  | exit h => exact .inr ⟨rfl, hnone, trivial⟩
  | getInstance h | request h _ | leave h =>
    -- the client is not used before the load
    rw [h] at hfirst
    exact hfirst.elim

/-- A process that has loaded captures what it has loaded; before that it has no client. -/
def LoadedInv (env : Environment) (p : Process) : Prop :=
  (p.config = GlobalConfig.compiledIn.loaded env ∧ ∀ o ∈ p.client, o = overlay env) ∨
    (p.config = .compiledIn ∧ p.client = none ∧ LoadsFirst p.todo)

/-- A step keeps what a process that loads has captured. -/
theorem loadedInv_step {env : Environment} {p p' : Process} {e : ProcessEvent}
    (hinv : LoadedInv env p) (hstep : ProcessStep env p e p') : LoadedInv env p' := by
  cases hinv with
  | inl hloaded =>
    left
    cases hstep with
    | initAllConfig h hload =>
      rw [initAllConfig_eq, hloaded.1, loaded_loaded] at hload
      exact ⟨(Option.some.inj hload).symm, hloaded.2⟩
    | getInstance h =>
      refine ⟨hloaded.1, fun o ho => ?_⟩
      rw [← Option.some.inj ho]
      -- the first call captures, every later one finds the singleton built
      cases hclient : p.client with
      | none =>
        rw [Option.getD_none, hloaded.1]
        exact init_loaded env
      | some captured => exact hloaded.2 captured hclient
    | initLogger h | readArguments h | exit h | request h _ | leave h => exact hloaded
  | inr hbefore =>
    obtain ⟨hconfig, hnone, hfirst⟩ := hbefore
    rcases beforeLoad_step hnone hfirst hstep with hload | hkeep
    · obtain ⟨-, hconfig', hnone'⟩ := hload
      rw [hconfig] at hconfig'
      exact .inl ⟨hconfig', by simp [hnone']⟩
    · obtain ⟨hconfig', hunbuilt⟩ := hkeep
      exact .inr ⟨hconfig'.trans hconfig, hunbuilt⟩

/-- **A program that loads first** makes its requests with the environment's values. -/
theorem request_of_loadsFirst {env : Environment} {main : List Statement} (h : LoadsFirst main)
    {events : List ProcessEvent} {p : Process}
    (hrun : Transition.Run (ProcessStep env) (.start main) events p) :
    ∀ o, .request o ∈ events → o = overlay env := by
  refine requests_of_invariant (LoadedInv env) (.inr ⟨rfl, rfl, h⟩)
    (fun p e p' => loadedInv_step) (fun p hinv o ho => ?_) hrun
  cases hinv with
  | inl hloaded => exact hloaded.2 o ho
  | inr hbefore =>
    rw [hbefore.2.1] at ho
    exact absurd ho (by simp)

/-- The singleton of such a program is built after the load. -/
theorem loaded_of_client {env : Environment} {main : List Statement} (h : LoadsFirst main)
    {events : List ProcessEvent} {p : Process}
    (hrun : Transition.Run (ProcessStep env) (.start main) events p) (hclient : p.client ≠ none) :
    .statement .initAllConfig ∈ events := by
  have hinv : .statement .initAllConfig ∈ events ∨ (p.client = none ∧ LoadsFirst p.todo) := by
    refine hrun.invariant (fun events p =>
      .statement .initAllConfig ∈ events ∨ (p.client = none ∧ LoadsFirst p.todo))
      (.inr ⟨rfl, h⟩) ?_
    intro events p e p' hinv hstep
    cases hinv with
    | inl hloaded => exact .inl (List.mem_append_left _ hloaded)
    | inr hbefore =>
      rcases beforeLoad_step hbefore.1 hbefore.2 hstep with hload | hkeep
      · rw [hload.1]
        exact .inl (List.mem_append_right _ (List.mem_singleton_self _))
      · exact .inr hkeep.2
  exact hinv.resolve_right fun hbefore => hclient hbefore.1

/-- A process that never loads captures the values it was compiled with. -/
def UnloadedInv (p : Process) : Prop :=
  p.config = .compiledIn ∧ (∀ o ∈ p.client, o = HuaweiCloudObs.init .compiledIn) ∧
    .initAllConfig ∉ p.todo

/-- A process that has no load before it makes none. -/
theorem unloadedInv_step {env : Environment} {p p' : Process} {e : ProcessEvent}
    (hinv : UnloadedInv p) (hstep : ProcessStep env p e p') : UnloadedInv p' := by
  obtain ⟨hconfig, hclient, hnever⟩ := hinv
  cases hstep with
  | initAllConfig h hload =>
    rw [h] at hnever
    exact absurd (List.mem_cons_self ..) hnever
  | getInstance h =>
    refine ⟨hconfig, fun o ho => ?_, hnever⟩
    rw [← Option.some.inj ho, hconfig]
    cases hbuilt : p.client with
    | none => rfl
    | some captured => exact hclient captured hbuilt
  | exit h => exact ⟨hconfig, hclient, List.not_mem_nil⟩
  | request h _ => exact ⟨hconfig, hclient, hnever⟩
  | initLogger h | readArguments h | leave h =>
    rw [h] at hnever
    exact ⟨hconfig, hclient, fun hmem => hnever (List.mem_cons_of_mem _ hmem)⟩

/-- **A program that never loads** makes its requests with the values it was compiled with. -/
theorem request_of_neverLoads {env : Environment} {main : List Statement}
    (h : .initAllConfig ∉ main) {events : List ProcessEvent} {p : Process}
    (hrun : Transition.Run (ProcessStep env) (.start main) events p) :
    ∀ o, .request o ∈ events → o = HuaweiCloudObs.init .compiledIn := by
  refine requests_of_invariant UnloadedInv ⟨rfl, ?_, h⟩ (fun p e p' => unloadedInv_step)
    (fun p hinv => hinv.2.1) hrun
  intro o ho
  exact absurd ho (Option.not_mem_none o)

/-- The first request of `hw_obs_bench`, the count of `delete_all`. -/
theorem bench_requests (env : Environment) :
    ∃ p, Executable.hwObsBench.Run env [.statement .initLogger, .statement .readArguments,
      .getInstance, .request (HuaweiCloudObs.init .compiledIn)] p ∧ p.client ≠ none := by
  refine ⟨_, (((Transition.Run.start.step (.initLogger rfl)).step (.readArguments rfl)).step
    (.getInstance rfl)).step (.request rfl rfl), ?_⟩
  exact Option.some_ne_none _

/-- **When the configuration reaches the requests.** All requests of all runs of an executable use
the environment laid over the defaults exactly when it is `hw_obs_test`, or the environment says
nothing else than the defaults. The client of an executable is never built before the configuration
is loaded exactly when it is `hw_obs_test`. -/
theorem configuration_reaches_requests_iff (exe : Executable) (env : Environment) :
    ((∀ events p, exe.Run env events p → ∀ o, .request o ∈ events → o = overlay env) ↔
      exe = .hwObsTest ∨ env.Agrees) ∧
    ((∀ events p, exe.Run env events p → p.client ≠ none →
      .statement .initAllConfig ∈ events) ↔ exe = .hwObsTest) := by
  obtain ⟨q, hrun, hclient⟩ := bench_requests env
  cases exe with
  | hwObsTest =>
    have hfirst : LoadsFirst Executable.hwObsTest.main := trivial
    refine ⟨⟨fun _ => .inl rfl, fun _ events p hp => request_of_loadsFirst hfirst hp⟩,
      ⟨fun _ => rfl, fun _ events p hp => loaded_of_client hfirst hp⟩⟩
  | hwObsBench =>
    have hnever : Statement.initAllConfig ∉ Executable.hwObsBench.main := by decide
    refine ⟨⟨fun h => .inr ?_, fun h events p hp o ho => ?_⟩, ⟨fun h => ?_, fun h => ?_⟩⟩
    · -- its first request shows what it uses
      rw [← overlay_eq_iff, ← init_compiledIn]
      exact h _ q hrun _ (by simp)
    · have hagrees := h.resolve_left (by simp)
      rw [request_of_neverLoads hnever hp o ho, init_compiledIn]
      exact (overlay_eq_iff env).mpr hagrees
    · exact absurd (h _ q hrun hclient) (by simp)
    · exact absurd h (by simp)

/-- The environment `run.sh` sets up, with an access key filled in. -/
def keyEnvironment : Environment := fun name =>
  if name = cstr "CONFIG_ACCESS_KEY_ID" then some (cstr "AK")
  else if name = cstr "CONFIG_SECRET_ACCESS_KEY" then some (cstr "SK")
  else none

/-- **A configuration that reaches no request.** With the access key in the environment,
`hw_obs_bench` still makes its first request without one. -/
theorem bench_ignores_configuration :
    ∃ events p options, Executable.hwObsBench.Run keyEnvironment events p ∧
      .request options ∈ events ∧ options.accessKey = [] ∧
      (overlay keyEnvironment).accessKey = cstr "AK" ∧ options ≠ overlay keyEnvironment := by
  obtain ⟨p, hrun, -⟩ := bench_requests keyEnvironment
  have hset : (overlay keyEnvironment).accessKey = cstr "AK" := by decide +kernel
  have hempty : (HuaweiCloudObs.init .compiledIn).accessKey = [] := by
    rw [init_compiledIn]
    rfl
  refine ⟨_, p, _, hrun, by simp, hempty, hset, ?_⟩
  intro h
  rw [h, hset] at hempty
  exact absurd hempty (by decide +kernel)

end ObsBench
