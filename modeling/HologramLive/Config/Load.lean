import HologramLive.Config.Retired
import HologramLive.Config.Settings
import HologramLive.Json
import HologramLive.Lib.Utf8
import HologramLive.Store.AtomicWrite
import HologramLive.Store.Names

/-! Loading the configuration, and bringing an older file up to date. -/

namespace HologramLive.Config
open Lib Lib.Files Lib.Toml Store
open Lib.Toml.Value (find asTable asInteger)

/-- What a load finds around it: the environment, what the code takes from the crates it
uses, and the texts of their errors. -/
structure Host where
  env : String → Option String
  fromStr : String → Except String Entries
  toStringPretty : Entries → Except String String
  rejects : Entries → String
  /-- What `server.listen` parses to: whether the address is a loopback one. -/
  socketAddr : String → Except String Bool
  countError : String → String
  debug : String → String

namespace Host

def homeDir (host : Host) : String := ((host.env "HOME").or (host.env "USERPROFILE")).getD "."

def expandHome (host : Host) (path : String) : String :=
  if path = "~" then host.homeDir
  else if "~/".toList <+: path.toList ∨ "~\\".toList <+: path.toList then
    joinPath host.homeDir (String.ofList (path.toList.drop 2))
  else path

end Host

variable (host : Host)

/-- A version that can be read off the raw table. -/
def versionOf (table : Entries) : Option Nat :=
  ((table.lookup "schema_version").bind asInteger).bind fun version =>
    if 0 ≤ version ∧ version < 2 ^ 32 then some version.toNat else none

/-- The prune has to happen on the raw table, as unknown keys are rejected. -/
def fromSource (retired : List RetiredKey) (upgrade : Bool) (source : String) :
    Except LiveError AppConfig :=
  match host.fromStr source with
  | .error error => .error (.config error)
  | .ok table =>
    let table := match upgrade, versionOf table with
      | true, some version => (pruneRetiredKeys table version retired).1
      | _, _ => table
    match decode host.homeDir table with
    | some config => .ok config
    | none => .error (.config (host.rejects table))

/-- Brings a parsed configuration up to the current version, reporting whether anything
changed. -/
def migrate (config : AppConfig) : Except LiveError (AppConfig × Bool) :=
  let version : UInt32 := config .schemaVersion
  if version = currentSchemaVersion then .ok (config, false)
  else if version > currentSchemaVersion then
    .error (.config s!"configuration schema {version} is newer than this build supports ({currentSchemaVersion}); upgrade hologram to read it")
  else if version < minimumSupportedSchemaVersion then
    .error (.config s!"configuration schema {version} predates the oldest readable schema ({minimumSupportedSchemaVersion}); regenerate it with `hologram init --force`")
  else .ok (config.set .schemaVersion currentSchemaVersion, true)

/-- Writes an upgraded configuration back. It does not matter to the load whether that
works. -/
def persistUpgrade (pid : Nat) (path : Path) (config : AppConfig) : FileProgram LiveError Unit :=
  match host.toStringPretty (encode config) with
  | .error _ => .done ()
  | .ok encoded => (atomicWrite pid path (Utf8.encode encoded)).attempt >>= fun _ => .done ()

def applyEnvironment (config : AppConfig) : Except LiveError AppConfig := do
  let config := match host.env "HOLOGRAM_LISTEN" with
    | some value => config.set .serverListen value
    | none => config
  let config ← match host.env "HOLOGRAM_MAX_RPC_BYTES" with
    | some value => match parseU64 value with
      | some count => .ok (config.set .serverMaxRpcBytes (UInt64.ofNat count))
      | none => .error (.config
        s!"HOLOGRAM_MAX_RPC_BYTES must be a positive byte count: {host.countError value}")
    | none => .ok config
  let config := match host.env "HOLOGRAM_REMOTE_ENDPOINT" with
    | some value => config.set .clientRemoteEndpoint (some value)
    | none => config
  let config := match (host.env "HOLOGRAM_LOG").or (host.env "RUST_LOG") with
    | some value => config.set .tracingFilter value
    | none => config
  let config := match host.env "OTEL_EXPORTER_OTLP_ENDPOINT" with
    | some value => config.set .telemetryEndpoint (some value)
    | none => config
  let config := match host.env "OTEL_SERVICE_NAME" with
    | some value => config.set .telemetryServiceName value
    | none => config
  let config := match host.env "HOLOGRAM_DATA_DIR" with
    | some value => config.set .pathsDataDir value
    | none => config
  let config := match host.env "HOLOGRAM_STATE_DIR" with
    | some value => config.set .pathsStateDir value
    | none => config
  let config := match host.env "HOLOGRAM_CACHE_DIR" with
    | some value => config.set .pathsCacheDir value
    | none => config
  .ok config

def expandPaths (config : AppConfig) : AppConfig :=
  let config := config.set .pathsConfigDir (host.expandHome (config .pathsConfigDir))
  let config := config.set .pathsDataDir (host.expandHome (config .pathsDataDir))
  let config := config.set .pathsStateDir (host.expandHome (config .pathsStateDir))
  let config := config.set .pathsCacheDir (host.expandHome (config .pathsCacheDir))
  let modules : List PluginModuleConfig := config .pluginsModules
  let config := config.set .pluginsModules
    (modules.map fun entry => { entry with path := host.expandHome entry.path })
  let grant : Option String := config .holoDevelopmentGrant
  match grant with
  | none => config
  | some path =>
    -- Joined to a directory, an absolute path stays what it is.
    config.set .holoDevelopmentGrant
      (some (joinPath (config .pathsConfigDir) (host.expandHome path)))

def ensure (condition : Prop) [Decidable condition] (message : String) : Except LiveError Unit :=
  if condition then .ok () else .error (.config message)

def validateEndpoint (endpoint : String) («local» : Bool) : Except LiveError Unit :=
  let kind := if «local» then "local" else "remote"
  ensure (["https://", "http://127.0.0.1", "http://localhost", "http://[::1]"].any fun start =>
      start.toList.isPrefixOf endpoint.toList)
    s!"{kind} endpoint must use HTTPS unless it is loopback: {endpoint}"

def validateHoloResident (residents : List HoloResidentConfig) : Except LiveError Unit := do
  let _ ← residents.foldlM (fun (seen : List String) entry => do
    let kappa := trim entry.kappa
    ensure ("blake3:".toList <+: kappa.toList)
      s!"holo.resident kappa {host.debug kappa} must start with \"blake3:\""
    ensure (ValidDigest (String.ofList (kappa.toList.drop 7)))
      s!"holo.resident kappa {host.debug kappa} must be \"blake3:\" followed by 64 hex characters"
    ensure (kappa ∉ seen) s!"duplicate holo.resident kappa {kappa}"
    .ok (kappa :: seen)) []
  .ok ()

def validatePlugins (modules : List PluginModuleConfig) : Except LiveError Unit := do
  let _ ← modules.foldlM (fun (seen : List String) entry => do
    ensure (trim entry.id ≠ "") "plugins.modules entries must declare a non-empty id"
    ensure (entry.id ∉ defaultBuiltinIds)
      s!"plugin id {entry.id} collides with a builtin module id"
    ensure (entry.id ∉ seen) s!"duplicate plugin id {entry.id}"
    ensure (entry.path ≠ "") s!"plugin {entry.id} must declare a non-empty path"
    ensure (ValidDigest entry.sha256) s!"plugin {entry.id} sha256 must be 64 hex characters"
    .ok (entry.id :: seen)) []
  .ok ()

def validateRegistry (provider endpoint «namespace» : String) : Except LiveError Unit :=
  if provider = "local" then .ok ()
  else if provider = "kappa" then do
    ensure (trim endpoint ≠ "")
      "registry.endpoint is required when registry.provider is \"kappa\""
    ensure (trim «namespace» ≠ "")
      "registry.namespace is required when registry.provider is \"kappa\""
  else .error (.config
    s!"unsupported registry.provider {host.debug provider}; expected local or kappa")

def validate (config : AppConfig) : Except LiveError Unit := do
  let version : UInt32 := config .schemaVersion
  ensure (version = currentSchemaVersion) s!"unsupported configuration schema {version}"
  let listen : String := config .serverListen
  let loopback ← (host.socketAddr listen).mapError fun error =>
    .config s!"invalid server.listen: {error}"
  let required : Bool := config .authRequired
  ensure (loopback || required) "non-loopback server.listen requires auth.required = true"
  let grant : Option String := config .holoDevelopmentGrant
  ensure (grant = none ∨ loopback)
    "holo.development_grant is development-only and requires a loopback server.listen"
  let rpc : UInt64 := config .serverMaxRpcBytes
  let body : UInt64 := config .serverMaxHttpBodyBytes
  ensure (rpc ≠ 0 ∧ body ≠ 0) "message and body limits must be greater than zero"
  let mailbox : UInt64 := config .serverActorMailboxCapacity
  ensure (mailbox ≠ 0) "server.actor_mailbox_capacity must be greater than zero"
  let tokenEnv : String := config .authTokenEnv
  ensure (required = false ∨ (host.env tokenEnv).isSome)
    s!"auth.required is true but {tokenEnv} is not set"
  validateEndpoint (config .clientLocalEndpoint) true
  let remote : Option String := config .clientRemoteEndpoint
  remote.forM fun remote => validateEndpoint remote false
  let format : String := config .tracingFormat
  ensure (format ∈ ["pretty", "compact", "json"])
    s!"unsupported tracing.format {host.debug format}"
  let telemetry : Option String := config .telemetryEndpoint
  telemetry.forM fun endpoint => validateEndpoint endpoint false
  let engine : String := config .inferenceEngine
  ensure (engine ∈ ["echo", "weightc", "ollama"])
    s!"unsupported inference.engine {host.debug engine}; expected echo, weightc, or ollama"
  ensure (trim (config .inferenceWeightcPath) ≠ "") "inference.weightc_path must not be empty"
  validateEndpoint (config .inferenceOllamaEndpoint) false
  let timeout : UInt64 := config .inferenceRequestTimeoutSecs
  ensure (timeout ≠ 0) "inference.request_timeout_secs must be greater than zero"
  let sessions : UInt64 := config .inferenceMaxResidentSessions
  ensure (sessions ≠ 0) "inference.max_resident_sessions must be greater than zero"
  ensure (trim (config .telemetryServiceName) ≠ "") "telemetry.service_name must not be empty"
  let exportTimeout : UInt64 := config .telemetryExportTimeoutSecs
  ensure (exportTimeout ≠ 0) "telemetry.export_timeout_secs must be greater than zero"
  validateHoloResident host (config .holoResident)
  validatePlugins (config .pluginsModules)
  validateRegistry host (config .registryProvider) (config .registryEndpoint)
    (config .registryNamespace)

/-- What a load makes of a parsed configuration that is up to date. -/
def settle (config : AppConfig) : Except LiveError AppConfig := do
  let config ← applyEnvironment host config
  let config := expandPaths host config
  validate host config
  .ok config

/-- `std::fs::read_to_string`. -/
def readToString (path : Path) : FileProgram LiveError String := do
  let bytes ← attempt (.read path) (ioError path.display)
  match Utf8.decode bytes with
  | some source => .done source
  | none => .fail (.io s!"{path.display}: stream did not contain valid UTF-8")

/-- Persist before environment overrides and path expansion are applied, so only what the
user actually wrote goes back to disk. -/
def upgraded (pid : Nat) (path : Path) (found : Bool) (config : AppConfig) :
    FileProgram LiveError AppConfig :=
  .ofExcept (migrate config) >>= fun (config, changed) =>
    (if changed && found then persistUpgrade host pid path config else .done ()) >>= fun _ =>
      .done config

def loadInner (retired : List RetiredKey) (pid : Nat) (path : Path) (upgrade : Bool) :
    FileProgram LiveError AppConfig :=
  pathExists path >>= fun found =>
    (if found then
      readToString path >>= fun source => .ofExcept (fromSource host retired upgrade source)
    else .done (AppConfig.default host.homeDir)) >>= fun config =>
      (if upgrade then upgraded host pid path found config else .done config) >>= fun config =>
        .ofExcept (settle host config)

/-- The keys this build no longer accepts. -/
def retiredKeys : List RetiredKey := []

def load (pid : Nat) (path : Path) : FileProgram LiveError AppConfig :=
  loadInner host retiredKeys pid path true

end HologramLive.Config
