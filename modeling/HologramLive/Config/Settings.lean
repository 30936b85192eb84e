import HologramLive.Lib.Toml
import Mathlib.Algebra.Group.Int.Defs

/-! What there is to configure, with the documented defaults, and how a configuration file
declares it. -/

namespace HologramLive.Config
open Lib Lib.Toml
open Lib.Toml.Value (find)

inductive ServerRole where
  | node
  | controlPlane
  deriving DecidableEq

inductive TargetPreference where
  | «local»
  | remote
  deriving DecidableEq

/-- An archive the service loads into a resident session during startup. -/
structure HoloResidentConfig where
  kappa : String
  deriving DecidableEq

structure PluginModuleConfig where
  id : String
  path : String
  sha256 : String
  deriving DecidableEq

/-- The fields of the configuration, by the section they are in. -/
inductive Setting where
  | schemaVersion
  | role
  | pathsConfigDir | pathsDataDir | pathsStateDir | pathsCacheDir
  | serverListen | serverMaxRpcBytes | serverMaxHttpBodyBytes | serverGracefulShutdownSecs
  | serverActorMailboxCapacity
  | clientPreference | clientLocalEndpoint | clientRemoteEndpoint | clientAllowReadFallback
  | clientRequestTimeoutSecs
  | authRequired | authTokenEnv
  | tracingFilter | tracingFormat | tracingIncludeTarget | tracingIncludeThreadIds
  | telemetryEnabled | telemetryEndpoint | telemetryServiceName | telemetryExportTimeoutSecs
  | modulesEnabled
  | updateManifestUrl | updateChannel
  | inferenceEngine | inferenceDefaultModel | inferenceWeightcPath | inferenceOllamaEndpoint
  | inferenceRequestTimeoutSecs | inferenceResidentSessions | inferenceMaxResidentSessions
  | holoDevelopmentGrant | holoResident
  | pluginsEnabled | pluginsModules
  | registryProvider | registryEndpoint | registryNamespace | registryToken
  | registryRequestTimeoutSecs | registryMaxScanPages
  deriving DecidableEq

/-- What a field holds. -/
inductive Kind where
  | string
  | boolean
  | u32
  | u64
  | optional
  | strings
  | role
  | preference
  | residents
  | plugins

def Kind.Carrier : Kind → Type
  | .string => String
  | .boolean => Bool
  | .u32 => UInt32
  | .u64 => UInt64
  | .optional => Option String
  | .strings => List String
  | .role => ServerRole
  | .preference => TargetPreference
  | .residents => List HoloResidentConfig
  | .plugins => List PluginModuleConfig

namespace Setting

def all : List Setting :=
  [.schemaVersion, .role, .pathsConfigDir, .pathsDataDir, .pathsStateDir, .pathsCacheDir,
    .serverListen, .serverMaxRpcBytes, .serverMaxHttpBodyBytes, .serverGracefulShutdownSecs,
    .serverActorMailboxCapacity, .clientPreference, .clientLocalEndpoint, .clientRemoteEndpoint,
    .clientAllowReadFallback, .clientRequestTimeoutSecs, .authRequired, .authTokenEnv,
    .tracingFilter, .tracingFormat, .tracingIncludeTarget, .tracingIncludeThreadIds,
    .telemetryEnabled, .telemetryEndpoint, .telemetryServiceName, .telemetryExportTimeoutSecs,
    .modulesEnabled, .updateManifestUrl, .updateChannel, .inferenceEngine,
    .inferenceDefaultModel, .inferenceWeightcPath, .inferenceOllamaEndpoint,
    .inferenceRequestTimeoutSecs, .inferenceResidentSessions, .inferenceMaxResidentSessions,
    .holoDevelopmentGrant, .holoResident, .pluginsEnabled, .pluginsModules, .registryProvider,
    .registryEndpoint, .registryNamespace, .registryToken, .registryRequestTimeoutSecs,
    .registryMaxScanPages]

theorem mem_all (setting : Setting) : setting ∈ all := by
  cases setting <;> decide

/-- The table a field is in, unless it is in none. -/
def «section» : Setting → Option String
  | .schemaVersion | .role => none
  | .pathsConfigDir | .pathsDataDir | .pathsStateDir | .pathsCacheDir => some "paths"
  | .serverListen | .serverMaxRpcBytes | .serverMaxHttpBodyBytes | .serverGracefulShutdownSecs
  | .serverActorMailboxCapacity => some "server"
  | .clientPreference | .clientLocalEndpoint | .clientRemoteEndpoint | .clientAllowReadFallback
  | .clientRequestTimeoutSecs => some "client"
  | .authRequired | .authTokenEnv => some "auth"
  | .tracingFilter | .tracingFormat | .tracingIncludeTarget | .tracingIncludeThreadIds =>
    some "tracing"
  | .telemetryEnabled | .telemetryEndpoint | .telemetryServiceName
  | .telemetryExportTimeoutSecs => some "telemetry"
  | .modulesEnabled => some "modules"
  | .updateManifestUrl | .updateChannel => some "update"
  | .inferenceEngine | .inferenceDefaultModel | .inferenceWeightcPath | .inferenceOllamaEndpoint
  | .inferenceRequestTimeoutSecs | .inferenceResidentSessions
  | .inferenceMaxResidentSessions => some "inference"
  | .holoDevelopmentGrant | .holoResident => some "holo"
  | .pluginsEnabled | .pluginsModules => some "plugins"
  | .registryProvider | .registryEndpoint | .registryNamespace | .registryToken
  | .registryRequestTimeoutSecs | .registryMaxScanPages => some "registry"

def key : Setting → String
  | .schemaVersion => "schema_version"
  | .role => "role"
  | .pathsConfigDir => "config_dir"
  | .pathsDataDir => "data_dir"
  | .pathsStateDir => "state_dir"
  | .pathsCacheDir => "cache_dir"
  | .serverListen => "listen"
  | .serverMaxRpcBytes => "max_rpc_bytes"
  | .serverMaxHttpBodyBytes => "max_http_body_bytes"
  | .serverGracefulShutdownSecs => "graceful_shutdown_secs"
  | .serverActorMailboxCapacity => "actor_mailbox_capacity"
  | .clientPreference => "preference"
  | .clientLocalEndpoint => "local_endpoint"
  | .clientRemoteEndpoint => "remote_endpoint"
  | .clientAllowReadFallback => "allow_read_fallback"
  | .clientRequestTimeoutSecs => "request_timeout_secs"
  | .authRequired => "required"
  | .authTokenEnv => "token_env"
  | .tracingFilter => "filter"
  | .tracingFormat => "format"
  | .tracingIncludeTarget => "include_target"
  | .tracingIncludeThreadIds => "include_thread_ids"
  | .telemetryEnabled => "enabled"
  | .telemetryEndpoint => "endpoint"
  | .telemetryServiceName => "service_name"
  | .telemetryExportTimeoutSecs => "export_timeout_secs"
  | .modulesEnabled => "enabled"
  | .updateManifestUrl => "manifest_url"
  | .updateChannel => "channel"
  | .inferenceEngine => "engine"
  | .inferenceDefaultModel => "default_model"
  | .inferenceWeightcPath => "weightc_path"
  | .inferenceOllamaEndpoint => "ollama_endpoint"
  | .inferenceRequestTimeoutSecs => "request_timeout_secs"
  | .inferenceResidentSessions => "resident_sessions"
  | .inferenceMaxResidentSessions => "max_resident_sessions"
  | .holoDevelopmentGrant => "development_grant"
  | .holoResident => "resident"
  | .pluginsEnabled => "enabled"
  | .pluginsModules => "modules"
  | .registryProvider => "provider"
  | .registryEndpoint => "endpoint"
  | .registryNamespace => "namespace"
  | .registryToken => "token"
  | .registryRequestTimeoutSecs => "request_timeout_secs"
  | .registryMaxScanPages => "max_scan_pages"

def path (setting : Setting) : List String := setting.section.toList ++ [setting.key]

def kind : Setting → Kind
  | .schemaVersion | .registryMaxScanPages => .u32
  | .role => .role
  | .pathsConfigDir | .pathsDataDir | .pathsStateDir | .pathsCacheDir | .serverListen
  | .clientLocalEndpoint | .authTokenEnv | .tracingFilter | .tracingFormat
  | .telemetryServiceName | .updateChannel | .inferenceEngine | .inferenceDefaultModel
  | .inferenceWeightcPath | .inferenceOllamaEndpoint | .registryProvider | .registryEndpoint
  | .registryNamespace | .registryToken => .string
  | .serverMaxRpcBytes | .serverMaxHttpBodyBytes | .serverGracefulShutdownSecs
  | .serverActorMailboxCapacity | .clientRequestTimeoutSecs | .telemetryExportTimeoutSecs
  | .inferenceRequestTimeoutSecs | .inferenceMaxResidentSessions
  | .registryRequestTimeoutSecs => .u64
  | .clientAllowReadFallback | .authRequired | .tracingIncludeTarget | .tracingIncludeThreadIds
  | .telemetryEnabled | .inferenceResidentSessions | .pluginsEnabled => .boolean
  | .clientPreference => .preference
  | .clientRemoteEndpoint | .telemetryEndpoint | .updateManifestUrl
  | .holoDevelopmentGrant => .optional
  | .modulesEnabled => .strings
  | .holoResident => .residents
  | .pluginsModules => .plugins

end Setting

abbrev AppConfig := ∀ setting : Setting, setting.kind.Carrier

def AppConfig.set (config : AppConfig) (setting : Setting) (value : setting.kind.Carrier) :
    AppConfig :=
  Function.update config setting value

def currentSchemaVersion : UInt32 := 2
def minimumSupportedSchemaVersion : UInt32 := 1

/-- `Path::join`. -/
def joinPath (base path : String) : String :=
  if "/".toList <+: path.toList ∨ base = "" then path
  else if base.toList.getLast? = some '/' then base ++ path
  else base ++ "/" ++ path

def defaultBuiltinIds : List String :=
  ["system", "kappa-registry", "files", "holo", "history", "chat", "inference", "openai-compat",
    "ollama-compat", "control-plane"].map ("dev.hologram.live." ++ ·)

/-- The documented default of each field. -/
def AppConfig.default (home : String) : AppConfig
  | .schemaVersion => currentSchemaVersion
  | .role => ServerRole.node
  | .pathsConfigDir => joinPath home ".config/hologram"
  | .pathsDataDir => joinPath home ".local/share/hologram"
  | .pathsStateDir => joinPath home ".local/state/hologram"
  | .pathsCacheDir => joinPath home ".cache/hologram"
  | .serverListen => "127.0.0.1:11435"
  | .serverMaxRpcBytes => (32 * 1024 * 1024 : UInt64)
  | .serverMaxHttpBodyBytes => (32 * 1024 * 1024 : UInt64)
  | .serverGracefulShutdownSecs => (30 : UInt64)
  | .serverActorMailboxCapacity => (128 : UInt64)
  | .clientPreference => TargetPreference.local
  | .clientLocalEndpoint => "http://127.0.0.1:11435"
  | .clientRemoteEndpoint => (none : Option String)
  | .clientAllowReadFallback => true
  | .clientRequestTimeoutSecs => (30 : UInt64)
  | .authRequired => false
  | .authTokenEnv => "HOLOGRAM_AUTH_TOKEN"
  | .tracingFilter => "info,hologram_live=debug"
  | .tracingFormat => "pretty"
  | .tracingIncludeTarget => true
  | .tracingIncludeThreadIds => false
  | .telemetryEnabled => true
  | .telemetryEndpoint => (none : Option String)
  | .telemetryServiceName => "hologram-live"
  | .telemetryExportTimeoutSecs => (5 : UInt64)
  | .modulesEnabled => defaultBuiltinIds
  | .updateManifestUrl => (none : Option String)
  | .updateChannel => "stable"
  | .inferenceEngine => "echo"
  | .inferenceDefaultModel => ""
  | .inferenceWeightcPath => "weightc"
  | .inferenceOllamaEndpoint => "http://127.0.0.1:11434"
  | .inferenceRequestTimeoutSecs => (300 : UInt64)
  | .inferenceResidentSessions => false
  | .inferenceMaxResidentSessions => (4 : UInt64)
  | .holoDevelopmentGrant => (none : Option String)
  | .holoResident => ([] : List HoloResidentConfig)
  | .pluginsEnabled => false
  | .pluginsModules => ([] : List PluginModuleConfig)
  | .registryProvider => "local"
  | .registryEndpoint => "http://127.0.0.1:5000"
  | .registryNamespace => "hologram"
  | .registryToken => ""
  | .registryRequestTimeoutSecs => (30 : UInt64)
  | .registryMaxScanPages => (20 : UInt32)

/-- A table with these keys and no others, each a string. -/
def readStrings (keys : List String) (value : Value) : Option (List String) :=
  match value with
  | .table entries =>
    if entries.all fun entry => keys.contains entry.1 then
      keys.mapM fun key => (entries.lookup key).bind Value.asStr
    else none
  | _ => none

def readResident (value : Value) : Option HoloResidentConfig :=
  match readStrings ["kappa"] value with
  | some [kappa] => some { kappa }
  | _ => none

def readPlugin (value : Value) : Option PluginModuleConfig :=
  match readStrings ["id", "path", "sha256"] value with
  | some [id, path, sha256] => some { id, path, sha256 }
  | _ => none

def HoloResidentConfig.write (config : HoloResidentConfig) : Value :=
  .table [("kappa", .string config.kappa)]

def PluginModuleConfig.write (config : PluginModuleConfig) : Value :=
  .table [("id", .string config.id), ("path", .string config.path),
    ("sha256", .string config.sha256)]

namespace Kind

/-- A field's value as a file declares it. -/
def read : (kind : Kind) → Value → Option kind.Carrier
  | .string, .string value => some value
  | .boolean, .boolean value => some value
  | .u32, .integer value =>
    if 0 ≤ value ∧ value < 2 ^ 32 then some (UInt32.ofNat value.toNat) else none
  | .u64, .integer value =>
    if 0 ≤ value ∧ value < 2 ^ 64 then some (UInt64.ofNat value.toNat) else none
  | .optional, .string value => some (some value)
  | .strings, .array items => items.mapM Value.asStr
  | .role, .string value =>
    if value = "node" then some ServerRole.node
    else if value = "control_plane" then some ServerRole.controlPlane
    else none
  | .preference, .string value =>
    if value = "local" then some TargetPreference.local
    else if value = "remote" then some TargetPreference.remote
    else none
  | .residents, .array items => items.mapM readResident
  | .plugins, .array items => items.mapM readPlugin
  | _, _ => none

/-- How a field is written, where it is: an absent value and an empty list of resident
archives are not. -/
def write : (kind : Kind) → kind.Carrier → Option Value
  | .string, value => some (.string value)
  | .boolean, value => some (.boolean value)
  | .u32, value => some (.integer (UInt32.toNat value))
  | .u64, value => some (.integer (UInt64.toNat value))
  | .optional, value => Option.map Value.string value
  | .strings, items => some (.array (List.map Value.string items))
  | .role, ServerRole.node => some (.string "node")
  | .role, ServerRole.controlPlane => some (.string "control_plane")
  | .preference, TargetPreference.local => some (.string "local")
  | .preference, TargetPreference.remote => some (.string "remote")
  | .residents, [] => none
  | .residents, first :: rest =>
    some (.array (List.map HoloResidentConfig.write (first :: rest)))
  | .plugins, items => some (.array (List.map PluginModuleConfig.write items))

end Kind

def sections : List String :=
  ["paths", "server", "client", "auth", "tracing", "telemetry", "modules", "update", "inference",
    "holo", "plugins", "registry"]

/-- The fields of one table, or those that are in none. -/
def fieldsOf (name : Option String) : List Setting :=
  Setting.all.filter fun setting => setting.section = name

/-- Names that are not in the schema are rejected. -/
def known (table : Entries) : Bool :=
  table.all fun entry =>
    (fieldsOf none).any (fun setting => setting.key = entry.1) ||
      (sections.contains entry.1 &&
        match entry.2 with
        | .table inner => inner.all fun field =>
          (fieldsOf (some entry.1)).any fun setting => setting.key = field.1
        | _ => false)

/-- A field that is not declared has its default, but there must be a version. -/
def readSetting (home : String) (table : Entries) (setting : Setting) :
    Option setting.kind.Carrier :=
  match find setting.path (.table table) with
  | some value => setting.kind.read value
  | none => if setting = .schemaVersion then none else some (AppConfig.default home setting)

/-- `Deserialize for AppConfig`. -/
def decode (home : String) (table : Entries) : Option AppConfig :=
  if h : known table = true ∧ ∀ setting ∈ Setting.all, (readSetting home table setting).isSome then
    some fun setting => (readSetting home table setting).get (h.2 setting (Setting.mem_all setting))
  else none

/-- The fields of one table that are written. -/
def entriesOf (config : AppConfig) (name : Option String) : Entries :=
  (fieldsOf name).filterMap fun setting =>
    (setting.kind.write (config setting)).map fun value => (setting.key, value)

/-- `Serialize for AppConfig`. -/
def encode (config : AppConfig) : Entries :=
  entriesOf config none ++
    sections.map fun name => (name, Value.table (entriesOf config (some name)))

end HologramLive.Config
