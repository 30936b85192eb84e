import HologramLive.Config.Declared
import HologramLive.Config.Load
import HologramLive.Lib.Result
import HologramLive.Store.Intact

/-! What a load with upgrade does to the configuration file. -/

namespace HologramLive.Config
open Lib Lib.Files Lib.Toml Store
open Lib.Toml.Value (find asTable asInteger)

/-- What the crate writes for a configuration parses back to it. -/
def Host.Keeps (host : Host) : Prop :=
  ∀ config text, host.toStringPretty (encode config) = .ok text →
    host.fromStr text = .ok (encode config)

/-- A parsed file, with the version it declares and what is left of it as a configuration. -/
structure Parsed (host : Host) (retired : List RetiredKey) (source : String) (table : Entries)
    (config : AppConfig) : Prop where
  parses : host.fromStr source = .ok table
  version : versionOf table = some (UInt32.toNat (config .schemaVersion))
  settings : decode host.homeDir (pruneRetiredKeys table
    (UInt32.toNat (config .schemaVersion)) retired).1 = some config

section Parsed
variable {host : Host} {retired : List RetiredKey} {source : String} {table : Entries}
  {config : AppConfig}

theorem find_version (table : Entries) :
    find (Setting.path .schemaVersion) (.table table) = table.lookup "schema_version" := by
  rw [show Setting.path .schemaVersion = ["schema_version"] from rfl, find_cons]
  cases table.lookup "schema_version" <;> rfl

theorem readSetting_version {home : String} {version : UInt32}
    (h : readSetting home table .schemaVersion = some version) :
    versionOf table = some version.toNat := by
  rw [readSetting, find_version] at h
  cases hvalue : table.lookup "schema_version" with
  | none =>
    rw [hvalue] at h
    cases h
  | some value =>
    rw [hvalue] at h
    cases value with
    | integer number =>
      have hread : (if 0 ≤ number ∧ number < 2 ^ 32 then some (UInt32.ofNat number.toNat)
          else none) = some version := h
      split at hread
      · rename_i hfits
        obtain rfl := Option.some.inj hread
        have hlt : number.toNat < 2 ^ 32 := by omega
        rw [versionOf, hvalue]
        simp only [Option.bind_some, asInteger, if_pos hfits, UInt32.toNat_ofNat_of_lt' hlt]
      · cases hread
    | _ => cases h

/-- A version that is still there is the one the file declares. -/
theorem versionOf_pruned {home : String} {version : Nat} {current : UInt32}
    (h : readSetting home (pruneRetiredKeys table version retired).1 .schemaVersion =
      some current) : versionOf table = some current.toNat := by
  obtain ⟨hunder, hother⟩ :=
    pruneRetiredKeys_find table version retired (Setting.path .schemaVersion)
  have hversion := readSetting_version h
  rw [readSetting] at h
  by_cases hretired : Retired retired version (Setting.path .schemaVersion)
  · rw [hunder hretired] at h
    cases h
  · rcases hother hretired with hsame | ⟨entries, _, htable, _⟩
    · rw [find_version, find_version] at hsame
      rw [versionOf, hsame] at hversion
      exact hversion
    · rw [htable] at h
      cases h

/-- What a source is read as. -/
theorem fromSource_ok (h : fromSource host retired true source = .ok config) :
    ∃ table, Parsed host retired source table config := by
  unfold fromSource at h
  cases hparses : host.fromStr source with
  | error error =>
    rw [hparses] at h
    cases h
  | ok table =>
    rw [hparses] at h
    dsimp only at h
    cases hversion : versionOf table with
    | none =>
      -- A table without a readable version is no configuration.
      rw [hversion] at h
      dsimp only at h
      split at h
      · rename_i found hdecode
        have hread := (decode_eq.mp hdecode).2 .schemaVersion
        rw [readSetting_version hread] at hversion
        cases hversion
      · cases h
    | some version =>
      rw [hversion] at h
      dsimp only at h
      split at h
      · rename_i found hdecode
        obtain rfl := Except.ok.inj h
        have hread := (decode_eq.mp hdecode).2 .schemaVersion
        have hkept := versionOf_pruned hread
        rw [hversion, Option.some.injEq] at hkept
        subst hkept
        exact ⟨table, hparses, hversion, hdecode⟩
      · cases h

end Parsed

theorem migrate_ok {config migrated : AppConfig} {changed : Bool}
    (h : migrate config = .ok (migrated, changed)) :
    (config .schemaVersion = currentSchemaVersion ∧ migrated = config ∧ changed = false) ∨
      (UInt32.toNat (config .schemaVersion) = 1 ∧
        migrated = config.set .schemaVersion currentSchemaVersion ∧ changed = true) := by
  unfold migrate at h
  dsimp only at h
  split at h
  · rename_i hcurrent
    obtain ⟨rfl, rfl⟩ := Prod.mk.inj (Except.ok.inj h)
    exact .inl ⟨hcurrent, rfl, rfl⟩
  · rename_i hother
    split at h
    · cases h
    · rename_i hnewer
      split at h
      · cases h
      · rename_i hsupported
        obtain ⟨rfl, rfl⟩ := Prod.mk.inj (Except.ok.inj h)
        refine .inr ⟨?_, rfl, rfl⟩
        have hle : ¬ (2 : Nat) < UInt32.toNat (config .schemaVersion) := hnewer
        have hge : ¬ UInt32.toNat (config .schemaVersion) < 1 := hsupported
        have hne : UInt32.toNat (config .schemaVersion) ≠ 2 := fun heq =>
          hother (UInt32.toNat_inj.mp heq)
        omega

/-- What the load of a file that is found comes to. -/
inductive Loaded (host : Host) (retired : List RetiredKey) (pid : Nat) (path : Path)
    (files : FileSystem) : Except LiveError AppConfig → FileSystem → Prop where
  | refused (error : LiveError) : Loaded host retired pid path files (.error error) files
  | current {source : String} {table : Entries} {config : AppConfig}
    (file : files path = some (Utf8.encode source))
    (parsed : Parsed host retired source table config)
    (version : config .schemaVersion = currentSchemaVersion) :
    Loaded host retired pid path files (settle host config) files
  | older {source : String} {table : Entries} {config : AppConfig} {state : FileSystem}
    (file : files path = some (Utf8.encode source))
    (parsed : Parsed host retired source table config)
    (version : UInt32.toNat (config .schemaVersion) = 1)
    (written : state = files ∨ ∃ text,
      host.toStringPretty (encode (config.set .schemaVersion currentSchemaVersion)) = .ok text ∧
        Updating pid path (Utf8.encode text) files state) :
    Loaded host retired pid path files
      (settle host (config.set .schemaVersion currentSchemaVersion)) state

section Load
variable {host : Host} {retired : List RetiredKey} {pid : Nat} {path : Path} {files : FileSystem}

theorem persistUpgrade_ensures (config : AppConfig) :
    Program.Ensures serve (fun _ => True) (fun _ => True)
      (fun result state => result = .ok () ∧ (state = files ∨ ∃ text,
        host.toStringPretty (encode config) = .ok text ∧
          Updating pid path (Utf8.encode text) files state))
      (persistUpgrade host pid path config) files := by
  unfold persistUpgrade
  cases htext : host.toStringPretty (encode config) with
  | error error => exact ⟨trivial, rfl, .inl rfl⟩
  | ok text =>
    have hwrite : Program.Ensures serve (fun _ => True) (fun _ => True)
        (fun _ state => Updating pid path (Utf8.encode text) files state)
        (atomicWrite pid path (Utf8.encode text)) files :=
      (atomicWrite_ensures _ pid path _ files).mono (fun _ _ => trivial)
        fun _ _ hupdate _ => hupdate
    refine Program.Ensures.bind _ hwrite.attempt ?_ ?_
    · rintro result state _ ⟨_, _, hupdate⟩
      exact ⟨trivial, rfl, .inr ⟨text, rfl, hupdate⟩⟩
    · rintro error state _ ⟨_, ⟨⟩, _⟩

/-- A load after it has read and parsed the file. -/
theorem migrated_ensures {source : String} {table : Entries} {config : AppConfig}
    (hfile : files path = some (Utf8.encode source))
    (hparsed : Parsed host retired source table config) :
    Program.Ensures serve (fun _ => True) (fun _ => True) (Loaded host retired pid path files)
      (upgraded host pid path true config >>= fun config => .ofExcept (settle host config))
      files := by
  have hsettles : ∀ {config : AppConfig} {state : FileSystem},
      Loaded host retired pid path files (settle host config) state →
        Program.Ensures serve (fun _ => True) (fun _ => True) (Loaded host retired pid path files)
          (.ofExcept (settle host config)) state := by
    intro config state hloaded
    cases hsettle : settle host config with
    | error error =>
      rw [hsettle] at hloaded
      exact ⟨trivial, hloaded⟩
    | ok settled =>
      rw [hsettle] at hloaded
      exact ⟨trivial, hloaded⟩
  rw [upgraded, Program.bind_assoc]
  refine Program.Ensures.ofExcept trivial (fun error _ => .refused error) ?_
  rintro ⟨migrated, changed⟩ hmigrate
  rcases migrate_ok hmigrate with ⟨hversion, rfl, rfl⟩ | ⟨hversion, rfl, rfl⟩
  · exact hsettles (.current hfile hparsed hversion)
  · change Program.Ensures serve _ _ _
      ((persistUpgrade host pid path (config.set .schemaVersion currentSchemaVersion) >>= fun _ =>
        .done (config.set .schemaVersion currentSchemaVersion)) >>= fun config =>
          .ofExcept (settle host config)) files
    rw [Program.bind_assoc]
    refine Program.Ensures.bind _ (persistUpgrade_ensures _) ?_ ?_
    · rintro _ state _ ⟨_, hwritten⟩
      exact hsettles (.older hfile hparsed hversion hwritten)
    · rintro error state _ ⟨⟨⟩, _⟩

theorem readToString_ensures {rest : String → FileProgram LiveError AppConfig}
    (h : ∀ source, files path = some (Utf8.encode source) →
      Program.Ensures serve (fun _ => True) (fun _ => True) (Loaded host retired pid path files)
        (rest source) files) :
    Program.Ensures serve (fun _ => True) (fun _ => True) (Loaded host retired pid path files)
      (readToString path >>= rest) files := by
  unfold readToString
  rw [Program.bind_assoc]
  apply ensures_attempt trivial
  · simp only [FileSystem.granted]
    cases hfile : files path with
    | none => exact ⟨trivial, .refused _⟩
    | some bytes =>
      simp only [onReply_ok, Program.done_bind]
      cases hsource : Utf8.decode bytes with
      | none => exact ⟨trivial, .refused _⟩
      | some source =>
        rw [← Utf8.decode_eq_some.mp hsource] at hfile
        exact h source hfile
  · exact fun error _ _ => ⟨trivial, error, rfl, .refused _⟩

/-- The load of a file that is found, whatever its later calls come to. -/
theorem loadInner_ensures (hfound : (files path).isSome) (verdicts : List Verdict)
    (result : Except LiveError AppConfig)
    (hended : (Program.advance serve (.granted :: verdicts)
      (loadInner host retired pid path true) files).1.outcome = some result) :
    Loaded host retired pid path files result (Program.advance serve (.granted :: verdicts)
      (loadInner host retired pid path true) files).2 := by
  have hexists : found .granted files path = true := hfound
  have hrest : Program.Ensures serve (fun _ => True) (fun _ => True)
      (Loaded host retired pid path files)
      ((readToString path >>= fun source => .ofExcept (fromSource host retired true source)) >>=
        fun config => upgraded host pid path true config >>= fun config =>
          .ofExcept (settle host config)) files := by
    rw [Program.bind_assoc]
    refine readToString_ensures fun source hfile => ?_
    refine Program.Ensures.ofExcept trivial (fun error _ => .refused error) fun config hconfig => ?_
    obtain ⟨table, hparsed⟩ := fromSource_ok hconfig
    exact migrated_ensures hfile hparsed
  unfold loadInner at hended ⊢
  rw [advance_pathExists, hexists] at hended ⊢
  exact (hrest.sound fun _ _ => trivial).2 result hended

/-- A current file whose calls are granted is read and left alone. -/
theorem loadInner_current {source : String} {config settled : AppConfig}
    (hfile : files path = some (Utf8.encode source))
    (hsource : fromSource host retired true source = .ok config)
    (hversion : config .schemaVersion = currentSchemaVersion)
    (hsettle : settle host config = .ok settled) (verdicts : List Verdict) :
    Program.advance serve (.granted :: .granted :: verdicts) (loadInner host retired pid path true)
      files = (.done settled, files) := by
  have hexists : found .granted files path = true := by
    rw [found, hfile]
    rfl
  have hmigrate : migrate config = .ok (config, false) := if_pos hversion
  have hread : Utf8.decode (Utf8.encode source) = some source := Utf8.decode_encode source
  unfold loadInner
  rw [advance_pathExists, hexists]
  simp only [readToString, attempt_bind, Program.call_bind, Program.advance_call, serve_granted,
    FileSystem.granted, hfile, onReply_ok, Program.done_bind, hread, hsource, Program.ofExcept,
    upgraded, hmigrate, hsettle, ↓reduceIte, Bool.false_and, Bool.false_eq_true,
    Program.advance_done]

end Load

def AppConfig.current (config : AppConfig) : AppConfig :=
  config.set .schemaVersion currentSchemaVersion

/-- A file's settings under the current version: what a table declares, the default of every
other field, and nothing else. -/
structure Restated (home : String) (table restated : Entries) : Prop where
  known : known restated = true
  version : find (Setting.path .schemaVersion) (.table restated) =
    some (.integer (UInt32.toNat currentSchemaVersion))
  declared : ∀ setting : Setting, setting ≠ .schemaVersion → ∀ value,
    find setting.path (.table table) = some value → ∃ content,
      setting.kind.read value = some content ∧
        find setting.path (.table restated) = setting.kind.write content
  defaults : ∀ setting : Setting, setting ≠ .schemaVersion → find setting.path (.table table) = none →
    find setting.path (.table restated) = setting.kind.write (AppConfig.default home setting)

section Upgrade
variable {host : Host} {retired : List RetiredKey} {source : String} {table : Entries}
  {config : AppConfig}

theorem current_other (config : AppConfig) {setting : Setting} (h : setting ≠ .schemaVersion) :
    config.current setting = config setting := Function.update_of_ne h _ _

theorem current_version (config : AppConfig) :
    config.current .schemaVersion = currentSchemaVersion :=
  @Function.update_self Setting (fun setting => setting.kind.Carrier) _ .schemaVersion
    currentSchemaVersion config

theorem encode_restates {home : String} (h : decode home table = some config) :
    Restated home table (encode config.current) where
  known := known_encode _
  version := by
    rw [find_encode, current_version]
    rfl
  declared setting hother value hvalue := by
    have hread := (decode_eq.mp h).2 setting
    rw [readSetting, hvalue] at hread
    exact ⟨_, hread, by rw [find_encode, current_other config hother]⟩
  defaults setting hother hnone := by
    have hread := (decode_eq.mp h).2 setting
    rw [readSetting, hnone] at hread
    dsimp only at hread
    rw [if_neg hother] at hread
    rw [find_encode, current_other config hother, ← Option.some.inj hread]

/-- The restated file reads as the configuration it was written for. -/
theorem fromSource_restated (hparsed : Parsed host retired source table config)
    (hversion : UInt32.toNat (config .schemaVersion) = 1) {text : String}
    (htext : host.fromStr text = .ok (encode config.current)) :
    fromSource host retired true text = .ok config.current := by
  have hcurrent : versionOf (encode config.current) = some 2 := by
    have hfind := find_encode config.current .schemaVersion
    have hwrite : Setting.schemaVersion.kind.write currentSchemaVersion = some (.integer 2) := rfl
    rw [current_version, find_version, hwrite] at hfind
    simp [versionOf, hfind, asInteger]
  have hdecode : decode host.homeDir
      (pruneRetiredKeys (encode config.current) 2 retired).1 = some config.current := by
    refine decode_encode fun setting ⟨key, hkey, hremoved, hprefix⟩ => ?_
    -- What is pruned of a current file was pruned of the older one too.
    have hretired : Retired retired (UInt32.toNat (config .schemaVersion)) setting.path :=
      ⟨key, hkey, by omega, hprefix⟩
    have hnone := (pruneRetiredKeys_find table _ retired setting.path).1 hretired
    have hread := (decode_eq.mp hparsed.settings).2 setting
    rw [readSetting, hnone] at hread
    dsimp only at hread
    split at hread
    · cases hread
    · rename_i hother
      exact ⟨hother, (current_other config hother).trans (Option.some.inj hread).symm⟩
  unfold fromSource
  rw [htext]
  simp only [hcurrent, hdecode]

end Upgrade

/-- What has become of an older file: it is as it was, lost under way, or says what it said
in the current schema, and then it is read to the same end and left alone. -/
def Upgraded (host : Host) (retired : List RetiredKey) (path : Path) (files state : FileSystem)
    (table : Entries) (config : AppConfig) : Prop :=
  state path = files path ∨ state path = none ∨ ∃ text restated,
    state path = some (Utf8.encode text) ∧ host.fromStr text = .ok restated ∧
      Restated host.homeDir table restated ∧
      ∀ settled, settle host config.current = .ok settled → ∀ pid verdicts,
        Program.advance serve (.granted :: .granted :: verdicts)
          (loadInner host retired pid path true) state = (.done settled, state)

theorem Loaded.upgraded {host : Host} {retired : List RetiredKey} {pid : Nat} {path : Path}
    {files state : FileSystem} {source : String} {table : Entries} {config : AppConfig}
    (hkeeps : host.Keeps) (hparsed : Parsed host retired source table config)
    (hversion : UInt32.toNat (config .schemaVersion) = 1)
    (hwritten : state = files ∨ ∃ text, host.toStringPretty (encode config.current) = .ok text ∧
      Updating pid path (Utf8.encode text) files state) :
    Upgraded host retired path files state (pruneRetiredKeys table 1 retired).1 config := by
  rcases hwritten with rfl | ⟨text, htext, hupdate⟩
  · exact .inl rfl
  · rcases hupdate.target with hsame | hnone | hnew
    · exact .inl hsame
    · exact .inr (.inl hnone)
    · have hparses := hkeeps _ _ htext
      have hsettings := hparsed.settings
      rw [hversion] at hsettings
      refine .inr (.inr ⟨text, _, hnew, hparses, encode_restates hsettings, ?_⟩)
      intro settled hsettle pid verdicts
      exact loadInner_current hnew (fromSource_restated hparsed hversion hparses)
        (current_version config) hsettle verdicts

/-- A load prunes what was retired since the file's version and nothing else, restates an
older file before it looks at its environment, and leaves any other file alone. -/
theorem load_upgrades (host : Host) (hkeeps : host.Keeps) (retired : List RetiredKey) (pid : Nat)
    (path : Path) (files : FileSystem) (hfound : (files path).isSome) (verdicts : List Verdict)
    (result : Except LiveError AppConfig) (state : FileSystem)
    (hended : (Program.advance serve (.granted :: verdicts)
      (loadInner host retired pid path true) files).1.outcome = some result)
    (hstate : (Program.advance serve (.granted :: verdicts)
      (loadInner host retired pid path true) files).2 = state) :
    (∀ config, result = .ok config → ∃ source table parsed version,
      files path = some (Utf8.encode source) ∧ host.fromStr source = .ok table ∧
      versionOf table = some version ∧
      decode host.homeDir (pruneRetiredKeys table version retired).1 = some parsed ∧
      (∀ place, (Retired retired version place →
          find place (.table (pruneRetiredKeys table version retired).1) = none) ∧
        (¬ Retired retired version place →
          Alike (find place (.table (pruneRetiredKeys table version retired).1))
            (find place (.table table)))) ∧
      ((∀ key ∈ retired, key.removedIn ≤ version) →
        (pruneRetiredKeys table version retired).1 = table) ∧
      ((version = 2 ∧ state = files ∧ settle host parsed = .ok config) ∨
        (version = 1 ∧ settle host parsed.current = .ok config ∧
          Upgraded host retired path files state (pruneRetiredKeys table version retired).1
            parsed))) ∧
    ∀ error, result = .error error → state = files ∨ ∃ source table parsed,
      files path = some (Utf8.encode source) ∧ host.fromStr source = .ok table ∧
      versionOf table = some 1 ∧
      decode host.homeDir (pruneRetiredKeys table 1 retired).1 = some parsed ∧
      settle host parsed.current = .error error ∧
      Upgraded host retired path files state (pruneRetiredKeys table 1 retired).1 parsed := by
  have hloaded := loadInner_ensures hfound verdicts result hended
  rw [hstate] at hloaded
  cases hloaded with
  | refused error => exact ⟨fun _ hok => (nomatch hok), fun _ _ => .inl rfl⟩
  | @current source table parsed hfile hparsed hversion =>
    have htwo : UInt32.toNat (parsed .schemaVersion) = 2 := by
      rw [hversion]
      rfl
    refine ⟨fun config hsettle => ?_, fun _ _ => .inl rfl⟩
    refine ⟨source, table, parsed, _, hfile, hparsed.parses, hparsed.version, hparsed.settings,
      pruneRetiredKeys_find table _ retired, fun hkeys => ?_, .inl ⟨htwo, rfl, hsettle⟩⟩
    rw [pruneRetiredKeys_current hkeys]
  | @older source table parsed _ hfile hparsed hversion hwritten =>
    have hupgraded := Loaded.upgraded hkeeps hparsed hversion hwritten
    obtain ⟨hparses, hdeclared, hsettings⟩ := hparsed
    rw [hversion] at hdeclared hsettings
    refine ⟨fun config hsettle => ?_, fun error hsettle => ?_⟩
    · refine ⟨source, table, parsed, 1, hfile, hparses, hdeclared, hsettings,
        pruneRetiredKeys_find table 1 retired, fun hkeys => ?_, .inr ⟨rfl, hsettle, hupgraded⟩⟩
      rw [pruneRetiredKeys_current hkeys]
    · exact .inr ⟨source, table, parsed, hfile, hparses, hdeclared, hsettings, hsettle, hupgraded⟩

/-! A host at which the default configuration is written out as the crate writes it. -/

def Kind.decEq : (kind : Kind) → DecidableEq kind.Carrier
  | .string => inferInstanceAs (DecidableEq String)
  | .boolean => inferInstanceAs (DecidableEq Bool)
  | .u32 => inferInstanceAs (DecidableEq UInt32)
  | .u64 => inferInstanceAs (DecidableEq UInt64)
  | .optional => inferInstanceAs (DecidableEq (Option String))
  | .strings => inferInstanceAs (DecidableEq (List String))
  | .role => inferInstanceAs (DecidableEq ServerRole)
  | .preference => inferInstanceAs (DecidableEq TargetPreference)
  | .residents => inferInstanceAs (DecidableEq (List HoloResidentConfig))
  | .plugins => inferInstanceAs (DecidableEq (List PluginModuleConfig))

instance (kind : Kind) : DecidableEq kind.Carrier := kind.decEq

instance : DecidableEq AppConfig := fun left right =>
  decidable_of_iff (∀ setting ∈ Setting.all, left setting = right setting)
    ⟨fun h => funext fun setting => h setting setting.mem_all, fun h _ _ => h ▸ rfl⟩

def defaultText : String := "\n".intercalate
  ["schema_version = 2", "role = \"node\"", "", "[paths]",
    "config_dir = \"/home/user/.config/hologram\"",
    "data_dir = \"/home/user/.local/share/hologram\"",
    "state_dir = \"/home/user/.local/state/hologram\"",
    "cache_dir = \"/home/user/.cache/hologram\"", "", "[server]",
    "listen = \"127.0.0.1:11435\"", "max_rpc_bytes = 33554432",
    "max_http_body_bytes = 33554432", "graceful_shutdown_secs = 30",
    "actor_mailbox_capacity = 128", "", "[client]", "preference = \"local\"",
    "local_endpoint = \"http://127.0.0.1:11435\"", "allow_read_fallback = true",
    "request_timeout_secs = 30", "", "[auth]", "required = false",
    "token_env = \"HOLOGRAM_AUTH_TOKEN\"", "", "[tracing]",
    "filter = \"info,hologram_live=debug\"", "format = \"pretty\"", "include_target = true",
    "include_thread_ids = false", "", "[telemetry]", "enabled = true",
    "service_name = \"hologram-live\"", "export_timeout_secs = 5", "", "[modules]",
    "enabled = [", "    \"dev.hologram.live.system\",",
    "    \"dev.hologram.live.kappa-registry\",", "    \"dev.hologram.live.files\",",
    "    \"dev.hologram.live.holo\",", "    \"dev.hologram.live.history\",",
    "    \"dev.hologram.live.chat\",", "    \"dev.hologram.live.inference\",",
    "    \"dev.hologram.live.openai-compat\",", "    \"dev.hologram.live.ollama-compat\",",
    "    \"dev.hologram.live.control-plane\",", "]", "", "[update]", "channel = \"stable\"", "",
    "[inference]", "engine = \"echo\"", "default_model = \"\"", "weightc_path = \"weightc\"",
    "ollama_endpoint = \"http://127.0.0.1:11434\"", "request_timeout_secs = 300",
    "resident_sessions = false", "max_resident_sessions = 4", "", "[holo]", "", "[plugins]",
    "enabled = false", "modules = []", "", "[registry]", "provider = \"local\"",
    "endpoint = \"http://127.0.0.1:5000\"", "namespace = \"hologram\"", "token = \"\"",
    "request_timeout_secs = 30", "max_scan_pages = 20", ""]

def olderText : String := "schema_version = 1\n"

def sampleHome : String := "/home/user"

def sampleHost (environment : List (String × String)) : Host where
  env name := (("HOME", sampleHome) :: environment).lookup name
  fromStr source :=
    if source = olderText then .ok [("schema_version", .integer 1)]
    else if source = defaultText then .ok (encode (AppConfig.default sampleHome))
    else .error "TOML parse error at line 1, column 1"
  toStringPretty entries :=
    if decode sampleHome entries = some (AppConfig.default sampleHome) then .ok defaultText
    else .error "out of memory"
  rejects _ := "unknown field"
  socketAddr text :=
    if text = "127.0.0.1:11435" then .ok true else .error "invalid socket address syntax"
  countError _ := "invalid digit found in string"
  debug text := text.quote

theorem sampleHost_default (environment : List (String × String)) :
    (sampleHost environment).fromStr defaultText = .ok (encode (AppConfig.default sampleHome)) := by
  have hother : defaultText ≠ olderText := by decide +kernel
  dsimp only [sampleHost]
  rw [if_neg hother, if_pos rfl]

theorem sampleHost_keeps (environment : List (String × String)) :
    (sampleHost environment).Keeps := by
  intro config text htext
  have hdecode : decode sampleHome (encode config) = some config :=
    @decode_encode sampleHome config 0 [] fun setting ⟨key, hkey, _⟩ => nomatch hkey
  dsimp only [sampleHost] at htext
  rw [hdecode] at htext
  split at htext
  · rename_i hconfig
    obtain rfl := Except.ok.inj htext
    obtain rfl := Option.some.inj hconfig
    exact sampleHost_default environment
  · cases htext

def configFile : Path := { directory := ["home", "user", ".config", "hologram"], name := "live.toml" }

def olderFiles : FileSystem := FileSystem.write (fun _ => none) configFile (Utf8.encode olderText)

def ended (environment : List (String × String)) : FileProgram LiveError AppConfig × FileSystem :=
  Program.advance serve (List.replicate 7 .granted)
    (loadInner (sampleHost environment) retiredKeys 7 configFile true) olderFiles

theorem load_upgrades_sample :
    ∃ config, (ended []).1.outcome = some (.ok config) ∧ ∃ table parsed,
      settle (sampleHost []) (AppConfig.current parsed) = .ok config ∧
        Upgraded (sampleHost []) retiredKeys configFile olderFiles (ended []).2 table parsed := by
  have hsucceeds : ((ended []).1.outcome.bind Except.toOption).isSome = true := by decide
  have hrewritten : (ended []).2 configFile = some (Utf8.encode defaultText) := rfl
  have holder : olderFiles configFile = some (Utf8.encode olderText) := FileSystem.write_same ..
  obtain ⟨config, hconfig⟩ := Option.isSome_iff_exists.mp hsucceeds
  obtain ⟨result, hresult, hok⟩ := Option.bind_eq_some_iff.mp hconfig
  obtain rfl := Result.toOption_eq_some.mp hok
  obtain ⟨source, table, parsed, version, _, _, _, _, _, _, hends⟩ :=
    (load_upgrades (sampleHost []) (sampleHost_keeps []) retiredKeys 7 configFile olderFiles
      (by decide) (List.replicate 6 .granted) _ _ hresult rfl).1 config rfl
  refine ⟨config, hresult, ?_⟩
  rcases hends with ⟨_, hsame, _⟩ | ⟨_, hsettle, hupgraded⟩
  · have hfile : (ended []).2 configFile = olderFiles configFile := congrFun hsame configFile
    rw [hrewritten, holder] at hfile
    exact absurd hfile (by decide +kernel)
  · exact ⟨_, parsed, hsettle, hupgraded⟩

/-- A file that declares its version and nothing else: its upgrade declares the address to
listen at, and takes place also where the load then fails over its environment. -/
theorem defaults_restated :
    ((sampleHost []).fromStr olderText).toOption.map
        (fun table => (find ["server", "listen"] (.table table)).isSome) = some false ∧
      (ended []).1.outcome.map Except.isOk = some true ∧
      (ended []).2 configFile = some (Utf8.encode defaultText) ∧
      ((sampleHost []).fromStr defaultText).toOption.map
        (fun table => (find ["server", "listen"] (.table table)).isSome) = some true ∧
      (ended [("HOLOGRAM_MAX_RPC_BYTES", "32M")]).1.outcome.map Except.isOk = some false ∧
      olderFiles configFile = some (Utf8.encode olderText) ∧
      (ended [("HOLOGRAM_MAX_RPC_BYTES", "32M")]).2 configFile =
        some (Utf8.encode defaultText) :=
  ⟨by decide, by decide, rfl, by rw [sampleHost_default]; decide,
    by decide, rfl, rfl⟩

end HologramLive.Config
