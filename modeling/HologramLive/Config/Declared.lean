import HologramLive.Config.Retired
import HologramLive.Config.Settings

/-! What a written configuration declares, and what reading it gives. -/

namespace HologramLive.Config
open Lib Lib.Toml
open Lib.Toml.Value (find asTable)

theorem mapM_option {items : List α} {f : α → β} {g : β → Option α}
    (h : ∀ item, g (f item) = some item) : (items.map f).mapM g = some items := by
  induction items with
  | nil => rfl
  | cons item rest ih => simp [List.mapM_cons, h, ih]

theorem Kind.read_u32 (content : UInt32) :
    Kind.read .u32 (.integer content.toNat) = some content := by
  have hfits : (0 : Int) ≤ (content.toNat : Int) ∧ (content.toNat : Int) < 2 ^ 32 := by
    have hlt := content.toNat_lt
    omega
  have hread : Kind.read .u32 (.integer content.toNat) =
      if (0 : Int) ≤ (content.toNat : Int) ∧ (content.toNat : Int) < 2 ^ 32 then
        some (UInt32.ofNat (content.toNat : Int).toNat)
      else none := rfl
  rw [hread, if_pos hfits, Int.toNat_natCast, UInt32.ofNat_toNat]

theorem Kind.read_u64 (content : UInt64) :
    Kind.read .u64 (.integer content.toNat) = some content := by
  have hfits : (0 : Int) ≤ (content.toNat : Int) ∧ (content.toNat : Int) < 2 ^ 64 := by
    have hlt := content.toNat_lt
    omega
  have hread : Kind.read .u64 (.integer content.toNat) =
      if (0 : Int) ≤ (content.toNat : Int) ∧ (content.toNat : Int) < 2 ^ 64 then
        some (UInt64.ofNat (content.toNat : Int).toNat)
      else none := rfl
  rw [hread, if_pos hfits, Int.toNat_natCast, UInt64.ofNat_toNat]

/-- A field that is written reads back, and is no table. -/
theorem Kind.read_write {kind : Kind} {content : kind.Carrier} {value : Value}
    (h : kind.write content = some value) :
    kind.read value = some content ∧ asTable value = none := by
  cases kind with
  | string =>
    obtain rfl := Option.some.inj h
    exact ⟨rfl, rfl⟩
  | boolean =>
    obtain rfl := Option.some.inj h
    exact ⟨rfl, rfl⟩
  | u32 =>
    obtain rfl := Option.some.inj h
    exact ⟨read_u32 content, rfl⟩
  | u64 =>
    obtain rfl := Option.some.inj h
    exact ⟨read_u64 content, rfl⟩
  | optional =>
    obtain ⟨text, rfl, rfl⟩ := Option.map_eq_some_iff.mp h
    exact ⟨rfl, rfl⟩
  | strings =>
    obtain rfl := Option.some.inj h
    exact ⟨mapM_option fun _ => rfl, rfl⟩
  | role =>
    cases content <;> obtain rfl := Option.some.inj h <;> exact ⟨rfl, rfl⟩
  | preference =>
    cases content <;> obtain rfl := Option.some.inj h <;> exact ⟨rfl, rfl⟩
  | residents =>
    match content with
    | [] => cases h
    | first :: rest =>
      obtain rfl := Option.some.inj h
      exact ⟨mapM_option fun _ => rfl, rfl⟩
  | plugins =>
    obtain rfl := Option.some.inj h
    exact ⟨mapM_option fun _ => rfl, rfl⟩

/-- A field is left out only where its default says the same. -/
theorem write_none {setting : Setting} {content : setting.kind.Carrier} (home : String)
    (h : setting.kind.write content = none) :
    setting ≠ .schemaVersion ∧ content = AppConfig.default home setting := by
  cases setting with
  | role => cases content <;> cases h
  | clientPreference => cases content <;> cases h
  | clientRemoteEndpoint | telemetryEndpoint | updateManifestUrl | holoDevelopmentGrant =>
    exact ⟨nofun, Option.map_eq_none_iff.mp h⟩
  | holoResident =>
    match content with
    | [] => exact ⟨nofun, rfl⟩
    | first :: rest => cases h
  | _ => cases h

theorem mem_fieldsOf {name : Option String} {setting : Setting} :
    setting ∈ fieldsOf name ↔ setting.section = name := by
  simp [fieldsOf, Setting.mem_all]

theorem section_mem {setting : Setting} {name : String} (h : setting.section = some name) :
    name ∈ sections := by
  have hall : ∀ setting ∈ Setting.all, ∀ name, setting.section = some name → name ∈ sections := by
    decide
  exact hall setting (Setting.mem_all setting) name h

theorem keys_nodup (setting : Setting) : ((fieldsOf setting.section).map Setting.key).Nodup := by
  have hall : ∀ setting ∈ Setting.all,
      ((fieldsOf setting.section).map Setting.key).Nodup := by decide
  exact hall setting (Setting.mem_all setting)

theorem lookup_entriesOf (config : AppConfig) (setting : Setting) :
    (entriesOf config setting.section).lookup setting.key =
      setting.kind.write (config setting) :=
  Lookup.lookup_filterMap Setting.key (fun setting => setting.kind.write (config setting))
    (keys_nodup setting) (mem_fieldsOf.mpr rfl)

/-- A written configuration declares each field under its path. -/
theorem find_encode (config : AppConfig) (setting : Setting) :
    find setting.path (.table (encode config)) = setting.kind.write (config setting) := by
  have hlookup := lookup_entriesOf config setting
  cases hsection : setting.section with
  | none =>
    have hother : setting.key ∉ sections := by
      have hall : ∀ setting ∈ Setting.all, setting.section = none → setting.key ∉ sections := by
        decide
      exact hall setting (Setting.mem_all setting) hsection
    have habsent : (sections.map fun name =>
        (name, Value.table (entriesOf config (some name)))).lookup setting.key = none := by
      rw [List.lookup_eq_none_iff]
      intro entry hentry
      obtain ⟨name, hname, rfl⟩ := List.mem_map.mp hentry
      rw [bne_iff_ne]
      rintro heq
      exact hother (heq ▸ hname)
    rw [hsection] at hlookup
    rw [Setting.path, hsection, Option.toList_none, List.nil_append, find_cons, encode,
      List.lookup_append, hlookup, habsent, Option.or_none]
    cases setting.kind.write (config setting) <;> rfl
  | some name =>
    have hname := section_mem hsection
    have habsent : (entriesOf config none).lookup name = none := by
      rw [List.lookup_eq_none_iff]
      intro entry hentry
      obtain ⟨other, hother, hvalue⟩ := List.mem_filterMap.mp hentry
      obtain ⟨value, _, rfl⟩ := Option.map_eq_some_iff.mp hvalue
      rw [bne_iff_ne]
      intro heq
      have hsame : name = other.key := heq
      have hleaf : ∀ other ∈ fieldsOf none, other.key ∉ sections := by decide
      exact hleaf other hother (hsame ▸ hname)
    have hfound : (sections.map fun name =>
        (name, Value.table (entriesOf config (some name)))).lookup name =
          some (.table (entriesOf config (some name))) := by
      apply Lookup.lookup_of_mem
      · rw [List.map_map]
        exact (List.map_id sections).symm ▸ (by decide : sections.Nodup)
      · exact List.mem_map.mpr ⟨name, hname, rfl⟩
    rw [hsection] at hlookup
    rw [Setting.path, hsection, Option.toList_some, List.cons_append, List.nil_append, find_cons,
      encode, List.lookup_append, habsent, Option.none_or, hfound, Option.bind_some, find_cons,
      hlookup]
    cases setting.kind.write (config setting) <;> rfl

/-- A version and fields that can all be read, among names that are all known. -/
theorem decode_eq {home : String} {table : Entries} {config : AppConfig} :
    decode home table = some config ↔
      known table = true ∧ ∀ setting, readSetting home table setting = some (config setting) := by
  constructor
  · intro h
    unfold decode at h
    split at h
    · rename_i hreads
      obtain rfl := Option.some.inj h
      exact ⟨hreads.1, fun setting => (Option.some_get _).symm⟩
    · cases h
  · rintro ⟨hknown, hreads⟩
    have hsome : ∀ setting ∈ Setting.all, (readSetting home table setting).isSome := by
      intro setting _
      rw [hreads]
      rfl
    rw [decode, dif_pos ⟨hknown, hsome⟩, Option.some.injEq]
    funext setting
    exact Option.get_of_eq_some _ (hreads setting)

theorem name_known {name : Option String} {setting : Setting} (h : setting.section = name) :
    ((fieldsOf name).any fun other => other.key = setting.key) = true :=
  List.any_eq_true.mpr ⟨setting, mem_fieldsOf.mpr h, decide_eq_true rfl⟩

theorem entriesOf_known (config : AppConfig) (name : Option String) :
    ∀ entry ∈ entriesOf config name,
      ((fieldsOf name).any fun setting => setting.key = entry.1) = true := by
  intro entry hentry
  obtain ⟨setting, hsetting, hvalue⟩ := List.mem_filterMap.mp hentry
  obtain ⟨value, _, rfl⟩ := Option.map_eq_some_iff.mp hvalue
  exact name_known (mem_fieldsOf.mp hsetting)

theorem known_encode (config : AppConfig) : known (encode config) = true := by
  rw [known, List.all_eq_true]
  intro entry hentry
  rcases List.mem_append.mp hentry with hleaf | hsection
  · rw [entriesOf_known config none entry hleaf, Bool.true_or]
  · obtain ⟨name, hname, rfl⟩ := List.mem_map.mp hsection
    have hinner := List.all_eq_true.mpr (entriesOf_known config (some name))
    simp only [hinner, List.contains_iff_mem.mpr hname, Bool.and_self, Bool.or_true]

/-- Removal leaves no name that was not there. -/
theorem known_removeDotted (keys : List String) {table : Entries} (h : known table = true) :
    known (removeDotted keys table).1 = true := by
  rw [known, List.all_eq_true] at h ⊢
  intro entry hentry
  match keys with
  | [] => exact h entry hentry
  | [key] => exact h entry (List.mem_of_mem_filter hentry)
  | key :: next :: rest =>
    rw [removeDotted] at hentry
    split at hentry
    · exact h entry hentry
    · rename_i inner hinner
      rcases List.mem_cons.mp hentry with rfl | hentry
      · obtain ⟨value, hvalue, htable⟩ := Option.bind_eq_some_iff.mp hinner
        obtain rfl : value = .table inner := by
          cases value <;> simp_all [asTable]
        have hold := h _ (Lookup.mem_of_lookup hvalue)
        dsimp only at hold ⊢
        cases hleaf : (fieldsOf none).any (fun setting => setting.key = key) with
        | true => rfl
        | false =>
          rw [hleaf, Bool.false_or, Bool.and_eq_true] at hold
          rw [Bool.false_or, hold.1, Bool.true_and, List.all_eq_true]
          intro field hfield
          obtain ⟨before, hbefore, hname⟩ := List.mem_map.mp
            (removeDotted_names (next :: rest) inner _ (List.mem_map.mpr ⟨field, hfield, rfl⟩))
          rw [← hname]
          exact List.all_eq_true.mp hold.2 before hbefore
      · exact h entry (List.mem_of_mem_filter hentry)

theorem known_pruneRetiredKeys {table : Entries} (h : known table = true) (version : Nat)
    (retired : List RetiredKey) : known (pruneRetiredKeys table version retired).1 = true := by
  rw [pruneRetiredKeys_fst]
  induction retired.filter (fun key => version < key.removedIn) generalizing table with
  | nil => exact h
  | cons key rest ih => exact ih (known_removeDotted _ h)

/-- A written configuration reads back, also with keys pruned again whose fields had their
defaults. -/
theorem decode_encode {home : String} {config : AppConfig} {version : Nat}
    {retired : List RetiredKey}
    (h : ∀ setting, Retired retired version setting.path →
      setting ≠ .schemaVersion ∧ config setting = AppConfig.default home setting) :
    decode home (pruneRetiredKeys (encode config) version retired).1 = some config := by
  refine decode_eq.mpr ⟨known_pruneRetiredKeys (known_encode config) version retired, ?_⟩
  intro setting
  have hdefault : ∀ {table : Entries}, find setting.path (.table table) = none →
      setting ≠ .schemaVersion ∧ config setting = AppConfig.default home setting →
        readSetting home table setting = some (config setting) := by
    rintro table hnone ⟨hne, hsame⟩
    rw [readSetting, hnone, hsame]
    exact if_neg hne
  obtain ⟨hunder, hother⟩ := pruneRetiredKeys_find (encode config) version retired setting.path
  by_cases hretired : Retired retired version setting.path
  · exact hdefault (hunder hretired) (h setting hretired)
  · have halike := hother hretired
    rw [find_encode] at halike
    cases hwrite : setting.kind.write (config setting) with
    | none =>
      rw [hwrite] at halike
      exact hdefault halike.eq_none (write_none home hwrite)
    | some value =>
      obtain ⟨hread, htable⟩ := Kind.read_write hwrite
      rw [hwrite] at halike
      rw [readSetting, halike.eq_some htable]
      exact hread

end HologramLive.Config
