import HologramLive.Rootfs.Archive

/-! The image that an archive holds, apart from how the archive holds it. -/

namespace HologramLive.Rootfs
open Lib Lib.Result Store

/-- A path that names a member and leads nowhere else. -/
def SafePath (path : Bytes) : Prop := path ≠ [] ∧ ∀ component ∈ components path, component.name?.isSome

/-- The members that the entries of an archive hold, and their size. Directories hold none. -/
inductive Holds : List (Except String Entry) → Files → Nat → Prop
  | nil : Holds [] [] 0
  | directory {entry : Entry} {rest : List (Except String Entry)} {members : Files} {total : Nat}
      (htype : entry.entryType = .directory) (hrest : Holds rest members total) :
      Holds (.ok entry :: rest) members total
  | member {entry : Entry} {path contents : Bytes} {rest : List (Except String Entry)}
      {members : Files} {total : Nat} (htype : entry.entryType = .regular)
      (hpath : entry.path = .ok path) (hsafe : SafePath path)
      (hcontents : entry.contents = .ok contents) (hrest : Holds rest members total) :
      Holds (.ok entry :: rest) ((names path, contents) :: members) (entry.size + total)

/-- What an image is: its configuration, its layers in order and its tags. -/
structure Image where
  config : Bytes
  layers : List Bytes
  tags : List String

/-- The member that a path of the manifest names. -/
def MemberAt (members : Files) (path : String) (contents : Bytes) : Prop :=
  SafePath (Utf8.encode path) ∧ (names (Utf8.encode path), contents) ∈ members

/-- The manifest among the members, and the image it describes. -/
def Describes (tools : Tools) (members : Files) (image : Image) : Prop :=
  ∃ manifestBytes manifest, (manifestNames, manifestBytes) ∈ members ∧
    tools.codec.read tools.refusal (Json.vector DockerManifest.ofJson) manifestBytes = .ok [manifest] ∧
    MemberAt members manifest.config image.config ∧
    List.Forall₂ (MemberAt members) manifest.layers image.layers ∧
    manifest.repoTags = image.tags

/-- An archive of an image: readable files within the limit, no two of them on one path. -/
def DockerArchive (tools : Tools) (archive : Bytes) (image : Image) : Prop :=
  ∃ entries members total, tools.tar.entries archive = .ok entries ∧ Holds entries members total ∧
    (members.map Prod.fst).Nodup ∧ total ≤ maxArchiveBytes ∧ Describes tools members image

/-- The same configuration and layers, and the same tags in any order and number. -/
structure SameContent (image other : Image) : Prop where
  config : image.config = other.config
  layers : image.layers = other.layers
  tags : ∀ tag, tag ∈ image.tags ↔ tag ∈ other.tags

section
variable {files : Files} {total : Nat} {entries : List (Except String Entry)} {path : Bytes}

theorem validatePath_ok : validatePath path = .ok () ↔ SafePath path := by
  rw [validatePath, guard_ok, not_or, not_not, List.all_eq_true, SafePath]
  simp

/-- One entry of an archive that is taken. -/
theorem readEntry_ok {entry : Except String Entry} {after : Files × Nat} :
    readEntry (files, total) entry = .ok after ↔ ∃ found, entry = .ok found ∧
      ((found.entryType = .directory ∧ after = (files, total)) ∨
      (found.entryType = .regular ∧ ∃ path contents, found.path = .ok path ∧ SafePath path ∧
        found.contents = .ok contents ∧ total + found.size ≤ maxArchiveBytes ∧
        files.lookup (names path) = none ∧
        after = ((names path, contents) :: files, total + found.size))) := by
  cases entry with
  | error error => simp [readEntry]
  | ok found =>
    cases htype : found.entryType with
    | directory => simp [readEntry, htype, eq_comm]
    | other => simp [readEntry, htype]
    | regular =>
      have hlimit : maxArchiveBytes < 2 ^ 64 := by decide
      simp only [readEntry, htype, Except.ok.injEq, exists_eq_left', reduceCtorEq, false_and, true_and,
        false_or]
      constructor
      · intro h
        obtain ⟨path, hpath, h⟩ := bind_ok.mp h
        obtain ⟨hvalid, h⟩ := check_ok.mp h
        obtain ⟨-, h⟩ := guard_ok.mp h
        obtain ⟨hsize, h⟩ := guard_ok.mp h
        obtain ⟨contents, hcontents, h⟩ := bind_ok.mp h
        obtain ⟨hnew, h⟩ := guard_ok.mp h
        exact ⟨path, contents, mapError_ok.mp hpath, validatePath_ok.mp hvalid,
          mapError_ok.mp hcontents, by omega, Option.not_isSome_iff_eq_none.mp hnew,
          (Except.ok.inj h).symm⟩
      · intro ⟨path, contents, hpath, hsafe, hcontents, hsize, hnew, hafter⟩
        refine bind_ok.mpr ⟨path, mapError_ok.mpr hpath, ?_⟩
        refine check_ok.mpr ⟨validatePath_ok.mpr hsafe, ?_⟩
        refine guard_ok.mpr ⟨by omega, guard_ok.mpr ⟨by omega, ?_⟩⟩
        refine bind_ok.mpr ⟨contents, mapError_ok.mpr hcontents, ?_⟩
        exact guard_ok.mpr ⟨by simp [hnew], congrArg Except.ok hafter.symm⟩

theorem holds_cons {entry : Except String Entry} {members : Files} {more : Nat} :
    Holds (entry :: entries) members more ↔ ∃ found, entry = .ok found ∧
      ((found.entryType = .directory ∧ Holds entries members more) ∨
      (found.entryType = .regular ∧ ∃ path contents rest total, found.path = .ok path ∧
        SafePath path ∧ found.contents = .ok contents ∧ Holds entries rest total ∧
        members = (names path, contents) :: rest ∧ more = found.size + total)) := by
  constructor
  · intro h
    cases h with
    | directory htype hrest => exact ⟨_, rfl, .inl ⟨htype, hrest⟩⟩
    | member htype hpath hsafe hcontents hrest =>
      exact ⟨_, rfl, .inr ⟨htype, _, _, _, _, hpath, hsafe, hcontents, hrest, rfl, rfl⟩⟩
  · intro ⟨found, hentry, h⟩
    subst hentry
    rcases h with ⟨htype, hrest⟩ |
      ⟨htype, path, contents, rest, total, hpath, hsafe, hcontents, hrest, hmembers, hmore⟩
    · exact .directory htype hrest
    · subst hmembers
      subst hmore
      exact .member htype hpath hsafe hcontents hrest

/-- All entries are taken where they hold members within the limit, each on a path of its own. -/
theorem readEntries_ok {after : Files × Nat} (hnodup : (files.map Prod.fst).Nodup)
    (htotal : total ≤ maxArchiveBytes) :
    entries.foldlM readEntry (files, total) = .ok after ↔ ∃ members more,
      Holds entries members more ∧ ((members.reverse ++ files).map Prod.fst).Nodup ∧
      total + more ≤ maxArchiveBytes ∧ after = (members.reverse ++ files, total + more) := by
  induction entries generalizing files total with
  | nil =>
    constructor
    · intro h
      obtain rfl := Except.ok.inj h
      exact ⟨[], 0, .nil, hnodup, htotal, rfl⟩
    · intro ⟨members, more, hholds, _, _, hafter⟩
      cases hholds
      exact congrArg Except.ok hafter.symm
  | cons entry entries ih =>
    rw [List.foldlM_cons, bind_ok]
    constructor
    · intro ⟨between, hentry, hrest⟩
      obtain ⟨found, rfl, h⟩ := readEntry_ok.mp hentry
      rcases h with ⟨htype, rfl⟩ |
        ⟨htype, path, contents, hpath, hsafe, hcontents, hsize, hnew, rfl⟩
      · obtain ⟨members, more, hholds, hrest⟩ := (ih hnodup htotal).mp hrest
        exact ⟨members, more, .directory htype hholds, hrest⟩
      · have hfresh : (((names path, contents) :: files).map Prod.fst).Nodup :=
          List.nodup_cons.mpr ⟨Lookup.not_mem_of_lookup hnew, hnodup⟩
        obtain ⟨members, more, hholds, hmembers, hmore, rfl⟩ := (ih hfresh hsize).mp hrest
        refine ⟨_, _, .member htype hpath hsafe hcontents hholds, ?_, by omega, ?_⟩
        · simpa using hmembers
        · simp [Nat.add_assoc]
    · intro ⟨members, more, hholds, hmembers, hmore, hafter⟩
      obtain ⟨found, rfl, h⟩ := holds_cons.mp hholds
      rcases h with ⟨htype, hrest⟩ |
        ⟨htype, path, contents, rest, size, hpath, hsafe, hcontents, hrest, rfl, rfl⟩
      · exact ⟨(files, total), readEntry_ok.mpr ⟨found, rfl, .inl ⟨htype, rfl⟩⟩,
          (ih hnodup htotal).mpr ⟨members, more, hrest, hmembers, hmore, hafter⟩⟩
      · have hmembers' : ((rest.reverse ++ (names path, contents) :: files).map Prod.fst).Nodup := by
          simpa using hmembers
        have hfresh : (((names path, contents) :: files).map Prod.fst).Nodup := by
          rw [List.map_append] at hmembers'
          exact hmembers'.of_append_right
        have hnew : files.lookup (names path) = none := by
          cases hlookup : files.lookup (names path) with
          | none => rfl
          | some other =>
            have hmem : names path ∈ files.map Prod.fst :=
              List.mem_map_of_mem (Lookup.mem_of_lookup hlookup)
            exact absurd hmem (List.nodup_cons.mp hfresh).1
        have hsize : total + found.size ≤ maxArchiveBytes := by omega
        have hstep := readEntry_ok.mpr ⟨found, rfl, .inr
          ⟨htype, path, contents, hpath, hsafe, hcontents, hsize, hnew, rfl⟩⟩
        refine ⟨_, hstep, (ih hfresh hsize).mpr ⟨rest, size, hrest, hmembers', by omega, ?_⟩⟩
        rw [hafter]
        simp [Nat.add_assoc]

variable {tools : Tools} {archive : Bytes}

theorem readRegularFiles_ok : readRegularFiles tools.tar archive = .ok files ↔
    ∃ entries members total, tools.tar.entries archive = .ok entries ∧ Holds entries members total ∧
      (members.map Prod.fst).Nodup ∧ total ≤ maxArchiveBytes ∧ files = members.reverse := by
  rw [readRegularFiles, bind_ok]
  constructor
  · intro ⟨entries, hentries, h⟩
    obtain ⟨⟨found, total⟩, hread, h⟩ := bind_ok.mp h
    obtain rfl := Except.ok.inj h
    obtain ⟨members, more, hholds, hnodup, hmore, hafter⟩ :=
      (readEntries_ok (by simp) (Nat.zero_le _)).mp hread
    obtain ⟨rfl, -⟩ := Prod.mk.inj hafter
    refine ⟨entries, members, more, mapError_ok.mp hentries, hholds, ?_, by omega, by simp⟩
    simpa using hnodup
  · intro ⟨entries, members, total, hentries, hholds, hnodup, htotal, hfiles⟩
    refine ⟨entries, mapError_ok.mpr hentries, bind_ok.mpr ⟨(files, total), ?_, rfl⟩⟩
    refine (readEntries_ok (by simp) (Nat.zero_le _)).mpr
      ⟨members, total, hholds, ?_, by omega, by simp [hfiles]⟩
    simpa using hnodup

theorem requiredMember_ok {path kind : String} {contents : Bytes} (hnodup : (files.map Prod.fst).Nodup) :
    requiredMember files path kind = .ok contents ↔ MemberAt files path contents := by
  rw [requiredMember, check_ok, validatePath_ok]
  refine and_congr_right fun _ => ?_
  cases hlookup : files.lookup (names (Utf8.encode path)) with
  | none =>
    refine iff_of_false (by simp) fun hmem => ?_
    exact Lookup.not_mem_of_lookup hlookup (List.mem_map_of_mem hmem)
  | some found =>
    constructor
    · intro h
      obtain rfl := Except.ok.inj h
      exact Lookup.mem_of_lookup hlookup
    · intro hmem
      have hfound := Lookup.lookup_of_mem hnodup hmem
      exact congrArg Except.ok (Option.some.inj (hlookup.symm.trans hfound))

end
end HologramLive.Rootfs
