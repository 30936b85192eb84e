import HologramLive.Lib.Atomic
import HologramLive.Lib.Lookup
import HologramLive.Store.Intact

/-! A directory of records, a file each: some calls update a record under a lock, others
read, list and remove records beside it. -/

namespace HologramLive.Store
open Lib Lib.Atomic Lib.Files Lib.Lookup

inductive ListCall : Type → Type where
  | readDir (directory : List String) : ListCall (Except IoError (List (Except IoError String)))

/-- The calls on files, and the listing of a directory. -/
abbrev DirCall := Either FileCall ListCall

abbrev DirProgram := Program DirCall

/-- What is listed is for the file system to say. -/
def serveDir : ∀ {β : Type}, DirCall β → List String → FileSystem → β × FileSystem
  | _, .left operation, _, files => files.granted operation
  | _, .right (.readDir _), names, files => (.ok (names.map .ok), files)

/-- What stands behind the last dot. A leading dot starts no extension. -/
def fileExtension (name : String) : Option String :=
  match name.toList.reverse.dropWhile (· ≠ '.') with
  | [] | [_] => none
  | _ => some (String.ofList (name.toList.reverse.takeWhile (· ≠ '.')).reverse)

/-- Each file of a directory once, in some order. -/
structure Lists (files : FileSystem) (directory : List String) (names : List String) : Prop where
  nodup : names.Nodup
  mem : ∀ name, name ∈ names ↔ (files { directory, name }).isSome

/-- The records among the files of a directory that are wanted, in the order in which the
directory lists them. -/
def readRecords (directory : List String) (fromSlice : Contents → Except String ρ)
    (wanted : ρ → Bool) : List (Except IoError String) → DirProgram LiveError (List ρ)
  | [] => pure []
  | entry :: rest => do
    let name ← .ofExcept (entry.mapError (ioError ("/".intercalate directory)))
    if fileExtension name ≠ some "json" then readRecords directory fromSlice wanted rest
    else
      let path : Path := { directory, name }
      let bytes ← (attempt (.read path) (ioError path.display)).translate .left
      let record ← .ofExcept ((fromSlice bytes).mapError .protocol)
      let output ← readRecords directory fromSlice wanted rest
      pure (if wanted record then record :: output else output)

section Extension
variable {stem extension : String}

theorem no_dot (h : dots extension = 0) : ∀ c ∈ extension.toList.reverse, decide (c ≠ '.') = true := by
  intro c hc
  rw [decide_eq_true_eq]
  rintro rfl
  exact List.count_eq_zero.mp h (List.mem_reverse.mp hc)

theorem reverse_append : (stem ++ "." ++ extension).toList.reverse =
    extension.toList.reverse ++ '.' :: stem.toList.reverse := by
  simp

theorem dropWhile_append (h : dots extension = 0) :
    (stem ++ "." ++ extension).toList.reverse.dropWhile (· ≠ '.') = '.' :: stem.toList.reverse := by
  rw [reverse_append, List.dropWhile_append_of_pos (no_dot h), List.dropWhile_cons_of_neg (by simp)]

theorem fileStem_append (hstem : stem ≠ "") (h : dots extension = 0) :
    fileStem (stem ++ "." ++ extension) = stem := by
  unfold fileStem
  rw [dropWhile_append h]
  cases hrest : stem.toList.reverse with
  | nil => exact absurd (String.toList_inj.mp (List.reverse_eq_nil_iff.mp hrest)) hstem
  | cons first rest =>
    dsimp only
    rw [← hrest, List.reverse_reverse, String.ofList_toList]

theorem fileExtension_append (hstem : stem ≠ "") (h : dots extension = 0) :
    fileExtension (stem ++ "." ++ extension) = some extension := by
  have htake : (stem ++ "." ++ extension).toList.reverse.takeWhile (· ≠ '.') =
      extension.toList.reverse := by
    rw [reverse_append, List.takeWhile_append_of_pos (no_dot h),
      List.takeWhile_cons_of_neg (by simp), List.append_nil]
  unfold fileExtension
  rw [dropWhile_append h, htake, List.reverse_reverse, String.ofList_toList]
  cases hrest : stem.toList.reverse with
  | nil => exact absurd (String.toList_inj.mp (List.reverse_eq_nil_iff.mp hrest)) hstem
  | cons first rest => rfl

end Extension

theorem dots_toString (number : Nat) : dots (toString number) = 0 := by
  refine List.count_eq_zero.mpr fun hdot => ?_
  have hdigit := Nat.isDigit_of_mem_toDigits (by decide) (by decide)
    (show '.' ∈ Nat.toDigits 10 number by simpa using hdot)
  exact absurd hdigit (by decide)

theorem extension_temporaryFor (pid : Nat) (path : Path) :
    fileExtension (temporaryFor pid path).name = some (toString pid) := by
  have hname : (temporaryFor pid path).name = fileStem path.name ++ ".tmp" ++ "." ++ toString pid := by
    change fileStem path.name ++ "." ++ ("tmp." ++ toString pid) = _
    simp only [String.append_assoc]
    rfl
  rw [hname]
  apply fileExtension_append
  · intro hempty
    have := congrArg (fun text => text.toList.length) hempty
    simp at this
  · exact dots_toString pid

theorem toString_ne_json (number : Nat) : toString number ≠ "json" := by
  intro heq
  have hdigit := Nat.isDigit_of_mem_toDigits (by decide) (by decide)
    (show 'j' ∈ Nat.toDigits 10 number by
      rw [show Nat.toDigits 10 number = (toString number).toList by simp, heq]
      decide)
  exact absurd hdigit (by decide)

theorem temporaryFor_not_json (pid : Nat) (path : Path) :
    fileExtension (temporaryFor pid path).name ≠ some "json" := by
  rw [extension_temporaryFor]
  exact fun heq => toString_ne_json pid (Option.some.inj heq)

theorem record_name {digest : String} (h : ValidDigest digest) :
    fileExtension (digest ++ ".json") = some "json" ∧ fileStem (digest ++ ".json") = digest := by
  have hname : digest ++ ".json" = digest ++ "." ++ "json" := by
    rw [String.append_assoc]
    rfl
  have hstem : digest ≠ "" := by
    rintro rfl
    exact absurd h.1 (by decide)
  rw [hname]
  exact ⟨fileExtension_append hstem (by decide), fileStem_append hstem (by decide)⟩

theorem extension_record {digest : String} (h : ValidDigest digest) :
    fileExtension (digest ++ ".json") = some "json" := (record_name h).1

/-- What a directory keeps records of: as the files show them and as they are known, with
what is known beside them. -/
structure Ledger (ρ κ θ : Type) where
  directory : List String
  toVecPretty : ρ → Contents
  fromSlice : Contents → Except String ρ
  records : κ → List (String × ρ)
  aside : κ → θ
  drop : κ → String → κ
  /-- The files outside the directory for what is beside the records. -/
  apart : FileSystem → θ → Prop
  fromSlice_toVecPretty : ∀ record, fromSlice (toVecPretty record) = .ok record
  records_drop : ∀ known key, records (drop known key) =
    (records known).filter fun record => record.1 ≠ key
  aside_drop : ∀ known key, aside (drop known key) = aside known
  apart_congr : ∀ files files' beside,
    (∀ path : Path, path.directory ≠ directory → files' path = files path) →
    apart files beside → apart files' beside

namespace Ledger
variable {ρ κ θ : Type} (ledger : Ledger ρ κ θ)

def path (digest : String) : Path := { directory := ledger.directory, name := digest ++ ".json" }

def find (known : κ) (digest : String) : Option ρ := (ledger.records known).lookup digest

/-- The records under the names that a directory lists, of those that are wanted. -/
def listed (wanted : ρ → Bool) (known : κ) (names : List String) : List ρ :=
  (names.filterMap fun name =>
    if fileExtension name = some "json" then ledger.find known (fileStem name) else none).filter wanted

/-- The files of the records, but for one that may be away. -/
structure Kept (away : Option String) (files : FileSystem) (known : κ) : Prop where
  nodup : ((ledger.records known).map Prod.fst).Nodup
  valid : ∀ digest ∈ (ledger.records known).map Prod.fst, ValidDigest digest
  file : ∀ digest, ValidDigest digest → away ≠ some digest →
    files (ledger.path digest) = (ledger.find known digest).map ledger.toVecPretty
  gone : ∀ digest, away = some digest → ValidDigest digest ∧ files (ledger.path digest) = none
  tidy : ∀ name, (files { directory := ledger.directory, name }).isSome →
    fileExtension name = some "json" → ∃ digest, ValidDigest digest ∧ name = digest ++ ".json"

/-- What a call beside the lock leaves alone: all but the records, and of those the one the
holder of the lock counts on. -/
structure Spared (own : Option String) (before after : FileSystem × κ) : Prop where
  others : ∀ path, (∀ digest, ValidDigest digest → path ≠ ledger.path digest) →
    after.1 path = before.1 path
  aside : ledger.aside after.2 = ledger.aside before.2
  absent : ∀ digest, ledger.find before.2 digest = none → ledger.find after.2 digest = none
  counted : ∀ digest, own = some digest → ledger.find after.2 digest = ledger.find before.2 digest
  kept : ∀ away, (∀ digest, away = some digest → own = some digest) →
    ledger.Kept away before.1 before.2 → ledger.Kept away after.1 after.2

variable {ledger} {away own : Option String} {files files' : FileSystem} {known : κ}
  {digest key : String} {before after last : FileSystem × κ}

theorem find_drop (known : κ) (key digest : String) :
    ledger.find (ledger.drop known key) digest =
      if digest = key then none else ledger.find known digest := by
  rw [find, ledger.records_drop]
  exact lookup_filter_ne ..

theorem path_injective : Function.Injective ledger.path := by
  intro left right h
  simpa [path] using h

theorem temporaryFor_ne_path (pid : Nat) (path : Path) (h : ValidDigest digest) :
    temporaryFor pid path ≠ ledger.path digest := by
  intro heq
  apply temporaryFor_not_json pid path
  rw [heq]
  exact extension_record h

theorem Spared.refl (own : Option String) (point : FileSystem × κ) : ledger.Spared own point point :=
  ⟨fun _ _ => rfl, rfl, fun _ => id, fun _ _ => rfl, fun _ _ => id⟩

theorem Spared.trans (h : ledger.Spared own before after) (h' : ledger.Spared own after last) :
    ledger.Spared own before last where
  others := fun path hpath => (h'.others path hpath).trans (h.others path hpath)
  aside := h'.aside.trans h.aside
  absent := fun digest hnone => h'.absent digest (h.absent digest hnone)
  counted := fun digest hown => (h'.counted digest hown).trans (h.counted digest hown)
  kept := fun away haway hkept => h'.kept away haway (h.kept away haway hkept)

theorem Spared.temporary (h : ledger.Spared own before after) (pid : Nat) (path : Path) :
    after.1 (temporaryFor pid path) = before.1 (temporaryFor pid path) :=
  h.others _ fun _ hvalid => temporaryFor_ne_path pid path hvalid

theorem Spared.outside (h : ledger.Spared own before after) {path : Path}
    (hpath : path.directory ≠ ledger.directory) : after.1 path = before.1 path := by
  refine h.others path fun digest _ heq => hpath ?_
  rw [heq]
  rfl

namespace Kept

/-- Only the records' own names matter. -/
theorem congr (h : ledger.Kept away files known)
    (hsame : ∀ name, fileExtension name = some "json" →
      files' { directory := ledger.directory, name } = files { directory := ledger.directory, name }) :
    ledger.Kept away files' known where
  nodup := h.nodup
  valid := h.valid
  file := by
    intro digest hvalid haway
    rw [path, hsame _ (extension_record hvalid)]
    exact h.file digest hvalid haway
  gone := by
    intro digest haway
    obtain ⟨hvalid, hgone⟩ := h.gone digest haway
    rw [path, hsame _ (extension_record hvalid)]
    exact ⟨hvalid, hgone⟩
  tidy := by
    intro name hsome hextension
    rw [hsame name hextension] at hsome
    exact h.tidy name hsome hextension

theorem of_records (h : ledger.Kept away files known) {known' : κ}
    (hrecords : ledger.records known' = ledger.records known) : ledger.Kept away files known' where
  nodup := hrecords ▸ h.nodup
  valid := hrecords ▸ h.valid
  file := by
    intro digest hvalid haway
    rw [h.file digest hvalid haway, find, find, hrecords]
  gone := h.gone
  tidy := h.tidy

theorem scratched (h : ledger.Kept away files known) (pid : Nat) (path : Path) (bytes : Contents) :
    ledger.Kept away (files.write (temporaryFor pid path) bytes) known := by
  refine h.congr fun name hextension => FileSystem.write_other ?_ bytes
  rintro heq
  apply temporaryFor_not_json pid path
  rw [← heq]
  exact hextension

theorem cleared (h : ledger.Kept away files known) (pid : Nat) (path : Path) :
    ledger.Kept away (files.remove (temporaryFor pid path)) known := by
  refine h.congr fun name hextension => FileSystem.remove_other ?_
  rintro heq
  apply temporaryFor_not_json pid path
  rw [← heq]
  exact hextension

/-- A record of which only the file has gone. -/
theorem removed (h : ledger.Kept none files known) (hvalid : ValidDigest key) :
    ledger.Kept (some key) (files.remove (ledger.path key)) known where
  nodup := h.nodup
  valid := h.valid
  file := by
    intro digest hdigest haway
    have hne : digest ≠ key := fun heq => haway (congrArg some heq.symm)
    rw [FileSystem.remove_other (path_injective.ne hne)]
    exact h.file digest hdigest nofun
  gone := by
    intro digest haway
    obtain rfl := Option.some.inj haway
    exact ⟨hvalid, FileSystem.remove_same ..⟩
  tidy := by
    intro name hsome hextension
    by_cases hpath : ({ directory := ledger.directory, name } : Path) = ledger.path key
    · rw [hpath, FileSystem.remove_same] at hsome
      cases hsome
    · rw [FileSystem.remove_other hpath] at hsome
      exact h.tidy name hsome hextension

theorem valid_drop (h : ledger.Kept away files known) (key : String) :
    ((ledger.records (ledger.drop known key)).map Prod.fst).Nodup ∧
      ∀ digest ∈ (ledger.records (ledger.drop known key)).map Prod.fst, ValidDigest digest := by
  rw [ledger.records_drop]
  have hsub : ((ledger.records known).filter fun record => record.1 ≠ key).Sublist
    (ledger.records known) := List.filter_sublist
  refine ⟨h.nodup.sublist (hsub.map _), fun digest hmem => h.valid digest ?_⟩
  exact (hsub.map _).subset hmem

/-- A record that goes with its file. -/
theorem dropped (h : ledger.Kept away files known) (haway : away ≠ some key) :
    ledger.Kept away (files.remove (ledger.path key)) (ledger.drop known key) where
  nodup := (h.valid_drop key).1
  valid := (h.valid_drop key).2
  file := by
    intro digest hdigest hother
    rw [find_drop]
    split
    · rename_i heq
      rw [heq, FileSystem.remove_same]
      rfl
    · rename_i hne
      rw [FileSystem.remove_other (path_injective.ne hne)]
      exact h.file digest hdigest hother
  gone := by
    intro digest hgone
    have hne : digest ≠ key := by
      rintro rfl
      exact haway hgone
    rw [FileSystem.remove_other (path_injective.ne hne)]
    exact h.gone digest hgone
  tidy := by
    intro name hsome hextension
    by_cases hpath : ({ directory := ledger.directory, name } : Path) = ledger.path key
    · rw [hpath, FileSystem.remove_same] at hsome
      cases hsome
    · rw [FileSystem.remove_other hpath] at hsome
      exact h.tidy name hsome hextension

/-- A record that was not there goes without a trace. -/
theorem undropped (h : ledger.Kept away files known) (habsent : ledger.find known key = none) :
    ledger.Kept away files (ledger.drop known key) where
  nodup := (h.valid_drop key).1
  valid := (h.valid_drop key).2
  file := by
    intro digest hdigest hother
    rw [h.file digest hdigest hother, find_drop]
    split
    · rename_i heq
      rw [heq, habsent]
    · rfl
  gone := h.gone
  tidy := h.tidy

/-- A record that comes with its file. -/
theorem stored (h : ledger.Kept away files known) (haway : away = none ∨ away = some key)
    (hvalid : ValidDigest key) {known' : κ} {record : ρ}
    (hrecords : ledger.records known' =
      (key, record) :: (ledger.records known).filter fun record => record.1 ≠ key) :
    ledger.Kept none (files.write (ledger.path key) (ledger.toVecPretty record)) known' := by
  have hdrop := h.valid_drop key
  rw [ledger.records_drop] at hdrop
  have hfind : ∀ digest, ledger.find known' digest =
      if digest = key then some record else ledger.find known digest := by
    intro digest
    rw [find, hrecords]
    by_cases hsame : digest = key
    · simp [hsame]
    · rw [lookup_cons_ne hsame, lookup_filter_ne, if_neg hsame, if_neg hsame]
      rfl
  refine ⟨?_, ?_, fun digest hdigest _ => ?_, nofun, fun name hsome hextension => ?_⟩
  · rw [hrecords, List.map_cons, List.nodup_cons]
    refine ⟨fun hmem => ?_, hdrop.1⟩
    obtain ⟨entry, hentry, hkey⟩ := List.mem_map.mp hmem
    have := List.of_mem_filter hentry
    simp [hkey] at this
  · rw [hrecords, List.map_cons]
    intro digest hmem
    rcases List.mem_cons.mp hmem with rfl | hmem
    · exact hvalid
    · exact hdrop.2 digest hmem
  · rw [hfind]
    split
    · rename_i heq
      rw [heq, FileSystem.write_same]
      rfl
    · rename_i hne
      rw [FileSystem.write_other (path_injective.ne hne)]
      refine h.file digest hdigest ?_
      rcases haway with rfl | rfl
      · exact nofun
      · exact fun heq => hne (Option.some.inj heq).symm
  · by_cases hpath : ({ directory := ledger.directory, name } : Path) = ledger.path key
    · exact ⟨key, hvalid, congrArg Path.name hpath⟩
    · rw [FileSystem.write_other hpath] at hsome
      exact h.tidy name hsome hextension

end Kept

/-- What is read under the names a directory lists are the records that are known. -/
theorem listed_perm {names : List String} {wanted : ρ → Bool} (h : ledger.Kept away files known)
    (hlists : Lists files ledger.directory names)
    (hfile : ∀ digest, ValidDigest digest →
      files (ledger.path digest) = (ledger.find known digest).map ledger.toVecPretty) :
    (ledger.listed wanted known names).Perm
      (((ledger.records known).map Prod.snd).filter wanted) := by
  have hjson : ∀ name ∈ names.filter (fun name => fileExtension name = some "json"),
      ∃ digest, ValidDigest digest ∧ name = digest ++ ".json" ∧
        digest ∈ (ledger.records known).map Prod.fst := by
    intro name hmem
    obtain ⟨hname, hextension⟩ := List.mem_filter.mp hmem
    have hthere := (hlists.mem name).mp hname
    obtain ⟨digest, hvalid, rfl⟩ := h.tidy name hthere (of_decide_eq_true hextension)
    refine ⟨digest, hvalid, rfl, ?_⟩
    rw [show ({ directory := ledger.directory, name := digest ++ ".json" } : Path) =
      ledger.path digest from rfl, hfile digest hvalid, Option.isSome_map] at hthere
    obtain ⟨record, hrecord⟩ := Option.isSome_iff_exists.mp hthere
    exact List.mem_map_of_mem (mem_of_lookup hrecord)
  have hkeys : ((names.filter fun name => fileExtension name = some "json").map fileStem).Perm
      ((ledger.records known).map Prod.fst) := by
    refine (List.perm_ext_iff_of_nodup ?_ h.nodup).mpr fun digest => ⟨fun hmem => ?_, fun hmem => ?_⟩
    · refine List.Nodup.map_on (fun left hleft right hright heq => ?_) (hlists.nodup.filter _)
      obtain ⟨digest, hvalid, rfl, -⟩ := hjson left hleft
      obtain ⟨other, hother, rfl, -⟩ := hjson right hright
      rw [(record_name hvalid).2, (record_name hother).2] at heq
      rw [heq]
    · obtain ⟨name, hname, rfl⟩ := List.mem_map.mp hmem
      obtain ⟨digest, hvalid, rfl, hknown⟩ := hjson name hname
      rw [(record_name hvalid).2]
      exact hknown
    · have hvalid := h.valid digest hmem
      obtain ⟨⟨_, record⟩, hentry, rfl⟩ := List.mem_map.mp hmem
      refine List.mem_map.mpr ⟨_, List.mem_filter.mpr ⟨(hlists.mem _).mpr ?_,
        decide_eq_true (extension_record hvalid)⟩, (record_name hvalid).2⟩
      have hthere := hfile _ hvalid
      rw [find, lookup_of_mem h.nodup hentry] at hthere
      rw [show ({ directory := ledger.directory, name := _ ++ ".json" } : Path) =
        ledger.path _ from rfl, hthere]
      rfl
  have hlisted : (names.filterMap fun name =>
      if fileExtension name = some "json" then ledger.find known (fileStem name) else none) =
      ((names.filter fun name => fileExtension name = some "json").map fileStem).filterMap
        (ledger.find known) := by
    rw [List.filterMap_map, List.filterMap_filter]
    simp
  unfold listed
  rw [hlisted]
  refine List.Perm.filter _ ((hkeys.filterMap _).trans ?_)
  rw [show ledger.find known = fun key => (ledger.records known).lookup key from rfl, filterMap_lookup h.nodup]

end Ledger
end HologramLive.Store
