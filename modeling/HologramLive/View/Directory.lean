import HologramLive.Lib.Table
import HologramLive.Python.Fingerprint
import HologramLive.View.Normal
import HologramLive.View.RoundTrip

/-! View layers taken from a directory: what the walk makes of the files in it, and which bundle
shows them. -/

namespace HologramLive.View.Directory
open Lib Lib.Pieces Lib.Result Rootfs Python

/-! ### What the code does -/

section Code
variable (debug : String → String)

def portableComponent (path : Bytes) : Rootfs.Component → Except LiveError String
  | .normal part =>
    match Utf8.decode part with
    | none => .error (.config s!"View asset path {Utf8.decodeLossy path} is not valid UTF-8")
    | some text =>
      match validateComponent text.toList with
      | .ok () => .ok text
      | .error _ =>
        .error <| .config <|
          s!"View asset path {Utf8.decodeLossy path} contains non-portable component {debug text}"
  | _ =>
    .error (.config s!"View asset path {Utf8.decodeLossy path} is not relative and normalized")

/-- `portable_path` of a path as the file system spells it. -/
def portablePath (path : Bytes) : Except LiveError String := do
  let parts ← (Rootfs.components path).mapM (portableComponent debug path)
  let logical := "/".intercalate parts
  if logical.utf8ByteSize = 0 ∨ maxPathBytes < logical.utf8ByteSize then
    .error <| .config
      s!"View asset path {Utf8.decodeLossy path} must contain 1..={maxPathBytes} bytes"
  else .ok logical

/-- What the walk has taken down: the files by their paths, the paths with their case folded and
the bytes so far. -/
structure Collected where
  files : List (String × Bytes) := []
  foldedPaths : List (List Char) := []
  totalBytes : Nat := 0

variable (root : Bytes)

def collectFile (path : List Bytes) (content : Bytes) (collected : Collected) :
    Except LiveError Collected :=
  if maxFiles ≤ collected.files.length then
    .error (.config s!"View bundle exceeds the {maxFiles}-file limit")
  else if maxFileBytes < content.length then
    .error <| .config
      s!"View asset {display (root :: path)} exceeds the {maxFileBytes}-byte limit"
  else if UInt64.size ≤ collected.totalBytes + content.length then
    .error (.config "View bundle byte length overflowed")
  else if maxBundleBytes < collected.totalBytes + content.length then
    .error (.config s!"View bundle exceeds the {maxBundleBytes}-byte limit")
  else do
    let logical ← portablePath debug (joined path)
    if collected.foldedPaths.contains (folded logical) then
      .error <| .config
        s!"View bundle contains case-insensitive path collision at {debug logical}"
    else
      .ok { files := Table.insert collected.files logical content
            foldedPaths := folded logical :: collected.foldedPaths
            totalBytes := collected.totalBytes + content.length }

mutual
def collectNode (path : List Bytes) : Node → Collected → Except LiveError Collected
  | .symlink, _ =>
    .error (.config s!"View bundles do not permit symlinks: {display (root :: path)}")
  | .directory entries, collected => collectFiles path entries collected
  | .special, _ =>
    .error (.config s!"View bundles contain only regular files: {display (root :: path)}")
  | .file content, collected => collectFile debug root path content collected

/-- The walk through a directory, in the order in which it is listed. -/
def collectFiles (directory : List Bytes) : Entries → Collected → Except LiveError Collected
  | [], collected => .ok collected
  | (name, node) :: rest, collected => do
    let collected ← collectNode (directory ++ [name]) node collected
    collectFiles directory rest collected
end

/-- The bundle of the files, by their paths. -/
def bundleOf (files : List (String × Bytes)) : ViewBundle where
  version := viewBundleVersion
  entry := portableEntry
  files := (files.insertionSort fun left right => left.1 ≤ right.1).map fun (path, bytes) =>
    { path, bytes }

def compileDirectory : Node → Except LiveError Bytes
  | .directory entries => do
    let collected ← collectFiles debug root [] entries {}
    if (collected.files.lookup portableEntry).isNone then
      .error (.config s!"View bundle {Utf8.decodeLossy root} must contain {portableEntry}")
    else encode (bundleOf collected.files)
  | .file _ | .symlink | .special =>
    .error <| .config
      s!"View layer path {Utf8.decodeLossy root} must be a directory, not a file or symlink"

end Code

/-! ### Portable names -/

/-- The path a file is bundled under: its names, each of them portable. -/
structure Named (names : List Bytes) (logical : String) : Prop where
  parts : ∃ parts : List String, parts.map Utf8.encode = names ∧
    (∀ part ∈ parts, validateComponent part.toList = .ok ()) ∧ logical = "/".intercalate parts
  nonempty : logical.utf8ByteSize ≠ 0
  fits : logical.utf8ByteSize ≤ maxPathBytes

section Names
variable {debug : String → String} {names : List Bytes} {logical : String}

theorem portableComponent_ok {path part : Bytes} {text : String} :
    portableComponent debug path (.normal part) = .ok text ↔
      Utf8.encode text = part ∧ validateComponent text.toList = .ok () := by
  cases hdecode : Utf8.decode part with
  | none =>
    have hnot : Utf8.encode text ≠ part := by
      rintro rfl
      rw [Utf8.decode_encode] at hdecode
      cases hdecode
    simp [portableComponent, hdecode, hnot]
  | some spelled =>
    obtain rfl := Utf8.decode_eq_some.mp hdecode
    rw [portableComponent, hdecode, Utf8.encode_injective.eq_iff]
    cases hvalid : validateComponent spelled.toList with
    | error fault =>
      simp only [hvalid, reduceCtorEq, false_iff]
      rintro ⟨rfl, hok⟩
      rw [hvalid] at hok
      cases hok
    | ok valid =>
      simp only [hvalid, Except.ok.injEq]
      constructor
      · rintro rfl
        exact ⟨rfl, hvalid⟩
      · rintro ⟨rfl, -⟩
        rfl

theorem parts_ok {path : Bytes} {parts : List String} :
    (names.map Rootfs.Component.normal).mapM (portableComponent debug path) = .ok parts ↔
      parts.map Utf8.encode = names ∧ ∀ part ∈ parts, validateComponent part.toList = .ok () := by
  rw [mapM_pointwise, List.forall₂_map_left_iff]
  simp only [portableComponent_ok]
  induction names generalizing parts with
  | nil => cases parts <;> simp
  | cons name names ih =>
    cases parts with
    | nil => simp
    | cons part parts => simp [ih, and_and_and_comm]

theorem portablePath_ok (hplain : ∀ name ∈ names, PlainName name) :
    portablePath debug (joined names) = .ok logical ↔ Named names logical := by
  rw [portablePath, components_joined hplain, bind_ok]
  constructor
  · rintro ⟨parts, hparts, h⟩
    obtain ⟨hnames, hvalid⟩ := parts_ok.mp hparts
    obtain ⟨hsize, h⟩ := guard_ok.mp h
    cases h
    obtain ⟨hnonempty, hfits⟩ := not_or.mp hsize
    exact ⟨⟨parts, hnames, hvalid, rfl⟩, hnonempty, not_lt.mp hfits⟩
  · rintro ⟨⟨parts, hnames, hvalid, rfl⟩, hnonempty, hfits⟩
    exact ⟨parts, parts_ok.mpr ⟨hnames, hvalid⟩,
      guard_ok.mpr ⟨not_or.mpr ⟨hnonempty, not_lt.mpr hfits⟩, rfl⟩⟩

theorem Named.encode (h : Named names logical) : Utf8.encode logical = joined names := by
  obtain ⟨parts, rfl, -, rfl⟩ := h.parts
  exact encode_intercalate parts

theorem component_portable {part : List Char} (h : PortablePart part) :
    component part = some (.normal part) := by
  unfold component
  split
  · exact absurd rfl h.nonempty
  · exact absurd rfl h.noDot
  · exact absurd rfl h.noParent
  · rfl

theorem components_portable {path : List Char} {parts : List (List Char)}
    (hsplit : path.splitOn '/' = parts) (h : ∀ part ∈ parts, PortablePart part) :
    components path = parts.map .normal := by
  have hbody : parts.filterMap component = parts.map .normal := by
    rw [← List.filterMap_eq_map]
    exact List.filterMap_congr fun part hpart => component_portable (h part hpart)
  unfold components
  dsimp only
  rw [hsplit, hbody]
  split
  · exact absurd rfl (h [] List.mem_cons_self).nonempty
  · exact absurd rfl (h ['.'] List.mem_cons_self).noDot
  · rfl

/-- A path made of portable names is in its portable form. -/
theorem Named.portable (h : Named names logical) :
    View.portablePath logical = .ok logical ∧ Normal logical := by
  obtain ⟨parts, -, hvalid, hlogical⟩ := h.parts
  have hparts : ∀ part ∈ parts.map String.toList, PortablePart part := by
    intro part hpart
    obtain ⟨text, htext, rfl⟩ := List.mem_map.mp hpart
    exact validateComponent_portable (hvalid text htext)
  have hne : parts.map String.toList ≠ [] := by
    intro hnil
    obtain rfl := List.map_eq_nil_iff.mp hnil
    rw [hlogical] at h
    exact h.nonempty rfl
  have hlist : logical.toList = ['/'].intercalate (parts.map String.toList) := by
    rw [hlogical, String.toList_intercalate]
    rfl
  have hsplit : logical.toList.splitOn '/' = parts.map String.toList := by
    rw [hlist]
    exact splitOn_join hne fun part hpart => (hparts part hpart).no_slash
  refine ⟨View.portablePath_ok.mpr ⟨_, components_portable hsplit hparts, ?_, ?_, ?_⟩, ?_⟩
  · intro part hpart
    obtain ⟨text, htext, rfl⟩ := List.mem_map.mp hpart
    exact hvalid text htext
  · rw [← hlist, String.ofList_toList]
  · exact not_or.mpr ⟨h.nonempty, not_lt.mpr h.fits⟩
  · intro segment hsegment
    rw [hsplit] at hsegment
    exact ⟨(hparts segment hsegment).nonempty, (hparts segment hsegment).noDot⟩

theorem assetCharacter_ascii {c : Char} (h : assetCharacter c = true) : c.toNat < 128 := by
  simp only [assetCharacter, isAsciiAlphanumeric, Bool.or_eq_true, Bool.and_eq_true,
    decide_eq_true_eq, beq_iff_eq] at h
  rcases h with ((((⟨_, hc⟩ | ⟨_, hc⟩) | ⟨_, hc⟩) | rfl) | rfl) | rfl
  · exact lt_of_le_of_lt (show c.toNat ≤ 122 from hc) (by decide)
  · exact lt_of_le_of_lt (show c.toNat ≤ 90 from hc) (by decide)
  · exact lt_of_le_of_lt (show c.toNat ≤ 57 from hc) (by decide)
  · decide
  · decide
  · decide

theorem slash_not_mem {part : String} (h : PortablePart part.toList) :
    slash ∉ Utf8.encode part := by
  have hascii : ∀ n < 128, assetCharacter (Char.ofNat n) = true →
      slash ∉ Utf8.encode (String.singleton (Char.ofNat n)) := by
    decide
  refine Utf8.not_mem_encode fun c hc => ?_
  have hasset := h.characters c hc
  have hchar := hascii c.toNat (assetCharacter_ascii hasset)
  rw [Char.ofNat_toNat] at hchar
  exact hchar hasset

theorem PortablePart.plain {part : String} (h : PortablePart part.toList) :
    PlainName (Utf8.encode part) := by
  have hne {text : String} (hdiffers : part.toList ≠ text.toList) :
      Utf8.encode part ≠ Utf8.encode text := fun heq =>
    hdiffers (congrArg String.toList (Utf8.encode_injective heq))
  have hempty : part.toList ≠ "".toList := h.nonempty
  have hdot : part.toList ≠ ".".toList := h.noDot
  have hdots : part.toList ≠ "..".toList := h.noParent
  exact ⟨hne hempty, slash_not_mem h, hne hdot, hne hdots⟩

/-- A path in its portable form is made of portable names. -/
theorem exists_named (hportable : View.portablePath logical = .ok logical) :
    ∃ names, (∀ name ∈ names, PlainName name) ∧ Named names logical := by
  obtain ⟨parts, -, hvalid, hlogical, hsize⟩ := View.portablePath_ok.mp hportable
  obtain ⟨hnonempty, hfits⟩ := not_or.mp hsize
  have htexts : logical = "/".intercalate (parts.map String.ofList) := by
    have hlist : logical.toList = ("/".intercalate (parts.map String.ofList)).toList := by
      rw [hlogical, String.toList_intercalate, String.toList_ofList, List.map_map]
      simp [Function.comp_def]
    exact String.toList_inj.mp hlist
  refine ⟨_, ?_, ⟨parts.map String.ofList, rfl, ?_, htexts⟩, hnonempty, not_lt.mp hfits⟩
  · intro name hname
    obtain ⟨text, htext, rfl⟩ := List.mem_map.mp hname
    obtain ⟨part, hpart, rfl⟩ := List.mem_map.mp htext
    refine PortablePart.plain ?_
    rw [String.toList_ofList]
    exact validateComponent_portable (hvalid part hpart)
  · intro text htext
    obtain ⟨part, hpart, rfl⟩ := List.mem_map.mp htext
    rw [String.toList_ofList]
    exact hvalid part hpart

theorem Named.of_portable (hportable : View.portablePath logical = .ok logical)
    (hencode : Utf8.encode logical = joined names) (hplain : ∀ name ∈ names, PlainName name) :
    Named names logical := by
  obtain ⟨found, hfound, hnamed⟩ := exists_named hportable
  obtain rfl := joined_injective hfound hplain (hnamed.encode.symm.trans hencode)
  exact hnamed

end Names

/-! ### The walk -/

section Walk
variable {debug : String → String} {root : Bytes} {collected after : Collected}

mutual
theorem collectNode_ok : ∀ {path : List Bytes} {node : Node} {collected after : Collected},
    collectNode debug root path node collected = .ok after ↔ node.Regular ∧
      node.files.foldlM (fun collected file =>
        collectFile debug root (path ++ file.1) file.2 collected) collected = .ok after
  | path, .file content, collected, after => by
    simp [collectNode, Node.Regular, Node.files, bind_ok]
  | path, .directory entries, collected, after => by
    rw [collectNode, Node.Regular, Node.files]
    exact collectFiles_ok
  | path, .symlink, collected, after => by simp [collectNode, Node.Regular]
  | path, .special, collected, after => by simp [collectNode, Node.Regular]

/-- The walk takes down one file after another, and gives up where there is anything but files and
directories. -/
theorem collectFiles_ok : ∀ {directory : List Bytes} {entries : Entries}
    {collected after : Collected},
    collectFiles debug root directory entries collected = .ok after ↔ Regular entries ∧
      (filesOf entries).foldlM (fun collected file =>
        collectFile debug root (directory ++ file.1) file.2 collected) collected = .ok after
  | directory, [], collected, after => by simp [collectFiles, Regular, filesOf]
  | directory, (name, node) :: rest, collected, after => by
    have hinner : (node.files.map fun file => (name :: file.1, file.2)).foldlM
        (fun collected file => collectFile debug root (directory ++ file.1) file.2 collected)
        collected = node.files.foldlM (fun collected file =>
          collectFile debug root (directory ++ [name] ++ file.1) file.2 collected) collected := by
      simp [List.foldlM_map]
    rw [collectFiles, bind_ok, Regular, filesOf, List.foldlM_append, hinner]
    constructor
    · rintro ⟨next, hnext, hafter⟩
      obtain ⟨hnode, hnext⟩ := collectNode_ok.mp hnext
      obtain ⟨hrest, hafter⟩ := collectFiles_ok.mp hafter
      exact ⟨⟨hnode, hrest⟩, bind_ok.mpr ⟨next, hnext, hafter⟩⟩
    · rintro ⟨⟨hnode, hrest⟩, h⟩
      obtain ⟨next, hnext, hafter⟩ := bind_ok.mp h
      exact ⟨next, collectNode_ok.mpr ⟨hnode, hnext⟩, collectFiles_ok.mpr ⟨hrest, hafter⟩⟩
end

/-- The files that fit in one bundle. -/
structure Admitted (files : List (String × Bytes)) : Prop where
  count : files.length ≤ maxFiles
  fileBytes : ∀ file ∈ files, file.2.length ≤ maxFileBytes
  bundleBytes : (files.map fun file => file.2.length).sum ≤ maxBundleBytes
  distinct : (files.map fun file => folded file.1).Nodup

theorem Admitted.cons {logical : String} {content : Bytes} {files : List (String × Bytes)} :
    Admitted ((logical, content) :: files) ↔ Admitted files ∧ files.length < maxFiles ∧
      content.length ≤ maxFileBytes ∧
      (files.map fun file => file.2.length).sum + content.length ≤ maxBundleBytes ∧
      folded logical ∉ files.map fun file => folded file.1 := by
  constructor
  · rintro ⟨hcount, hbytes, hsum, hdistinct⟩
    obtain ⟨hfirst, hrest⟩ := List.forall_mem_cons.mp hbytes
    obtain ⟨hfresh, hnodup⟩ := List.nodup_cons.mp hdistinct
    simp only [List.map_cons, List.sum_cons] at hsum
    rw [List.length_cons] at hcount
    exact ⟨⟨by omega, hrest, by omega, hnodup⟩, by omega, hfirst, by omega, hfresh⟩
  · rintro ⟨⟨hcount, hbytes, hsum, hdistinct⟩, hroom, hfirst, htotal, hfresh⟩
    refine ⟨?_, List.forall_mem_cons.mpr ⟨hfirst, hbytes⟩, ?_,
      List.nodup_cons.mpr ⟨hfresh, hdistinct⟩⟩
    · rw [List.length_cons]
      omega
    · simp only [List.map_cons, List.sum_cons]
      omega

theorem Admitted.of_append {before files : List (String × Bytes)} (h : Admitted (before ++ files)) :
    Admitted files := by
  induction before with
  | nil => exact h
  | cons entry before ih => exact ih (Admitted.cons.mp h).1

theorem Admitted.perm {files others : List (String × Bytes)} (h : Admitted files)
    (hperm : files.Perm others) : Admitted others where
  count := by
    rw [← hperm.length_eq]
    exact h.count
  fileBytes := fun file hfile => h.fileBytes file (hperm.mem_iff.mpr hfile)
  bundleBytes := by
    rw [← (hperm.map fun file : String × Bytes => file.2.length).sum_nat]
    exact h.bundleBytes
  distinct := (hperm.map fun file : String × Bytes => folded file.1).nodup_iff.mp h.distinct

/-- What the walk has taken down where these files are taken, the last one first. -/
def taken (files : List (String × Bytes)) : Collected where
  files
  foldedPaths := files.map fun file => folded file.1
  totalBytes := (files.map fun file => file.2.length).sum

theorem insert_fresh {files : List (String × Bytes)} {logical : String}
    (hfresh : folded logical ∉ files.map fun file => folded file.1) (content : Bytes) :
    Table.insert files logical content = (logical, content) :: files := by
  have hother : ∀ file ∈ files, file.1 ≠ logical := by
    rintro file hfile rfl
    exact hfresh (List.mem_map_of_mem hfile)
  have hkept : Table.erase files logical = files :=
    List.filter_eq_self.mpr fun file hfile => by simpa using hother file hfile
  rw [Table.insert, hkept]

theorem collectFile_ok {path : List Bytes} {content : Bytes} {files : List (String × Bytes)}
    (hplain : ∀ name ∈ path, PlainName name) (h : Admitted files) :
    collectFile debug root path content (taken files) = .ok after ↔ ∃ logical, Named path logical ∧
      Admitted ((logical, content) :: files) ∧ after = taken ((logical, content) :: files) := by
  have hwide : maxBundleBytes < UInt64.size := by decide
  simp only [collectFile, guard_ok, bind_ok, portablePath_ok hplain, not_le, not_lt,
    List.contains_iff_mem]
  constructor
  · rintro ⟨hroom, hbytes, -, htotal, logical, hlogical, hfresh, hafter⟩
    refine ⟨logical, hlogical, Admitted.cons.mpr ⟨h, hroom, hbytes, htotal, hfresh⟩, ?_⟩
    rw [← Except.ok.inj hafter, show (taken files).files = files from rfl, insert_fresh hfresh]
    simp [taken, Nat.add_comm]
  · rintro ⟨logical, hlogical, hadmitted, rfl⟩
    obtain ⟨-, hroom, hbytes, htotal, hfresh⟩ := Admitted.cons.mp hadmitted
    refine ⟨hroom, hbytes, lt_of_le_of_lt htotal hwide, htotal, logical, hlogical, hfresh, ?_⟩
    rw [show (taken files).files = files from rfl, insert_fresh hfresh]
    simp [taken, Nat.add_comm]

/-- A file of a directory is bundled. -/
structure Bundled (file : List Bytes × Bytes) (entry : String × Bytes) : Prop where
  named : Named file.1 entry.1
  content : entry.2 = file.2

theorem collected_ok {list : List (List Bytes × Bytes)} {files : List (String × Bytes)}
    (hplain : ∀ file ∈ list, ∀ name ∈ file.1, PlainName name) (h : Admitted files) :
    list.foldlM (fun collected file => collectFile debug root file.1 file.2 collected)
        (taken files) = .ok after ↔
      ∃ found, List.Forall₂ Bundled list found ∧ Admitted (found.reverse ++ files) ∧
        after = taken (found.reverse ++ files) := by
  induction list generalizing files with
  | nil =>
    simp only [List.foldlM_nil, pure_ok, Except.ok.injEq, List.forall₂_nil_left_iff, exists_eq_left,
      List.reverse_nil, List.nil_append, h, true_and, eq_comm]
  | cons file rest ih =>
    obtain ⟨hfile, hrest⟩ := List.forall_mem_cons.mp hplain
    rw [List.foldlM_cons, bind_ok]
    constructor
    · rintro ⟨next, hnext, hafter⟩
      obtain ⟨logical, hlogical, hadmitted, rfl⟩ := (collectFile_ok hfile h).mp hnext
      obtain ⟨found, hfound, hall, rfl⟩ := (ih hrest hadmitted).mp hafter
      refine ⟨(logical, file.2) :: found, .cons ⟨hlogical, rfl⟩ hfound, ?_, ?_⟩
      · simpa using hall
      · simp
    · rintro ⟨found, hfound, hall, rfl⟩
      obtain ⟨⟨logical, content⟩, others, ⟨hlogical, rfl⟩, hothers, rfl⟩ :=
        List.forall₂_cons_left_iff.mp hfound
      rw [List.reverse_cons, List.append_assoc, List.singleton_append] at hall
      have hadmitted := hall.of_append
      refine ⟨_, (collectFile_ok hfile h).mpr ⟨logical, hlogical, hadmitted, rfl⟩,
        (ih hrest hadmitted).mpr ⟨others, hothers, hall, ?_⟩⟩
      rw [List.reverse_cons, List.append_assoc, List.singleton_append]

end Walk
/-! ### The bundle -/

/-- A bundle shows a directory: its assets are the files of the directory, under their paths. -/
structure Shows (tree : SourceTree) (bundle : ViewBundle) : Prop where
  regular : Regular tree.entries
  wellFormed : WellFormed bundle
  portable : ∀ asset ∈ bundle.files, View.portablePath asset.path = .ok asset.path
  files : ∀ names content, (names, content) ∈ tree.files ↔ (∀ name ∈ names, PlainName name) ∧
    ∃ asset ∈ bundle.files, Utf8.encode asset.path = joined names ∧ asset.bytes = content

section Bundle
variable {debug : String → String} {root : Bytes} {tree other : SourceTree} {bundle : ViewBundle}
  {found files others : List (String × Bytes)} {bytes : Bytes}

theorem Admitted.keys_nodup (h : Admitted files) : (files.map Prod.fst).Nodup :=
  List.Nodup.of_map folded (by simpa [List.map_map, Function.comp_def] using h.distinct)

theorem mem_bundleOf {asset : ViewFile} :
    asset ∈ (bundleOf files).files ↔ (asset.path, asset.bytes) ∈ files := by
  rw [bundleOf, List.mem_map]
  constructor
  · rintro ⟨⟨path, bytes⟩, hmem, rfl⟩
    exact (List.mem_insertionSort _).mp hmem
  · exact fun hmem => ⟨_, (List.mem_insertionSort _).mpr hmem, rfl⟩

theorem bundleOf_perm (h : Admitted files) (hperm : files.Perm others) :
    bundleOf files = bundleOf others := by
  have hkey : ∀ left ∈ files, ∀ right ∈ files, left.1 = right.1 → left = right :=
    fun left hleft right hright heq => List.inj_on_of_nodup_map h.keys_nodup hleft hright heq
  rw [bundleOf, bundleOf, Sorting.sorted_congr hkey hperm]

theorem bundleOf_wellFormed (h : Admitted files) (hentry : portableEntry ∈ files.map Prod.fst)
    (hportable : ∀ file ∈ files, View.portablePath file.1 = .ok file.1) :
    WellFormed (bundleOf files) := by
  have hperm := List.perm_insertionSort (fun left right : String × Bytes => left.1 ≤ right.1) files
  obtain ⟨⟨_, content⟩, hmem, rfl⟩ := List.mem_map.mp hentry
  have hasset : ⟨portableEntry, content⟩ ∈ (bundleOf files).files := mem_bundleOf.mpr hmem
  refine ⟨rfl, rfl, List.ne_nil_of_mem hasset, ?_, ?_, ?_, ?_, ?_, ?_, ⟨_, hasset, rfl⟩⟩
  · rw [bundleOf, List.length_map, List.length_insertionSort]
    exact h.count
  · exact fun asset hasset =>
      ⟨_, hportable (asset.path, asset.bytes) (mem_bundleOf.mp hasset)⟩
  · exact List.pairwise_map.mpr (Sorting.sorted_lt h.keys_nodup)
  · have hfolded := (hperm.map fun file : String × Bytes => folded file.1).nodup_iff.mpr h.distinct
    simpa [bundleOf, List.map_map, Function.comp_def] using hfolded
  · exact fun asset hasset => h.fileBytes _ (mem_bundleOf.mp hasset)
  · have hsum := (hperm.map fun file : String × Bytes => file.2.length).sum_nat
    simpa [bundleOf, List.map_map, Function.comp_def, hsum] using h.bundleBytes

/-- What compiling a directory comes to. -/
theorem compileDirectory_found : compileDirectory debug root (.directory tree.entries) = .ok bytes ↔
    ∃ found, Regular tree.entries ∧ List.Forall₂ Bundled tree.files found ∧ Admitted found ∧
      portableEntry ∈ found.map Prod.fst ∧ encode (bundleOf found) = .ok bytes := by
  have hplain : ∀ file ∈ filesOf tree.entries, ∀ name ∈ file.1, PlainName name :=
    fun file hfile => (plain_of_mem_filesOf tree.listed file hfile).1
  have hnothing : Admitted [] := ⟨by decide, nofun, by decide, .nil⟩
  have hlookup : ∀ files : List (String × Bytes),
      ¬(files.lookup portableEntry).isNone = true ↔ portableEntry ∈ files.map Prod.fst := by
    intro files
    cases hfound : files.lookup portableEntry with
    | none => simpa using Lookup.not_mem_of_lookup hfound
    | some content =>
      have hmem : ∃ content, (portableEntry, content) ∈ files :=
        ⟨content, Lookup.mem_of_lookup hfound⟩
      simpa using hmem
  rw [compileDirectory, bind_ok]
  constructor
  · rintro ⟨collected, hcollected, h⟩
    obtain ⟨hregular, hcollected⟩ := collectFiles_ok.mp hcollected
    obtain ⟨found, hfound, hadmitted, rfl⟩ := (collected_ok hplain hnothing).mp hcollected
    obtain ⟨hentry, h⟩ := guard_ok.mp h
    rw [List.append_nil] at hadmitted hentry h
    have hperm := found.reverse_perm
    refine ⟨found, hregular, hfound, hadmitted.perm hperm, ?_, ?_⟩
    · exact (hperm.map Prod.fst).mem_iff.mp ((hlookup _).mp hentry)
    · rw [← bundleOf_perm hadmitted hperm]
      exact h
  · rintro ⟨found, hregular, hfound, hadmitted, hentry, h⟩
    have hperm := found.reverse_perm
    have hreversed := hadmitted.perm hperm.symm
    refine ⟨taken found.reverse, collectFiles_ok.mpr ⟨hregular, ?_⟩, guard_ok.mpr ⟨?_, ?_⟩⟩
    · refine (collected_ok hplain hnothing).mpr ⟨found, hfound, ?_, ?_⟩
      · rwa [List.append_nil]
      · rw [List.append_nil]
    · exact (hlookup _).mpr ((hperm.map Prod.fst).mem_iff.mpr hentry)
    · rw [show (taken found.reverse).files = found.reverse from rfl, bundleOf_perm hreversed hperm]
      exact h

theorem bundleOf_shows (hregular : Regular tree.entries)
    (hfound : List.Forall₂ Bundled tree.files found) (hadmitted : Admitted found)
    (hentry : portableEntry ∈ found.map Prod.fst) : Shows tree (bundleOf found) := by
  have hportable : ∀ file ∈ found, View.portablePath file.1 = .ok file.1 := by
    intro file hfile
    obtain ⟨source, -, hbundled⟩ := exists_of_mem_results hfound hfile
    exact hbundled.named.portable.1
  refine ⟨hregular, bundleOf_wellFormed hadmitted hentry hportable,
    fun asset hasset => hportable (asset.path, asset.bytes) (mem_bundleOf.mp hasset),
    fun names content => ?_⟩
  constructor
  · intro hmem
    obtain ⟨entry, hentry, hbundled⟩ := exists_of_mem_list hfound hmem
    exact ⟨(plain_of_mem_filesOf tree.listed _ hmem).1, ⟨entry.1, entry.2⟩,
      mem_bundleOf.mpr hentry, hbundled.named.encode, hbundled.content⟩
  · rintro ⟨hplain, asset, hasset, hencode, rfl⟩
    obtain ⟨⟨path, content⟩, hmem, hnamed, hcontent⟩ :=
      exists_of_mem_results hfound (mem_bundleOf.mp hasset)
    have hpath := (plain_of_mem_filesOf tree.listed _ hmem).1
    obtain rfl := joined_injective hplain hpath (hencode.symm.trans hnamed.encode)
    rwa [show asset.bytes = content from hcontent]

/-- The files of a bundle by their paths. -/
def entriesOf (bundle : ViewBundle) : List (String × Bytes) :=
  bundle.files.map fun asset => (asset.path, asset.bytes)

theorem mem_entriesOf {entry : String × Bytes} :
    entry ∈ entriesOf bundle ↔ ⟨entry.1, entry.2⟩ ∈ bundle.files := by
  rw [entriesOf, List.mem_map]
  constructor
  · rintro ⟨asset, hasset, rfl⟩
    exact hasset
  · exact fun hmem => ⟨_, hmem, rfl⟩

theorem entriesOf_admitted (h : WellFormed bundle) : Admitted (entriesOf bundle) where
  count := by
    rw [entriesOf, List.length_map]
    exact h.count
  fileBytes := fun _ hentry => h.fileBytes _ (mem_entriesOf.mp hentry)
  bundleBytes := by simpa [entriesOf, List.map_map, Function.comp_def] using h.bundleBytes
  distinct := by simpa [entriesOf, List.map_map, Function.comp_def] using h.distinct

theorem bundleOf_entriesOf (h : WellFormed bundle) : bundleOf (entriesOf bundle) = bundle := by
  have hsorted : (entriesOf bundle).Pairwise fun left right => left.1 ≤ right.1 :=
    List.pairwise_map.mpr (h.ordered.imp fun hlt => le_of_lt hlt)
  obtain ⟨version, entry, files⟩ := bundle
  have hfiles : (entriesOf { version, entry, files }).map
      (fun file : String × Bytes => (⟨file.1, file.2⟩ : ViewFile)) = files := by
    rw [entriesOf, List.map_map]
    exact List.map_id files
  rw [bundleOf, hsorted.insertionSort_eq, hfiles, ← h.version, ← h.entry]

/-- The walk through a directory finds the files of the bundle that shows it. -/
theorem Shows.walked (h : Shows tree bundle) : ∃ found, List.Forall₂ Bundled tree.files found ∧
    found.Perm (entriesOf bundle) := by
  have hbundled : ∀ file ∈ tree.files, ∃ entry, Bundled file entry := by
    rintro ⟨names, content⟩ hfile
    obtain ⟨hplain, asset, hasset, hencode, hcontent⟩ := (h.files names content).mp hfile
    exact ⟨(asset.path, asset.bytes),
      .of_portable (h.portable asset hasset) hencode hplain, hcontent⟩
  obtain ⟨found, hfound⟩ := exists_pointwise hbundled
  refine ⟨found, hfound, (List.perm_ext_iff_of_nodup ?_ ?_).mpr fun entry => ?_⟩
  · -- the names tell the files apart
    have hpaths : tree.files.map (fun file => joined file.1) =
        found.map fun entry => Utf8.encode entry.1 :=
      map_eq_of_pointwise hfound fun file entry hentry => hentry.named.encode.symm
    have hnames : (tree.files.map fun file => joined file.1).Nodup := by
      have hnodup := (filesOf_nodup tree.listed).map_on (f := joined) ?_
      · simpa [SourceTree.files, List.map_map, Function.comp_def] using hnodup
      · intro names hnames others hothers heq
        obtain ⟨file, hfile, rfl⟩ := List.mem_map.mp hnames
        obtain ⟨second, hsecond, rfl⟩ := List.mem_map.mp hothers
        exact joined_injective (plain_of_mem_filesOf tree.listed _ hfile).1
          (plain_of_mem_filesOf tree.listed _ hsecond).1 heq
    exact List.Nodup.of_map _ (hpaths ▸ hnames)
  · exact List.Nodup.of_map _ (entriesOf_admitted h.wellFormed).keys_nodup
  · rw [mem_entriesOf]
    constructor
    · intro hentry
      obtain ⟨⟨names, content⟩, hfile, hnamed, hcontent⟩ := exists_of_mem_results hfound hentry
      obtain ⟨-, asset, hasset, hencode, rfl⟩ := (h.files names content).mp hfile
      have hpath := Utf8.encode_injective (hnamed.encode.trans hencode.symm)
      obtain ⟨path, bytes⟩ := asset
      rwa [hpath, hcontent]
    · intro hasset
      obtain ⟨names, hplain, hnamed⟩ := exists_named (h.portable _ hasset)
      have hfile := (h.files names entry.2).mpr ⟨hplain, _, hasset, hnamed.encode, rfl⟩
      obtain ⟨⟨path, content⟩, hmem, hbundled⟩ := exists_of_mem_list hfound hfile
      have hpath := Utf8.encode_injective (hbundled.named.encode.trans hnamed.encode.symm)
      obtain ⟨logical, bytes⟩ := entry
      obtain rfl : path = logical := hpath
      obtain rfl : content = bytes := hbundled.content
      exact hmem

theorem Shows.decodes (h : Shows tree bundle) :
    encode bundle = .ok bytes ↔ decode bytes = .ok bundle := by
  obtain ⟨hdecodes, hencodes⟩ := bundle_round_trip bundle bytes
  refine ⟨fun hencode => (hdecodes hencode).mpr fun asset hasset => ?_, hencodes⟩
  obtain ⟨_, -, hnamed⟩ := exists_named (h.portable asset hasset)
  exact hnamed.fits

theorem compileDirectory_shows : compileDirectory debug root (.directory tree.entries) = .ok bytes ↔
    ∃ bundle, Shows tree bundle ∧ decode bytes = .ok bundle := by
  rw [compileDirectory_found]
  constructor
  · rintro ⟨found, hregular, hfound, hadmitted, hentry, hencode⟩
    have hshows := bundleOf_shows hregular hfound hadmitted hentry
    exact ⟨_, hshows, hshows.decodes.mp hencode⟩
  · rintro ⟨bundle, hshows, hdecode⟩
    obtain ⟨found, hfound, hperm⟩ := hshows.walked
    have hadmitted := (entriesOf_admitted hshows.wellFormed).perm hperm.symm
    obtain ⟨asset, hasset, hentry⟩ := hshows.wellFormed.hasEntry
    have hmem : (asset.path, asset.bytes) ∈ found :=
      hperm.mem_iff.mpr (List.mem_map.mpr ⟨asset, hasset, rfl⟩)
    refine ⟨found, hshows.regular, hfound, hadmitted, List.mem_map.mpr ⟨_, hmem, ?_⟩, ?_⟩
    · exact hentry.trans hshows.wellFormed.entry
    · rw [bundleOf_perm hadmitted hperm, bundleOf_entriesOf hshows.wellFormed]
      exact hshows.decodes.mpr hdecode

/-- Every bundle that shows a directory is what the directory compiles to. -/
theorem Shows.compiles (h : Shows tree bundle) :
    ∃ bytes, encode bundle = .ok bytes ∧
      compileDirectory debug root (.directory tree.entries) = .ok bytes := by
  have hlengths : ∀ asset ∈ bundle.files, asset.path.utf8ByteSize < 2 ^ 32 := by
    intro asset hasset
    obtain ⟨_, -, hnamed⟩ := exists_named (h.portable asset hasset)
    exact lt_of_le_of_lt hnamed.fits (by decide)
  have hencode := encode_ok.mpr ⟨h.wellFormed, hlengths, rfl⟩
  exact ⟨_, hencode, compileDirectory_shows.mpr ⟨bundle, h, h.decodes.mp hencode⟩⟩

theorem Shows.congr (h : Shows tree bundle) (hregular : Regular other.entries)
    (hfiles : ∀ file, file ∈ other.files ↔ file ∈ tree.files) : Shows other bundle where
  regular := hregular
  wellFormed := h.wellFormed
  portable := h.portable
  files := fun names content => (hfiles _).trans (h.files names content)

end Bundle

/-- A directory compiles to just the bytes that decode to a bundle that shows it, and compiles where
there is such a bundle. So neither the order in which it is listed nor where it stands matters, and
directories that compile to the same bytes have the same files. -/
theorem compileDirectory_faithful (debug debug' : String → String) (root root' : Bytes)
    (tree other : SourceTree) :
    (∀ bytes, compileDirectory debug root (.directory tree.entries) = .ok bytes ↔
      ∃ bundle, Shows tree bundle ∧ decode bytes = .ok bundle) ∧
    (∀ bundle, Shows tree bundle → ∃ bytes, encode bundle = .ok bytes ∧
      compileDirectory debug root (.directory tree.entries) = .ok bytes) ∧
    ∀ bytes, compileDirectory debug root (.directory tree.entries) = .ok bytes →
      (compileDirectory debug' root' (.directory other.entries) = .ok bytes ↔
        Regular other.entries ∧ ∀ file, file ∈ other.files ↔ file ∈ tree.files) := by
  refine ⟨fun bytes => compileDirectory_shows, fun bundle hshows => hshows.compiles,
    fun bytes hbytes => ?_⟩
  obtain ⟨bundle, hshows, hdecode⟩ := compileDirectory_shows.mp hbytes
  rw [compileDirectory_shows]
  constructor
  · rintro ⟨second, hother, hsecond⟩
    obtain rfl := Except.ok.inj (hdecode.symm.trans hsecond)
    exact ⟨hother.regular, fun file => (hother.files file.1 file.2).trans
      (hshows.files file.1 file.2).symm⟩
  · rintro ⟨hregular, hfiles⟩
    exact ⟨bundle, hshows.congr hregular hfiles, hdecode⟩

end HologramLive.View.Directory
