import HologramLive.Lib.Framing
import HologramLive.Lib.Sorting
import HologramLive.Python.SourceTree
import HologramLive.Store.Disk

/-! The fingerprint of the sources a component is built from, and the copy it is taken of. -/

namespace HologramLive.Python
open Lib Lib.Result Store Rootfs

/-! ### What the code does -/

/-- The text a component of a relative path adds to its logical path. -/
def logicalComponent (path : Bytes) : Component → Except LiveError (List String)
  | .curDir => .ok []
  | .normal value =>
    match Utf8.decode value with
    | some text => .ok [text]
    | none =>
      .error (.config s!"Python source path {Utf8.decodeLossy path} is not UTF-8")
  | .parentDir | .rootDir =>
    .error <| .config
      s!"Python source path {Utf8.decodeLossy path} is not a normalized relative path"

def logicalPath (path : Bytes) : Except LiveError String := do
  if path = [] then .ok "."
  else
    let normalized ← (components path).mapM (logicalComponent path)
    .ok (if normalized.flatten = [] then "." else "/".intercalate normalized.flatten)

/-- A file the walk found: where it is, what it goes by, and what reading it gives. -/
structure SourceFile where
  path : List Bytes
  relative : String
  content : Bytes

def byRelative (files : List SourceFile) : List SourceFile :=
  files.insertionSort fun left right => left.relative ≤ right.relative

section Walk
variable (root : Bytes)

mutual
def visitNode (path : List Bytes) : Node → Except LiveError (List SourceFile)
  | .symlink =>
    .error <| .config (s!"Python source tree contains a symlink at {display path}; " ++
      "source inputs must be regular files and directories")
  | .directory entries => visit path entries
  | .file content => do
    let relative ← logicalPath (joined path)
    .ok [⟨path, relative, content⟩]
  | .special =>
    .error (.config s!"Python source tree contains unsupported input {display (root :: path)}")

/-- The walk through a directory, in the order in which it is listed. -/
def visit (directory : List Bytes) : Entries → Except LiveError (List SourceFile)
  | [] => .ok []
  | (name, node) :: rest => do
    let found ← visitNode (directory ++ [name]) node
    let others ← visit directory rest
    .ok (found ++ others)
end

def sourceFiles (entries : Entries) : Except LiveError (List SourceFile) := do
  let files ← visit root [] entries
  .ok (byRelative files)

def treeHeader : Bytes := Utf8.encode "hologram-python-source-tree-v1" ++ [0]

/-- What is hashed for one file. -/
def fedFile (file : SourceFile) : Bytes :=
  LittleEndian.encode 8 (min (Utf8.encode file.relative).length DiskStore.u64Max) ++
    Utf8.encode file.relative ++ LittleEndian.encode 8 file.content.length ++ file.content

/-- What `sha256SourceTree` feeds to its hash. -/
def fedSourceTree (entries : Entries) : Except LiveError Bytes := do
  let files ← sourceFiles root entries
  .ok (treeHeader ++ files.flatMap fedFile)

def sha256SourceTree (sha256 : Bytes → Vector UInt8 32) (entries : Entries) :
    Except LiveError String := do
  let fed ← fedSourceTree root entries
  .ok (hex (sha256 fed).toList)

/-! ### Copying -/

/-- Put a node under a name, in place of what stands there. -/
def update (name : Bytes) (change : Option Node → Except String Node) :
    Entries → Except String Entries
  | [] => do
    let node ← change none
    .ok [(name, node)]
  | (other, node) :: rest =>
    if other = name then do
      let node ← change (some node)
      .ok ((other, node) :: rest)
    else do
      let rest ← update name change rest
      .ok ((other, node) :: rest)

/-- Create the directories on the way to a path and copy a file there. -/
def place (content : Bytes) : List Bytes → Entries → Except String Entries
  | [], _ => .error "Is a directory"
  | [name], entries =>
    update name (fun
      | none | some (.file _) => .ok (.file content)
      | some (.directory _) => .error "Is a directory"
      | some _ => .error "No such file or directory") entries
  | name :: second :: names, entries =>
    update name (fun
      | none => (place content (second :: names) []).map .directory
      | some (.directory inner) => (place content (second :: names) inner).map .directory
      | some _ => .error "Not a directory") entries

def copyFile (destination : Entries) (file : SourceFile) : Except LiveError Entries :=
  (place file.content (Rootfs.names (Utf8.encode file.relative)) destination).mapError fun error =>
    .io s!"{display (root :: file.path)}: {error}"

/-- What a new directory holds after a source tree was copied to it. -/
def copySourceTree (entries : Entries) : Except LiveError Entries := do
  let files ← sourceFiles root entries
  files.foldlM (copyFile root) []

end Walk

/-! ### Logical paths -/

section Paths
variable {path : List Bytes} {text : String}

theorem encode_intercalate (texts : List String) :
    Utf8.encode ("/".intercalate texts) = joined (texts.map Utf8.encode) := by
  induction texts with
  | nil => rfl
  | cons text texts ih =>
    cases texts with
    | nil => simp [joined]
    | cons second texts =>
      have hslash : Utf8.encode "/" = [slash] := by decide
      rw [String.intercalate_cons_cons, Utf8.encode_append, Utf8.encode_append, ih, hslash]
      simp [joined]

theorem exists_joined (h : ∀ name ∈ path, ∃ text, Utf8.encode text = name) :
    ∃ text, Utf8.encode text = joined path := by
  obtain ⟨texts, htexts⟩ := exists_pointwise h
  have hmap : path.map id = texts.map Utf8.encode :=
    map_eq_of_pointwise htexts fun name text htext => htext.symm
  rw [List.map_id] at hmap
  exact ⟨"/".intercalate texts, by rw [encode_intercalate, hmap]⟩

theorem logicalComponent_ok {whole name : Bytes} {texts : List String} :
    logicalComponent whole (.normal name) = .ok texts ↔ ∃ text, texts = [text] ∧
      Utf8.encode text = name := by
  cases hdecode : Utf8.decode name with
  | some text =>
    obtain rfl := Utf8.decode_eq_some.mp hdecode
    simp [logicalComponent, hdecode, Utf8.encode_injective.eq_iff, eq_comm]
  | none =>
    have hnot : ∀ text, Utf8.encode text ≠ name := by
      rintro text rfl
      rw [Utf8.decode_encode] at hdecode
      cases hdecode
    simp [logicalComponent, hdecode, hnot]

/-- The logical path of plain names spells them as they are. -/
theorem logicalPath_ok (hne : path ≠ []) (hplain : ∀ name ∈ path, PlainName name) :
    logicalPath (joined path) = .ok text ↔
      Utf8.encode text = joined path ∧ ∀ name ∈ path, ∃ text, Utf8.encode text = name := by
  have hjoined : joined path ≠ [] := (joined_safe hne hplain).1.1
  have hspelled : ∀ {names : List Bytes} {parts : List (List String)},
      List.Forall₂ (fun component part => logicalComponent (joined path) component = .ok part)
        (names.map .normal) parts →
      parts.flatten.map Utf8.encode = names := by
    intro names parts h
    induction names generalizing parts with
    | nil =>
      cases h
      rfl
    | cons name names ih =>
      obtain ⟨part, rest, hfirst, hrest, rfl⟩ := List.forall₂_cons_left_iff.mp h
      obtain ⟨text, rfl, rfl⟩ := logicalComponent_ok.mp hfirst
      simp [ih hrest]
  rw [logicalPath, if_neg hjoined, components_joined hplain]
  constructor
  · intro h
    obtain ⟨parts, hparts, h⟩ := bind_ok.mp h
    have htexts := hspelled (mapM_ok hparts)
    have hsome : parts.flatten ≠ [] := by
      intro hnil
      rw [hnil] at htexts
      exact hne htexts.symm
    rw [if_neg hsome, Except.ok.injEq] at h
    subst h
    rw [encode_intercalate, htexts]
    refine ⟨rfl, fun name hname => ?_⟩
    rw [← htexts] at hname
    obtain ⟨text, -, rfl⟩ := List.mem_map.mp hname
    exact ⟨text, rfl⟩
  · rintro ⟨htext, hnames⟩
    have hparts : ∃ parts, (path.map Component.normal).mapM (logicalComponent (joined path)) =
        .ok parts := by
      refine exists_mapM_ok fun component hcomponent => ?_
      obtain ⟨name, hname, rfl⟩ := List.mem_map.mp hcomponent
      obtain ⟨text, htext⟩ := hnames name hname
      exact ⟨[text], logicalComponent_ok.mpr ⟨text, rfl, htext⟩⟩
    obtain ⟨parts, hparts⟩ := hparts
    have htexts := hspelled (mapM_ok hparts)
    have hsome : parts.flatten ≠ [] := by
      intro hnil
      rw [hnil] at htexts
      exact hne htexts.symm
    rw [hparts, ok_bind, if_neg hsome, Except.ok.injEq]
    apply Utf8.encode_injective
    rw [encode_intercalate, htexts, htext]

theorem joined_injective {others : List Bytes} (hplain : ∀ name ∈ path, PlainName name)
    (hothers : ∀ name ∈ others, PlainName name) (h : joined path = joined others) :
    path = others := by
  have hcomponents := congrArg components h
  rw [components_joined hplain, components_joined hothers] at hcomponents
  exact (List.map_injective_iff.mpr fun _ _ heq => Component.normal.inj heq) hcomponents

end Paths

/-! ### The walk -/

/-- What the walk takes down of a file under a directory. -/
structure Found (directory : List Bytes) (file : List Bytes × Bytes) (source : SourceFile) : Prop where
  path : source.path = directory ++ file.1
  content : source.content = file.2
  relative : logicalPath (joined source.path) = .ok source.relative

theorem found_cons {directory : List Bytes} {name : Bytes} {file : List Bytes × Bytes}
    {source : SourceFile} :
    Found directory (name :: file.1, file.2) source ↔ Found (directory ++ [name]) file source := by
  refine ⟨fun ⟨hpath, hcontent, hrelative⟩ => ⟨?_, hcontent, hrelative⟩,
    fun ⟨hpath, hcontent, hrelative⟩ => ⟨?_, hcontent, hrelative⟩⟩
  · simp [hpath]
  · simp [hpath]

section Walk
variable {root : Bytes}

mutual
theorem visitNode_ok : ∀ {path : List Bytes} {node : Node} {found : List SourceFile},
    visitNode root path node = .ok found ↔
      node.Regular ∧ List.Forall₂ (Found path) node.files found
  | path, .file content, found => by
    simp only [visitNode, Node.Regular, Node.files, true_and]
    rw [bind_ok]
    constructor
    · rintro ⟨relative, hrelative, h⟩
      cases h
      exact .cons ⟨by simp, rfl, hrelative⟩ .nil
    · intro h
      obtain ⟨source, rest, ⟨hpath, hcontent, hrelative⟩, hrest, rfl⟩ :=
        List.forall₂_cons_left_iff.mp h
      cases hrest
      obtain ⟨_, relative, _⟩ := source
      simp only [List.append_nil] at hpath hcontent hrelative
      subst hpath hcontent
      exact ⟨relative, hrelative, rfl⟩
  | path, .directory entries, found => by
    simp only [visitNode, Node.Regular, Node.files]
    exact visit_ok
  | _, .symlink, _ => by simp [visitNode, Node.Regular]
  | _, .special, _ => by simp [visitNode, Node.Regular]

/-- The walk finds the files of a directory, and gives up where there is anything but files
and directories. -/
theorem visit_ok : ∀ {directory : List Bytes} {entries : Entries} {found : List SourceFile},
    visit root directory entries = .ok found ↔
      Regular entries ∧ List.Forall₂ (Found directory) (filesOf entries) found
  | directory, [], found => by
    simp [visit, Regular, filesOf, eq_comm]
  | directory, (name, node) :: rest, found => by
    rw [visit, bind_ok, Regular, filesOf]
    constructor
    · rintro ⟨first, hfirst, h⟩
      obtain ⟨others, hothers, h⟩ := bind_ok.mp h
      cases h
      obtain ⟨hnode, hfirst⟩ := visitNode_ok.mp hfirst
      obtain ⟨hrest, hothers⟩ := visit_ok.mp hothers
      refine ⟨⟨hnode, hrest⟩, List.rel_append ?_ hothers⟩
      rw [List.forall₂_map_left_iff]
      exact hfirst.imp fun _ _ => found_cons.mpr
    · rintro ⟨⟨hnode, hrest⟩, h⟩
      obtain ⟨first, others, rfl, hfirst, hothers⟩ := exists_append h
      rw [List.forall₂_map_left_iff] at hfirst
      refine ⟨first, visitNode_ok.mpr ⟨hnode, hfirst.imp fun _ _ => found_cons.mp⟩, ?_⟩
      rw [visit_ok.mpr ⟨hrest, hothers⟩]
      rfl
end

end Walk

/-! ### Fingerprints -/

section Fingerprints
variable {tree other : SourceTree} {found others : List SourceFile} {root : Bytes}

/-- The walk through a tree comes to these files. -/
def Walked (tree : SourceTree) (found : List SourceFile) : Prop :=
  Regular tree.entries ∧ List.Forall₂ (Found []) tree.files found

theorem sourceFiles_ok : sourceFiles root tree.entries = .ok found ↔ ∃ walked, Walked tree walked ∧
    found = byRelative walked := by
  rw [sourceFiles, bind_ok]
  simp only [visit_ok, Walked, SourceTree.files, Except.ok.injEq, @eq_comm _ found]

theorem fedSourceTree_ok {fed : Bytes} : fedSourceTree root tree.entries = .ok fed ↔
    ∃ walked, Walked tree walked ∧ fed = treeHeader ++ (byRelative walked).flatMap fedFile := by
  rw [fedSourceTree, bind_ok]
  constructor
  · rintro ⟨files, hfiles, h⟩
    obtain ⟨walked, hwalked, rfl⟩ := sourceFiles_ok.mp hfiles
    exact ⟨walked, hwalked, (Except.ok.inj h).symm⟩
  · rintro ⟨walked, hwalked, rfl⟩
    exact ⟨_, sourceFiles_ok.mpr ⟨walked, hwalked, rfl⟩, rfl⟩

/-- What the stream says of a file. -/
def SourceFile.words (source : SourceFile) : Bytes × Bytes :=
  (Utf8.encode source.relative, source.content)

theorem Found.plain {file : List Bytes × Bytes} {source : SourceFile} (h : Found [] file source)
    (hfile : file ∈ tree.files) : file.1 ≠ [] ∧ (∀ name ∈ file.1, PlainName name) ∧
      source.words = (joined file.1, file.2) := by
  have hne := ne_nil_of_mem_filesOf hfile
  have hplain := (plain_of_mem_filesOf tree.listed file hfile).1
  have hpath : source.path = file.1 := h.path
  have hrelative := h.relative
  rw [hpath, logicalPath_ok hne hplain] at hrelative
  exact ⟨hne, hplain, by rw [SourceFile.words, hrelative.1, h.content]⟩

theorem Walked.exists_file (h : Walked tree found) {source : SourceFile} (hsource : source ∈ found) :
    ∃ file ∈ tree.files, Found [] file source :=
  exists_of_mem_results h.2 hsource

theorem Walked.exists_source (h : Walked tree found) {file : List Bytes × Bytes}
    (hfile : file ∈ tree.files) : ∃ source ∈ found, Found [] file source :=
  exists_of_mem_list h.2 hfile

/-- Files of one path are one file. -/
theorem eq_of_path {file second : List Bytes × Bytes} (hfile : file ∈ tree.files)
    (hsecond : second ∈ tree.files) (h : file.1 = second.1) : file = second :=
  filesOf_apart tree.listed file hfile second hsecond (h ▸ List.prefix_rfl)

/-- A file is listed as its names, its text and its content say. -/
theorem Found.unique {file : List Bytes × Bytes} {source second : SourceFile}
    (h : Found [] file source) (hsecond : Found [] file second) : source = second := by
  obtain ⟨path, relative, content⟩ := source
  obtain ⟨otherPath, otherRelative, otherContent⟩ := second
  obtain ⟨hpath, hcontent, hrelative⟩ := h
  obtain ⟨hpath', hcontent', hrelative'⟩ := hsecond
  dsimp only at hpath hpath' hcontent hcontent' hrelative hrelative'
  rw [hpath] at hrelative
  rw [hpath', hrelative] at hrelative'
  rw [hpath, hpath', hcontent, hcontent', Except.ok.inj hrelative']

theorem Walked.nodup (h : Walked tree found) : found.Nodup := by
  have hpaths : tree.files.map Prod.fst = found.map SourceFile.path :=
    map_eq_of_pointwise h.2 fun file source hfound => hfound.path.symm
  refine List.Nodup.of_map SourceFile.path ?_
  rw [← hpaths]
  exact filesOf_nodup tree.listed

/-- Trees with the same files are walked alike but for the order. -/
theorem Walked.perm (h : Walked tree found) (hothers : Walked other others)
    (hfiles : ∀ file, file ∈ tree.files ↔ file ∈ other.files) : found.Perm others := by
  refine (List.perm_ext_iff_of_nodup h.nodup hothers.nodup).mpr fun source => ⟨?_, ?_⟩
  · intro hsource
    obtain ⟨file, hfile, hfound⟩ := h.exists_file hsource
    obtain ⟨second, hsecond, hother⟩ := hothers.exists_source ((hfiles file).mp hfile)
    rwa [hfound.unique hother]
  · intro hsource
    obtain ⟨file, hfile, hfound⟩ := hothers.exists_file hsource
    obtain ⟨second, hsecond, hother⟩ := h.exists_source ((hfiles file).mpr hfile)
    rwa [hfound.unique hother]

/-- Logical paths tell the files of a tree apart. -/
theorem Walked.relative_injective (h : Walked tree found) : ∀ source ∈ found, ∀ second ∈ found,
    source.relative = second.relative → source = second := by
  intro source hsource second hsecond heq
  obtain ⟨file, hfile, hfound⟩ := h.exists_file hsource
  obtain ⟨secondFile, hsecondFile, hother⟩ := h.exists_file hsecond
  obtain ⟨-, hplain, hwords⟩ := hfound.plain hfile
  obtain ⟨-, hplain', hwords'⟩ := hother.plain hsecondFile
  have hjoined : joined file.1 = joined secondFile.1 := by
    rw [← (Prod.mk.inj hwords).1, ← (Prod.mk.inj hwords').1, heq]
  obtain rfl := eq_of_path hfile hsecondFile (joined_injective hplain hplain' hjoined)
  exact hfound.unique hother

/-- The sizes of the stream are exact. -/
theorem Walked.fedFile (h : Walked tree found) {source : SourceFile} (hsource : source ∈ found) :
    Python.fedFile source = Framing.sized 8 source.words.1 ++ Framing.sized 8 source.words.2 ∧
      source.words.1.length < 256 ^ 8 ∧ source.words.2.length < 256 ^ 8 := by
  obtain ⟨file, hfile, hfound⟩ := h.exists_file hsource
  have hpath := tree.addressable file hfile
  have hcontent := (plain_of_mem_filesOf tree.listed file hfile).2
  obtain ⟨-, -, hwords⟩ := hfound.plain hfile
  have hrelative : (Utf8.encode source.relative).length < 2 ^ 64 := by
    have hrelative : Utf8.encode source.relative = joined file.1 := (Prod.mk.inj hwords).1
    rwa [hrelative]
  refine ⟨?_, ?_⟩
  · have hsize : min (Utf8.encode source.relative).length DiskStore.u64Max =
        (Utf8.encode source.relative).length := by
      rw [DiskStore.u64Max]
      omega
    simp [Python.fedFile, SourceFile.words, Framing.sized, hsize]
  · rw [hwords]
    exact ⟨hpath, hcontent⟩

theorem Walked.fed (h : Walked tree found) : (byRelative found).flatMap Python.fedFile =
    ((byRelative found).map SourceFile.words).flatMap fun words =>
      Framing.sized 8 words.1 ++ Framing.sized 8 words.2 := by
  rw [List.flatMap_map]
  refine List.flatMap_congr fun source hsource => ?_
  exact (h.fedFile ((List.mem_insertionSort _).mp hsource)).1

theorem Walked.words_valid (h : Walked tree found) :
    ∀ words ∈ (byRelative found).map SourceFile.words,
      words.1.length < 256 ^ 8 ∧ words.2.length < 256 ^ 8 := by
  intro words hwords
  obtain ⟨source, hsource, rfl⟩ := List.mem_map.mp hwords
  exact (h.fedFile ((List.mem_insertionSort _).mp hsource)).2

/-- A file whose words another tree's walk comes to is in that tree. -/
theorem Walked.mem_files_of_words (h : Walked tree found) (hothers : Walked other others)
    (hwords : (byRelative found).map SourceFile.words = (byRelative others).map SourceFile.words)
    {file : List Bytes × Bytes} (hfile : file ∈ tree.files) : file ∈ other.files := by
  obtain ⟨source, hsource, hfound⟩ := h.exists_source hfile
  obtain ⟨-, hplain, hspelled⟩ := hfound.plain hfile
  have hmem : source.words ∈ (byRelative others).map SourceFile.words := by
    rw [← hwords]
    exact List.mem_map_of_mem ((List.mem_insertionSort _).mpr hsource)
  obtain ⟨second, hsecond, hsame⟩ := List.mem_map.mp hmem
  obtain ⟨secondFile, hsecondFile, hsecond⟩ :=
    hothers.exists_file ((List.mem_insertionSort _).mp hsecond)
  obtain ⟨-, hplain', hspelled'⟩ := hsecond.plain hsecondFile
  rw [hspelled, hspelled', Prod.mk.injEq] at hsame
  have hpath := joined_injective hplain' hplain hsame.1
  have heq : secondFile = file := Prod.ext hpath hsame.2
  rwa [heq] at hsecondFile

/-- Equal streams come of equal files. -/
theorem fedSourceTree_eq_iff {otherRoot fed otherFed : Bytes}
    (h : fedSourceTree root tree.entries = .ok fed)
    (hother : fedSourceTree otherRoot other.entries = .ok otherFed) :
    fed = otherFed ↔ ∀ file, file ∈ tree.files ↔ file ∈ other.files := by
  obtain ⟨found, hfound, rfl⟩ := fedSourceTree_ok.mp h
  obtain ⟨others, hothers, rfl⟩ := fedSourceTree_ok.mp hother
  constructor
  · intro heq
    have hstream := List.append_cancel_left heq
    have hfree := (Framing.prefixFree_sized 8).pair (Framing.prefixFree_sized 8)
    have hwords : (byRelative found).map SourceFile.words = (byRelative others).map SourceFile.words := by
      refine hfree.flatMap_injective ?_ hfound.words_valid hothers.words_valid ?_
      · intro words hnil
        exact Framing.sized_ne_nil (by decide) _ (List.append_eq_nil_iff.mp hnil).1
      · rw [← hfound.fed, ← hothers.fed]
        exact hstream
    exact fun file => ⟨hfound.mem_files_of_words hothers hwords,
      hothers.mem_files_of_words hfound hwords.symm⟩
  · intro hfiles
    rw [byRelative, byRelative, Sorting.sorted_congr hfound.relative_injective (hfound.perm hothers hfiles)]

/-- A tree has a fingerprint where it holds but files and directories, under names that
are UTF-8. -/
theorem fedSourceTree_total : (∃ fed, fedSourceTree root tree.entries = .ok fed) ↔
    Regular tree.entries ∧ ∀ file ∈ tree.files, ∀ name ∈ file.1, ∃ text, Utf8.encode text = name := by
  constructor
  · rintro ⟨fed, hfed⟩
    obtain ⟨found, hfound, -⟩ := fedSourceTree_ok.mp hfed
    refine ⟨hfound.1, fun file hfile => ?_⟩
    obtain ⟨source, -, hsource⟩ := hfound.exists_source hfile
    have hrelative := hsource.relative
    rw [hsource.path, List.nil_append] at hrelative
    exact ((logicalPath_ok (ne_nil_of_mem_filesOf hfile)
      (plain_of_mem_filesOf tree.listed file hfile).1).mp hrelative).2
  · rintro ⟨hregular, hnames⟩
    have hwalked : ∃ walked, List.Forall₂ (Found []) tree.files walked := by
      refine exists_pointwise fun file hfile => ?_
      obtain ⟨text, htext⟩ := exists_joined (hnames file hfile)
      refine ⟨⟨file.1, text, file.2⟩, rfl, rfl, ?_⟩
      exact (logicalPath_ok (ne_nil_of_mem_filesOf hfile)
        (plain_of_mem_filesOf tree.listed file hfile).1).mpr ⟨htext, hnames file hfile⟩
    obtain ⟨walked, hwalked⟩ := hwalked
    exact ⟨_, fedSourceTree_ok.mpr ⟨walked, ⟨hregular, hwalked⟩, rfl⟩⟩

end Fingerprints

/-! ### Copies -/

mutual
/-- What copying makes: files, and directories that are on the way to one. -/
def Node.Copied : Node → Prop
  | .file content => content.length < 2 ^ 64
  | .directory entries => filesOf entries ≠ [] ∧ Copied entries
  | .symlink | .special => False

def Copied : Entries → Prop
  | [] => True
  | (name, node) :: rest =>
    PlainName name ∧ name ∉ rest.map Prod.fst ∧ node.Copied ∧ Copied rest
end

section Copies
variable {entries : Entries} {name : Bytes} {names : List Bytes} {content : Bytes}

mutual
theorem Node.Copied.listed : ∀ {node : Node}, node.Copied → node.Listed ∧ node.Regular
  | .file _, h => ⟨h, trivial⟩
  | .directory _, h => Copied.listed h.2

theorem Copied.listed : ∀ {entries : Entries}, Copied entries → Listed entries ∧ Regular entries
  | [], _ => ⟨trivial, trivial⟩
  | (_, _) :: _, h => by
    obtain ⟨hname, hfresh, hnode, hrest⟩ := h
    obtain ⟨hlisted, hregular⟩ := Node.Copied.listed hnode
    obtain ⟨hlistedRest, hregularRest⟩ := Copied.listed hrest
    exact ⟨⟨hname, hfresh, hlisted, hlistedRest⟩, hregular, hregularRest⟩
end

theorem update_names {change : Option Node → Except String Node} {placed : Entries}
    (h : update name change entries = .ok placed) :
    ∀ key ∈ placed.map Prod.fst, key = name ∨ key ∈ entries.map Prod.fst := by
  induction entries generalizing placed with
  | nil =>
    obtain ⟨node, -, h⟩ := bind_ok.mp h
    cases h
    simp
  | cons entry rest ih =>
    obtain ⟨other, node⟩ := entry
    rw [update] at h
    split at h
    · obtain ⟨changed, -, h⟩ := bind_ok.mp h
      cases h
      exact fun key hkey => .inr hkey
    · obtain ⟨later, hlater, h⟩ := bind_ok.mp h
      cases h
      intro key hkey
      rcases List.mem_cons.mp hkey with rfl | hkey
      · exact .inr List.mem_cons_self
      · exact (ih hlater key hkey).imp_right (List.mem_cons_of_mem _)

/-- A change that puts one file under a name puts one file into the directory. -/
theorem update_places {change : Option Node → Except String Node} (hplain : PlainName name)
    (hentries : Copied entries)
    (hnone : ∃ node, change none = .ok node ∧ node.Copied ∧
      ∀ file, file ∈ node.files ↔ file = (names, content))
    (hsome : ∀ node, (name, node) ∈ entries → ∃ changed, change (some node) = .ok changed ∧
      changed.Copied ∧ ∀ file, file ∈ changed.files ↔ file = (names, content) ∨ file ∈ node.files) :
    ∃ placed, update name change entries = .ok placed ∧ Copied placed ∧
      ∀ file, file ∈ filesOf placed ↔ file = (name :: names, content) ∨ file ∈ filesOf entries := by
  induction entries with
  | nil =>
    obtain ⟨node, hchange, hcopied, hfiles⟩ := hnone
    refine ⟨[(name, node)], by simp [update, hchange], ⟨hplain, by simp, hcopied, trivial⟩,
      fun file => ?_⟩
    simp [filesOf, hfiles, eq_comm]
  | cons entry rest ih =>
    obtain ⟨other, node⟩ := entry
    obtain ⟨hother, hfresh, hnode, hrest⟩ := hentries
    by_cases hsame : other = name
    · subst hsame
      obtain ⟨changed, hchange, hcopied, hfiles⟩ := hsome node List.mem_cons_self
      refine ⟨(other, changed) :: rest, by simp [update, hchange],
        ⟨hother, hfresh, hcopied, hrest⟩, fun file => ?_⟩
      simp only [mem_filesOf_cons, hfiles, or_and_right, exists_or, exists_eq_left, or_assoc]
    · obtain ⟨placed, hplaced, hcopied, hfiles⟩ :=
        ih hrest fun node hmem => hsome node (List.mem_cons_of_mem _ hmem)
      refine ⟨(other, node) :: placed, by simp [update, hsame, hplaced],
        ⟨hother, fun hmem => ?_, hnode, hcopied⟩, fun file => ?_⟩
      · rcases update_names hplaced other hmem with heq | hmem
        · exact hsame heq
        · exact hfresh hmem
      · rw [mem_filesOf_cons, mem_filesOf_cons, hfiles, or_left_comm]

theorem Copied.entry {node : Node} (h : Copied entries) (hmem : (name, node) ∈ entries) :
    node.Copied ∧ ∀ inner ∈ node.files, (name :: inner.1, inner.2) ∈ filesOf entries := by
  induction entries with
  | nil => cases hmem
  | cons entry rest ih =>
    obtain ⟨other, first⟩ := entry
    obtain ⟨-, -, hfirst, hrest⟩ := h
    rcases List.mem_cons.mp hmem with heq | hmem
    · cases heq
      exact ⟨hfirst, fun inner hinner => mem_filesOf_cons.mpr (.inl ⟨inner, hinner, rfl⟩)⟩
    · obtain ⟨hnode, hfiles⟩ := ih hrest hmem
      exact ⟨hnode, fun inner hinner => mem_filesOf_cons.mpr (.inr (hfiles inner hinner))⟩

/-- A file is copied to where no file is, on the way or below. -/
theorem place_ok (hsize : content.length < 2 ^ 64) : ∀ {path : List Bytes} {entries : Entries},
    path ≠ [] → (∀ name ∈ path, PlainName name) → Copied entries →
    (∀ file ∈ filesOf entries, ¬ path <+: file.1 ∧ ¬ file.1 <+: path) →
    ∃ placed, place content path entries = .ok placed ∧ Copied placed ∧
      ∀ file, file ∈ filesOf placed ↔ file = (path, content) ∨ file ∈ filesOf entries := by
  intro path
  induction path with
  | nil => intro _ hne
           exact absurd rfl hne
  | cons name names ih =>
    intro entries _ hplain hentries hapart
    obtain ⟨hname, hnames⟩ := List.forall_mem_cons.mp hplain
    cases names with
    | nil =>
      rw [place]
      refine update_places hname hentries
        ⟨.file content, rfl, hsize, by simp [Node.files]⟩ fun node hnode => ?_
      obtain ⟨hcopied, hbelow⟩ := hentries.entry hnode
      cases node with
      | file other =>
        have hmem := hbelow ([], other) (by simp [Node.files])
        exact absurd List.prefix_rfl (hapart _ hmem).1
      | directory inner =>
        obtain ⟨file, rest, hfile⟩ := List.exists_cons_of_ne_nil hcopied.1
        have hmem := hbelow file (by simp [Node.files, hfile])
        exact absurd (List.prefix_append [name] file.1) (hapart _ hmem).1
      | symlink => exact hcopied.elim
      | special => exact hcopied.elim
    | cons second names =>
      have hinto : ∀ {inner : Entries}, Copied inner →
          (∀ file ∈ filesOf inner, ¬ second :: names <+: file.1 ∧ ¬ file.1 <+: second :: names) →
          ∃ node, (place content (second :: names) inner).map Node.directory = .ok node ∧
            node.Copied ∧ ∀ file, file ∈ node.files ↔
              file = (second :: names, content) ∨ file ∈ filesOf inner := by
        intro inner hinner hclear
        obtain ⟨placed, hplaced, hcopied, hfiles⟩ := ih (by simp) hnames hinner hclear
        have hstocked : filesOf placed ≠ [] :=
          List.ne_nil_of_mem ((hfiles (second :: names, content)).mpr (.inl rfl))
        exact ⟨.directory placed, by rw [hplaced]; rfl, ⟨hstocked, hcopied⟩, hfiles⟩
      rw [place]
      refine update_places hname hentries ?_ fun node hnode => ?_
      · simpa [filesOf] using @hinto [] trivial (by simp [filesOf])
      · obtain ⟨hcopied, hbelow⟩ := hentries.entry hnode
        cases node with
        | file other =>
          have hmem := hbelow ([], other) (by simp [Node.files])
          exact absurd (List.prefix_append [name] (second :: names)) (hapart _ hmem).2
        | directory inner =>
          refine hinto hcopied.2 fun file hfile => ?_
          have hclear := hapart _ (hbelow file hfile)
          exact ⟨fun h => hclear.1 (List.cons_prefix_cons.mpr ⟨rfl, h⟩),
            fun h => hclear.2 (List.cons_prefix_cons.mpr ⟨rfl, h⟩)⟩
        | symlink => exact hcopied.elim
        | special => exact hcopied.elim

end Copies

section Tree
variable {tree : SourceTree} {root : Bytes}

/-- The loop of `copySourceTree`. The files copied so far and those yet to come are
different ones of the tree. -/
theorem copies_ok : ∀ {remaining : List SourceFile} {destination : Entries}, Copied destination →
    (∀ source ∈ remaining, ∃ file ∈ tree.files, Found [] file source) → remaining.Nodup →
    (∀ file ∈ filesOf destination, file ∈ tree.files ∧
      ∀ source ∈ remaining, ¬ Found [] file source) →
    ∃ copy, remaining.foldlM (copyFile root) destination = .ok copy ∧ Copied copy ∧
      ∀ file, file ∈ filesOf copy ↔
        file ∈ filesOf destination ∨ ∃ source ∈ remaining, Found [] file source ∧ file ∈ tree.files := by
  intro remaining
  induction remaining with
  | nil =>
    intro destination hcopied _ _ _
    exact ⟨destination, rfl, hcopied, fun file => by simp⟩
  | cons source remaining ih =>
    intro destination hcopied hfound hnodup hdone
    obtain ⟨hsource, hfound⟩ := List.forall_mem_cons.mp hfound
    obtain ⟨hnew, hnodup⟩ := List.nodup_cons.mp hnodup
    obtain ⟨file, hfile, hsource⟩ := hsource
    obtain ⟨hne, hplain, hwords⟩ := hsource.plain hfile
    have hnames : Rootfs.names (Utf8.encode source.relative) = file.1 := by
      rw [show Utf8.encode source.relative = joined file.1 from (Prod.mk.inj hwords).1]
      exact (joined_safe hne hplain).2
    have hapart : ∀ other ∈ filesOf destination, ¬ file.1 <+: other.1 ∧ ¬ other.1 <+: file.1 := by
      intro other hother
      obtain ⟨hmem, hlater⟩ := hdone other hother
      refine ⟨fun h => ?_, fun h => ?_⟩
      · obtain rfl := filesOf_apart tree.listed file hfile other hmem h
        exact hlater source List.mem_cons_self hsource
      · obtain rfl := filesOf_apart tree.listed other hmem file hfile h
        exact hlater source List.mem_cons_self hsource
    have hsize := (plain_of_mem_filesOf tree.listed file hfile).2
    obtain ⟨placed, hplaced, hcopied, hfiles⟩ := place_ok hsize hne hplain hcopied hapart
    have hdone' : ∀ other ∈ filesOf placed, other ∈ tree.files ∧
        ∀ source ∈ remaining, ¬ Found [] other source := by
      intro other hother
      rcases (hfiles other).mp hother with rfl | hother
      · exact ⟨hfile, fun later hlater hagain => hnew (hsource.unique hagain ▸ hlater)⟩
      · obtain ⟨hmem, hlater⟩ := hdone other hother
        exact ⟨hmem, fun later hmem => hlater later (List.mem_cons_of_mem _ hmem)⟩
    obtain ⟨copy, hcopy, hcopied, hall⟩ := ih hcopied hfound hnodup hdone'
    refine ⟨copy, ?_, hcopied, fun other => ?_⟩
    · rw [List.foldlM_cons, copyFile, hnames, hsource.content, hplaced]
      exact hcopy
    · rw [hall, hfiles]
      constructor
      · rintro ((rfl | hother) | ⟨later, hlater, hfound⟩)
        · exact .inr ⟨source, List.mem_cons_self, hsource, hfile⟩
        · exact .inl hother
        · exact .inr ⟨later, List.mem_cons_of_mem _ hlater, hfound⟩
      · rintro (hother | ⟨later, hlater, hlisted, hmem⟩)
        · exact .inl (.inr hother)
        · rcases List.mem_cons.mp hlater with rfl | hlater
          · refine .inl (.inl (eq_of_path hmem hfile ?_))
            simpa using hlisted.path.symm.trans hsource.path
          · exact .inr ⟨later, hlater, hlisted, hmem⟩

/-- The copy of a tree holds its files. -/
theorem copySourceTree_ok {found : List SourceFile} (h : Walked tree found) :
    ∃ copy : SourceTree, copySourceTree root tree.entries = .ok copy.entries ∧
      Regular copy.entries ∧ ∀ file, file ∈ copy.files ↔ file ∈ tree.files := by
  have hperm : (byRelative found).Perm found := List.perm_insertionSort _ found
  have hfound : ∀ source ∈ byRelative found, ∃ file ∈ tree.files, Found [] file source :=
    fun source hsource => h.exists_file (hperm.mem_iff.mp hsource)
  obtain ⟨copy, hcopy, hcopied, hfiles⟩ :=
    @copies_ok tree root _ [] trivial hfound (hperm.nodup_iff.mpr h.nodup) (by simp [filesOf])
  have hsame : ∀ file, file ∈ filesOf copy ↔ file ∈ tree.files := by
    intro file
    rw [hfiles]
    constructor
    · rintro (hnone | ⟨_, _, _, hfile⟩)
      · simp [filesOf] at hnone
      · exact hfile
    · intro hfile
      obtain ⟨source, hsource, hfound⟩ := h.exists_source hfile
      exact .inr ⟨source, hperm.mem_iff.mpr hsource, hfound, hfile⟩
  refine ⟨⟨copy, hcopied.listed.1, fun file hfile => tree.addressable file ((hsame file).mp hfile)⟩,
    ?_, hcopied.listed.2, hsame⟩
  rw [copySourceTree, sourceFiles_ok.mpr ⟨found, h, rfl⟩]
  exact hcopy

/-- The fingerprint of a source tree stands for its files, however they are listed. A copy has
the fingerprint of what it was made of, and a tree that holds anything but files and
directories has neither. -/
theorem sha256SourceTree_canonical (sha256 : Bytes → Vector UInt8 32) :
    (∀ (tree other : SourceTree) (root otherRoot fed otherFed : Bytes),
      fedSourceTree root tree.entries = .ok fed →
      fedSourceTree otherRoot other.entries = .ok otherFed →
        (fed = otherFed ↔ ∀ file, file ∈ tree.files ↔ file ∈ other.files)) ∧
    (∀ (tree : SourceTree) (root : Bytes), (∃ fed, fedSourceTree root tree.entries = .ok fed) ↔
      Regular tree.entries ∧ ∀ file ∈ tree.files, ∀ name ∈ file.1, ∃ text, Utf8.encode text = name) ∧
    (∀ (tree : SourceTree) (root : Bytes) (fingerprint : String),
      sha256SourceTree root sha256 tree.entries = .ok fingerprint →
        ∃ copy : SourceTree, copySourceTree root tree.entries = .ok copy.entries ∧
          ∀ (listed : SourceTree) (copyRoot : Bytes), Regular listed.entries →
            (∀ file, file ∈ listed.files ↔ file ∈ copy.files) →
            sha256SourceTree copyRoot sha256 listed.entries = .ok fingerprint) ∧
    ∀ (tree : SourceTree) (root : Bytes), ¬Regular tree.entries →
      (∀ fingerprint, sha256SourceTree root sha256 tree.entries ≠ .ok fingerprint) ∧
        ∀ copy, copySourceTree root tree.entries ≠ .ok copy := by
  refine ⟨fun _ _ _ _ _ _ h hother => fedSourceTree_eq_iff h hother,
    fun _ _ => fedSourceTree_total, ?_, ?_⟩
  · intro tree root fingerprint h
    obtain ⟨fed, hfed, h⟩ := bind_ok.mp h
    obtain ⟨found, hfound, -⟩ := fedSourceTree_ok.mp hfed
    obtain ⟨copy, hcopy, -, hfiles⟩ := @copySourceTree_ok _ root _ hfound
    refine ⟨copy, hcopy, fun listed copyRoot hregular hlisted => ?_⟩
    have hsame : ∀ file, file ∈ tree.files ↔ file ∈ listed.files :=
      fun file => (hfiles file).symm.trans (hlisted file).symm
    have hnames := (fedSourceTree_total.mp ⟨fed, hfed⟩).2
    obtain ⟨copyFed, hcopyFed⟩ := (@fedSourceTree_total listed copyRoot).mpr
      ⟨hregular, fun file hfile => hnames file ((hsame file).mpr hfile)⟩
    obtain rfl := (fedSourceTree_eq_iff hfed hcopyFed).mpr hsame
    rw [sha256SourceTree, hcopyFed, ok_bind]
    exact h
  · intro tree root hspecial
    have hfiles : ∀ files, sourceFiles root tree.entries ≠ .ok files := by
      intro files hfiles
      obtain ⟨walked, hwalked, -⟩ := sourceFiles_ok.mp hfiles
      exact hspecial hwalked.1
    refine ⟨fun fingerprint h => ?_, fun copy h => ?_⟩
    · obtain ⟨fed, hfed, -⟩ := bind_ok.mp h
      obtain ⟨files, hok, -⟩ := bind_ok.mp hfed
      exact hfiles files hok
    · obtain ⟨files, hok, -⟩ := bind_ok.mp h
      exact hfiles files hok

end Tree
end HologramLive.Python
