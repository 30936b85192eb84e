import HologramLive.Lib.Framing
import HologramLive.Lib.Sorting
import HologramLive.Python.SourceTree
import Mathlib.Data.List.Lex

/-! The tag of the image a root file system is built in, and what it is a hash of. -/

namespace HologramLive.Python
open Lib Lib.Result Store Rootfs

inductive PythonProfile where
  | rootfs
  | wasiComponent
  deriving DecidableEq

structure PythonRootfsSource where
  project : Bytes
  entry : String
  lock : Bytes
  profile : PythonProfile
  base : String

namespace PythonRootfsSource

def defaultBase : String := "python:3.12-slim"

def profileName : PythonProfile → String
  | .rootfs => "rootfs"
  | .wasiComponent => "wasi-component"

/-- A path in a document. -/
def pathJson (path : Bytes) : Except LiveError Json :=
  match Utf8.decode path with
  | some text => .ok (.string text)
  | none => .error (.protocol "path contains invalid UTF-8 characters")

def toJson (source : PythonRootfsSource) : Except LiveError Json := do
  let project ← pathJson source.project
  let lock ← pathJson source.lock
  .ok <| .ofFields
    [("project", some project), ("entry", some (.string source.entry)), ("lock", some lock),
      ("profile", some (.string (profileName source.profile))),
      ("base", if source.base = defaultBase then none else some (.string source.base))]

end PythonRootfsSource

/-- `host` is the architecture the code itself runs on. -/
def hostArch (host : String) : Except LiveError String :=
  if host = "arm64" ∨ host = "aarch64" then .ok "arm64"
  else if host = "x86_64" ∨ host = "amd64" then .ok "x86_64"
  else
    .error <| .capability s!"Python rootfs execution is unsupported on host architecture {host}"

def normalizeArch (host arch : String) : Except LiveError String :=
  if arch = "host" then hostArch host
  else if arch = "arm64" ∨ arch = "aarch64" then .ok "arm64"
  else if arch = "x86_64" ∨ arch = "amd64" then .ok "x86_64"
  else
    .error <| .config
      s!"unsupported Python rootfs architecture {arch}; expected host, arm64, or x86_64"

/-! ### The tree -/

/-- Names compare byte by byte. -/
def nameKey (name : Bytes) : List Nat := name.map UInt8.toNat

def byName (entries : Entries) : Entries :=
  entries.insertionSort fun left right => nameKey left.1 ≤ nameKey right.1

mutual
/-- A node with every directory in the order `hashTree` sorts it to. -/
def Node.sorted : Node → Node
  | .directory entries => .directory (byName (eachSorted entries))
  | .file content => .file content
  | .symlink => .symlink
  | .special => .special

def eachSorted : Entries → Entries
  | [] => []
  | (name, node) :: rest => (name, node.sorted) :: eachSorted rest
end

section Tag
variable (root : Bytes)

mutual
def hashNode (path : List Bytes) : Node → Except LiveError Bytes
  | .symlink =>
    .error (.config s!"Python source may not contain symlink {display (root :: path)}")
  | .directory entries => do
    let inner ← hashEntries path entries
    .ok (Utf8.encode (display path) ++ inner)
  | .file content => .ok (Utf8.encode (display path) ++ content)
  | .special => .error (.config s!"unsupported Python source file {display (root :: path)}")

def hashEntries (directory : List Bytes) : Entries → Except LiveError Bytes
  | [] => .ok []
  | (name, node) :: rest => do
    let first ← hashNode (directory ++ [name]) node
    let others ← hashEntries directory rest
    .ok (first ++ others)
end

/-- What `hash_tree` feeds to the hash. -/
def hashTree (entries : Entries) : Except LiveError Bytes :=
  hashEntries root [] (byName (eachSorted entries))

/-- What an image is made from. -/
structure ImageInputs where
  pyproject : Bytes
  lock : Bytes
  source : PythonRootfsSource
  arch : String
  tree : SourceTree

variable (codec : JsonCodec) (host : String)

/-- What `image_tag` feeds to the hash. -/
def fedImage (inputs : ImageInputs) : Except LiveError Bytes := do
  let source ← inputs.source.toJson
  let arch ← normalizeArch host inputs.arch
  let tree ← hashTree root inputs.tree.entries
  .ok (inputs.pyproject ++ inputs.lock ++ codec.toVec source ++ Utf8.encode arch ++ tree)

def imageTag (blake3 : Blake3) (inputs : ImageInputs) : Except LiveError String := do
  let fed ← fedImage root codec host inputs
  .ok s!"hologram-python-{String.ofList ((hexDigest blake3 fed).toList.take 24)}:local"

end Tag

/-! ### What a tree holds -/

mutual
/-- What stands at the paths below a node: files with their contents, and directories. -/
def Node.places : Node → List (List Bytes × Option Bytes)
  | .file content => [([], some content)]
  | .directory entries => ([], none) :: placesOf entries
  | .symlink | .special => []

def placesOf : Entries → List (List Bytes × Option Bytes)
  | [] => []
  | (name, node) :: rest => node.places.map (fun place => (name :: place.1, place.2)) ++ placesOf rest
end

def pathKey (place : List Bytes × Option Bytes) : List (List Nat) := place.1.map nameKey

/-- The places of a tree in the order they are hashed in. -/
def inOrder (entries : Entries) : List (List Bytes × Option Bytes) :=
  placesOf (byName (eachSorted entries))

/-- What is hashed for one place. -/
def fedPlace (directory : List Bytes) (place : List Bytes × Option Bytes) : Bytes :=
  Utf8.encode (display (directory ++ place.1)) ++ place.2.getD []

section Places
variable {entries others : Entries} {name : Bytes} {node : Node} {root : Bytes}
  {place : List Bytes × Option Bytes}

theorem mem_placesOf : place ∈ placesOf entries ↔ ∃ entry ∈ entries, ∃ inner ∈ entry.2.places,
    place = (entry.1 :: inner.1, inner.2) := by
  induction entries with
  | nil => simp [placesOf]
  | cons entry entries ih => simp [placesOf, ih, eq_comm]

theorem mem_byName {entry : Bytes × Node} : entry ∈ byName entries ↔ entry ∈ entries :=
  List.mem_insertionSort _

mutual
theorem Node.mem_sorted : ∀ {node : Node} {place}, place ∈ node.sorted.places ↔ place ∈ node.places
  | .file _, _ => by simp [Node.sorted]
  | .directory entries, place => by
    simp only [Node.sorted, Node.places, List.mem_cons]
    rw [mem_placesOf]
    simp only [mem_byName]
    rw [← mem_placesOf, mem_eachSorted]
  | .symlink, _ => by simp [Node.sorted]
  | .special, _ => by simp [Node.sorted]

theorem mem_eachSorted : ∀ {entries : Entries} {place},
    place ∈ placesOf (eachSorted entries) ↔ place ∈ placesOf entries
  | [], _ => by simp [eachSorted]
  | (name, node) :: rest, place => by
    simp only [eachSorted, placesOf, List.mem_append, List.mem_map, Node.mem_sorted, mem_eachSorted]
end

theorem mem_inOrder : place ∈ inOrder entries ↔ place ∈ placesOf entries := by
  rw [inOrder, mem_placesOf]
  simp only [mem_byName]
  rw [← mem_placesOf, mem_eachSorted]

mutual
theorem Node.regular_sorted : ∀ {node : Node}, node.sorted.Regular ↔ node.Regular
  | .file _ => by simp [Node.sorted]
  | .directory entries => by
    simp only [Node.sorted, Node.Regular]
    rw [regular_iff]
    simp only [mem_byName]
    rw [← regular_iff, regular_eachSorted]
  | .symlink => by simp [Node.sorted]
  | .special => by simp [Node.sorted]

theorem regular_eachSorted : ∀ {entries : Entries}, Regular (eachSorted entries) ↔ Regular entries
  | [] => by simp [eachSorted]
  | (_, _) :: _ => by simp only [eachSorted, Regular, Node.regular_sorted, regular_eachSorted]
end

mutual
theorem hashNode_ok : ∀ {path : List Bytes} {node : Node} {fed : Bytes},
    hashNode root path node = .ok fed ↔
      node.Regular ∧ fed = node.places.flatMap (fedPlace path)
  | path, .file content, fed => by
    simp [hashNode, Node.Regular, Node.places, fedPlace, eq_comm]
  | path, .directory entries, fed => by
    simp only [hashNode, bind_ok, hashEntries_ok, Node.Regular, Node.places, List.flatMap_cons]
    simp [fedPlace, eq_comm]
  | _, .symlink, _ => by simp [hashNode, Node.Regular]
  | _, .special, _ => by simp [hashNode, Node.Regular]

theorem hashEntries_ok : ∀ {directory : List Bytes} {entries : Entries} {fed : Bytes},
    hashEntries root directory entries = .ok fed ↔
      Regular entries ∧ fed = (placesOf entries).flatMap (fedPlace directory)
  | _, [], fed => by simp [hashEntries, Regular, placesOf, eq_comm]
  | directory, (name, node) :: rest, fed => by
    have hinner : (node.places.map fun place => (name :: place.1, place.2)).flatMap
        (fedPlace directory) = node.places.flatMap (fedPlace (directory ++ [name])) := by
      rw [List.flatMap_map]
      refine List.flatMap_congr fun place _ => ?_
      simp [fedPlace]
    simp only [hashEntries, bind_ok, hashNode_ok, hashEntries_ok, Regular, placesOf,
      List.flatMap_append, hinner, Except.ok.injEq]
    constructor
    · rintro ⟨_, ⟨hnode, rfl⟩, _, ⟨hrest, rfl⟩, rfl⟩
      exact ⟨⟨hnode, hrest⟩, rfl⟩
    · rintro ⟨⟨hnode, hrest⟩, rfl⟩
      exact ⟨_, ⟨hnode, rfl⟩, _, ⟨hrest, rfl⟩, rfl⟩
end

theorem hashTree_ok {fed : Bytes} : hashTree root entries = .ok fed ↔
    Regular entries ∧ fed = (inOrder entries).flatMap (fedPlace []) := by
  rw [hashTree, hashEntries_ok, inOrder, regular_iff]
  simp only [mem_byName]
  rw [← regular_iff, regular_eachSorted]

theorem nameKey_injective : Function.Injective nameKey :=
  List.map_injective_iff.mpr fun _ _ => UInt8.toNat_inj.mp

theorem pathKey_cons_lt {first second : List Bytes × Option Bytes} :
    pathKey (name :: first.1, first.2) < pathKey (name :: second.1, second.2) ↔
      pathKey first < pathKey second := by
  simp [pathKey]

/-- Places in order below names in order. -/
theorem pairwise_placesOf
    (hnames : entries.Pairwise fun left right => nameKey left.1 < nameKey right.1)
    (hinner : ∀ entry ∈ entries, entry.2.places.Pairwise fun left right => pathKey left < pathKey right) :
    (placesOf entries).Pairwise fun left right => pathKey left < pathKey right := by
  induction entries with
  | nil => exact .nil
  | cons entry entries ih =>
    obtain ⟨hfirst, hrest⟩ := List.pairwise_cons.mp hnames
    obtain ⟨hnode, hinner⟩ := List.forall_mem_cons.mp hinner
    rw [placesOf, List.pairwise_append]
    refine ⟨List.pairwise_map.mpr (hnode.imp fun h => pathKey_cons_lt.mpr h), ih hrest hinner, ?_⟩
    intro place hplace later hlater
    obtain ⟨inner, -, rfl⟩ := List.mem_map.mp hplace
    obtain ⟨second, hsecond, _, -, rfl⟩ := mem_placesOf.mp hlater
    exact List.cons_lt_cons_iff.mpr (.inl (hfirst second hsecond))

theorem names_eachSorted (entries : Entries) :
    (eachSorted entries).map Prod.fst = entries.map Prod.fst := by
  induction entries with
  | nil => simp [eachSorted]
  | cons entry entries ih => simp [eachSorted, ih]

theorem Listed.nodup (h : Listed entries) : (entries.map Prod.fst).Nodup := by
  induction entries with
  | nil => simp
  | cons entry entries ih =>
    obtain ⟨-, hfresh, -, hrest⟩ := h
    exact List.nodup_cons.mpr ⟨hfresh, ih hrest⟩

theorem pairwise_byName (h : Listed entries) (hinner : ∀ entry ∈ eachSorted entries,
      entry.2.places.Pairwise fun left right => pathKey left < pathKey right) :
    (inOrder entries).Pairwise fun left right => pathKey left < pathKey right := by
  refine pairwise_placesOf (Sorting.sorted_lt ?_) fun entry hentry => hinner entry (mem_byName.mp hentry)
  have hkeys : (eachSorted entries).map (fun entry => nameKey entry.1) =
      (entries.map Prod.fst).map nameKey := by
    rw [← names_eachSorted, List.map_map]
    rfl
  rw [hkeys]
  exact h.nodup.map nameKey_injective

mutual
theorem Node.pairwise_sorted : ∀ {node : Node}, node.Listed →
    node.sorted.places.Pairwise fun left right => pathKey left < pathKey right
  | .file _, _ => by simp [Node.sorted, Node.places]
  | .directory entries, h => by
    have hinner := pairwise_byName h (pairwise_eachSorted h)
    refine List.pairwise_cons.mpr ⟨fun place hplace => ?_, hinner⟩
    obtain ⟨_, _, _, _, rfl⟩ := mem_placesOf.mp hplace
    exact List.nil_lt_cons _ _
  | .symlink, _ => by simp [Node.sorted, Node.places]
  | .special, _ => by simp [Node.sorted, Node.places]

theorem pairwise_eachSorted : ∀ {entries : Entries}, Listed entries →
    ∀ entry ∈ eachSorted entries,
      entry.2.places.Pairwise fun left right => pathKey left < pathKey right
  | [], _ => by simp [eachSorted]
  | (_, _) :: _, h => by
    obtain ⟨-, -, hnode, hrest⟩ := h
    intro entry hentry
    rcases List.mem_cons.mp hentry with rfl | hentry
    · exact Node.pairwise_sorted hnode
    · exact pairwise_eachSorted hrest entry hentry
end

/-- A tree is hashed in the order of its paths. -/
theorem pairwise_inOrder (h : Listed entries) :
    (inOrder entries).Pairwise fun left right => pathKey left < pathKey right :=
  pairwise_byName h (pairwise_eachSorted h)

theorem inOrder_congr (h : Listed entries) (hothers : Listed others)
    (hplaces : ∀ place, place ∈ placesOf entries ↔ place ∈ placesOf others) :
    inOrder entries = inOrder others := by
  refine Sorting.eq_of_mem_iff (pairwise_inOrder h) (pairwise_inOrder hothers) fun place => ?_
  rw [mem_inOrder, mem_inOrder, hplaces]

/-- A place less the content of a file. -/
def outline (place : List Bytes × Option Bytes) : List Bytes × Option Nat :=
  (place.1, place.2.map List.length)

theorem outline_inOrder_congr (h : Listed entries) (hothers : Listed others)
    (hplaces : ∀ place, place ∈ (placesOf entries).map outline ↔
      place ∈ (placesOf others).map outline) :
    (inOrder entries).map outline = (inOrder others).map outline := by
  refine @Sorting.eq_of_mem_iff _ _ _ (fun place => place.1.map nameKey) _ _
    (List.pairwise_map.mpr (pairwise_inOrder h)) (List.pairwise_map.mpr (pairwise_inOrder hothers))
    fun place => ?_
  simp only [List.mem_map, mem_inOrder]
  simpa only [List.mem_map] using hplaces place

/-- Of trees with the same paths, kinds and sizes only equal ones are hashed alike. -/
theorem inOrder_injective
    (houtline : (inOrder entries).map outline = (inOrder others).map outline)
    (h : (inOrder entries).flatMap (fedPlace []) = (inOrder others).flatMap (fedPlace [])) :
    inOrder entries = inOrder others := by
  refine Framing.flatMap_injective_of_outline ?_ houtline h
  rintro ⟨path, content⟩ ⟨otherPath, otherContent⟩ rest rest' hsame heq
  obtain ⟨rfl, hsize⟩ := Prod.mk.inj hsame
  simp only [fedPlace, List.append_assoc] at heq
  have heq := List.append_cancel_left heq
  cases content with
  | none =>
    cases otherContent with
    | none => exact ⟨rfl, heq⟩
    | some otherContent => cases hsize
  | some content =>
    cases otherContent with
    | none => cases hsize
    | some otherContent =>
      obtain ⟨rfl, hrest⟩ := List.append_inj heq (Option.some.inj hsize)
      exact ⟨rfl, hrest⟩

end Places

/-! ### What the tag tells apart -/

theorem pathJson_ok {path : Bytes} {document : Json} :
    PythonRootfsSource.pathJson path = .ok document ↔
      ∃ text, document = .string text ∧ Utf8.encode text = path := by
  rw [PythonRootfsSource.pathJson]
  split
  · rename_i text htext
    obtain rfl := Utf8.decode_eq_some.mp htext
    simp [Utf8.encode_injective.eq_iff, eq_comm]
  · rename_i hnone
    refine ⟨fun h => (by cases h), ?_⟩
    rintro ⟨text, -, rfl⟩
    rw [Utf8.decode_encode] at hnone
    cases hnone

/-- A document is written from one set of settings. -/
theorem toJson_injective {source other : PythonRootfsSource} {document : Json}
    (h : source.toJson = .ok document) (hother : other.toJson = .ok document) : source = other := by
  obtain ⟨project, entry, lock, profile, base⟩ := source
  obtain ⟨project', entry', lock', profile', base'⟩ := other
  obtain ⟨_, hproject, h⟩ := bind_ok.mp h
  obtain ⟨_, hlock, h⟩ := bind_ok.mp h
  obtain ⟨_, hproject', hother⟩ := bind_ok.mp hother
  obtain ⟨_, hlock', hother⟩ := bind_ok.mp hother
  obtain ⟨_, rfl, rfl⟩ := pathJson_ok.mp hproject
  obtain ⟨_, rfl, rfl⟩ := pathJson_ok.mp hlock
  obtain ⟨_, rfl, rfl⟩ := pathJson_ok.mp hproject'
  obtain ⟨_, rfl, rfl⟩ := pathJson_ok.mp hlock'
  have hprofile : ∀ {profile profile'}, PythonRootfsSource.profileName profile =
      PythonRootfsSource.profileName profile' → profile = profile' := by
    intro profile profile' hname
    cases profile <;> cases profile' <;> first | rfl | exact absurd hname (by decide)
  have heq := h.trans hother.symm
  by_cases hbase : base = PythonRootfsSource.defaultBase
  · by_cases hbase' : base' = PythonRootfsSource.defaultBase
    · simp [Json.ofFields, Json.written, hbase, hbase'] at heq
      obtain ⟨rfl, rfl, rfl, hname⟩ := heq
      rw [hprofile hname, hbase, hbase']
    · simp [Json.ofFields, Json.written, hbase, hbase'] at heq
  · by_cases hbase' : base' = PythonRootfsSource.defaultBase
    · simp [Json.ofFields, Json.written, hbase, hbase'] at heq
    · simp [Json.ofFields, Json.written, hbase, hbase'] at heq
      obtain ⟨rfl, rfl, rfl, hname, rfl⟩ := heq
      rw [hprofile hname]

section Identity
variable {codec : JsonCodec} {host : String} {inputs other : ImageInputs} {root otherRoot : Bytes}

/-- The inputs are the same, in whatever order their directories are listed. -/
structure SameInputs (host : String) (inputs other : ImageInputs) : Prop where
  pyproject : inputs.pyproject = other.pyproject
  lock : inputs.lock = other.lock
  source : inputs.source = other.source
  arch : normalizeArch host inputs.arch = normalizeArch host other.arch
  tree : ∀ place, place ∈ placesOf inputs.tree.entries ↔ place ∈ placesOf other.tree.entries

/-- The parts of the inputs are of the same sizes, and the trees have the same paths, with
the same kinds and sizes. -/
structure SameFrame (codec : JsonCodec) (host : String) (inputs other : ImageInputs) : Prop where
  pyproject : inputs.pyproject.length = other.pyproject.length
  lock : inputs.lock.length = other.lock.length
  source : (inputs.source.toJson.map fun source => (codec.toVec source).length) =
    other.source.toJson.map fun source => (codec.toVec source).length
  arch : (normalizeArch host inputs.arch).map String.utf8ByteSize =
    (normalizeArch host other.arch).map String.utf8ByteSize
  tree : ∀ place, place ∈ (placesOf inputs.tree.entries).map outline ↔
    place ∈ (placesOf other.tree.entries).map outline

theorem SameInputs.frame (h : SameInputs host inputs other) : SameFrame codec host inputs other where
  pyproject := by rw [h.pyproject]
  lock := by rw [h.lock]
  source := by rw [h.source]
  arch := by rw [h.arch]
  tree := by
    intro place
    simp only [List.mem_map, h.tree]

theorem fedImage_ok {fed : Bytes} : fedImage root codec host inputs = .ok fed ↔
    ∃ source arch, inputs.source.toJson = .ok source ∧ normalizeArch host inputs.arch = .ok arch ∧
      Regular inputs.tree.entries ∧
      fed = inputs.pyproject ++ inputs.lock ++ codec.toVec source ++ Utf8.encode arch ++
        (inOrder inputs.tree.entries).flatMap (fedPlace []) := by
  simp only [fedImage, bind_ok, hashTree_ok, Except.ok.injEq]
  constructor
  · rintro ⟨source, hsource, arch, harch, _, ⟨hregular, rfl⟩, rfl⟩
    exact ⟨source, arch, hsource, harch, hregular, rfl⟩
  · rintro ⟨source, arch, hsource, harch, hregular, rfl⟩
    exact ⟨source, hsource, arch, harch, _, ⟨hregular, rfl⟩, rfl⟩

/-- Inputs that are hashed alike and fall into parts of the same sizes are the same. -/
theorem SameFrame.same (hframe : SameFrame codec host inputs other)
    (hkeeps : ∀ document, inputs.source.toJson = .ok document → codec.Keeps document)
    (hothers : ∀ document, other.source.toJson = .ok document → codec.Keeps document) {fed : Bytes}
    (h : fedImage root codec host inputs = .ok fed)
    (hother : fedImage otherRoot codec host other = .ok fed) : SameInputs host inputs other := by
  obtain ⟨source, arch, hsource, harch, -, rfl⟩ := fedImage_ok.mp h
  obtain ⟨source', arch', hsource', harch', -, heq⟩ := fedImage_ok.mp hother
  have hsize := hframe.source
  rw [hsource, hsource'] at hsize
  have hsize := Except.ok.inj hsize
  have harchSize := hframe.arch
  rw [harch, harch'] at harchSize
  have harchSize := Except.ok.inj harchSize
  simp only [List.append_assoc] at heq
  obtain ⟨hpyproject, heq⟩ := List.append_inj heq hframe.pyproject
  obtain ⟨hlock, heq⟩ := List.append_inj heq hframe.lock
  obtain ⟨htext, heq⟩ := List.append_inj heq hsize
  obtain ⟨hname, htree⟩ := List.append_inj heq
    (by rw [Utf8.length_encode, Utf8.length_encode, harchSize])
  have hdocument : source = source' := by
    have hread := hkeeps source hsource
    rw [JsonCodec.Keeps, htext, hothers source' hsource'] at hread
    exact (Except.ok.inj hread).symm
  refine ⟨hpyproject, hlock, toJson_injective hsource (hdocument ▸ hsource'), ?_, fun place => ?_⟩
  · rw [harch, harch', Utf8.encode_injective hname]
  · have houtline := outline_inOrder_congr inputs.tree.listed other.tree.listed hframe.tree
    rw [← mem_inOrder, inOrder_injective houtline htree, mem_inOrder]

/-- The order in which directories are listed is not part of what is hashed. -/
theorem SameInputs.fedImage (h : SameInputs host inputs other)
    (hregular : Regular inputs.tree.entries ↔ Regular other.tree.entries) (fed : Bytes) :
    fedImage root codec host inputs = .ok fed ↔ Python.fedImage otherRoot codec host other = .ok fed := by
  rw [fedImage_ok, fedImage_ok, h.pyproject, h.lock, h.source, h.arch, hregular,
    inOrder_congr inputs.tree.listed other.tree.listed h.tree]

/-- A byte at the end of one file might as well be at the start of the next. -/
theorem exists_moved (h : inputs.pyproject ++ inputs.lock ≠ []) :
    ∃ moved, Python.fedImage root codec host moved = Python.fedImage root codec host inputs ∧
      ¬ SameInputs host moved inputs := by
  obtain ⟨pyproject, lock, source, arch, tree⟩ := inputs
  have hmoved : ∃ pyproject' lock', pyproject' ++ lock' = pyproject ++ lock ∧ pyproject' ≠ pyproject := by
    cases pyproject with
    | cons byte bytes => exact ⟨[], (byte :: bytes) ++ lock, rfl, by simp⟩
    | nil =>
      obtain ⟨byte, bytes, hlock⟩ := List.exists_cons_of_ne_nil (show lock ≠ [] from h)
      exact ⟨[byte], bytes, hlock.symm, by simp⟩
  obtain ⟨pyproject', lock', hsame, hne⟩ := hmoved
  refine ⟨⟨pyproject', lock', source, arch, tree⟩, ?_, fun hinputs => hne hinputs.pyproject⟩
  simp only [Python.fedImage, hsame]

/-- Inputs that are hashed alike are the same just where they fall into parts of the same
sizes, which an input with a project file or a lock file never does with all of them. The
order in which directories are listed makes no difference. -/
theorem imageTag_identifies
    (hkeeps : ∀ document, inputs.source.toJson = .ok document → codec.Keeps document)
    (hothers : ∀ document, other.source.toJson = .ok document → codec.Keeps document) :
    (∀ fed, fedImage root codec host inputs = .ok fed → fedImage otherRoot codec host other = .ok fed →
      (SameInputs host inputs other ↔ SameFrame codec host inputs other)) ∧
    (inputs.pyproject ++ inputs.lock ≠ [] → ∃ moved,
      fedImage root codec host moved = fedImage root codec host inputs ∧
        ¬ SameInputs host moved inputs) ∧
    (SameInputs host inputs other → Regular inputs.tree.entries → Regular other.tree.entries →
      ∀ fed, fedImage root codec host inputs = .ok fed ↔ fedImage otherRoot codec host other = .ok fed) := by
  refine ⟨fun fed h hother => ⟨SameInputs.frame, fun hframe => hframe.same hkeeps hothers h hother⟩,
    exists_moved, fun hsame hregular hother => hsame.fedImage (iff_of_true hregular hother)⟩

end Identity

def sampleSource : PythonRootfsSource where
  project := Utf8.encode "app"
  entry := "main:run"
  lock := Utf8.encode "uv.lock"
  profile := .rootfs
  base := PythonRootfsSource.defaultBase

def sampleDocument : Json :=
  .ofFields
    [("project", some (.string "app")), ("entry", some (.string "main:run")),
      ("lock", some (.string "uv.lock")), ("profile", some (.string "rootfs")), ("base", none)]

def sampleText : Bytes := Utf8.encode <| "\x7b\"project\":\"app\",\"entry\":\"main:run\"," ++
  "\"lock\":\"uv.lock\",\"profile\":\"rootfs\"\x7d"

def sampleCodec : JsonCodec where
  toVec _ := sampleText
  fromSlice bytes := if bytes = sampleText then .ok sampleDocument else .error "expected value"

theorem sampleSource_toJson : sampleSource.toJson = .ok sampleDocument := by
  simp [PythonRootfsSource.toJson, PythonRootfsSource.pathJson, sampleSource, Utf8.decode_encode,
    sampleDocument, PythonRootfsSource.profileName]

theorem sampleCodec_keeps (document : Json) (h : sampleSource.toJson = .ok document) :
    sampleCodec.Keeps document := by
  rw [sampleSource_toJson] at h
  cases h
  simp [JsonCodec.Keeps, sampleCodec]

theorem plainName_letter : PlainName [97] ∧ PlainName [98] :=
  ⟨⟨by decide, by decide, by decide, by decide⟩, ⟨by decide, by decide, by decide, by decide⟩⟩

/-- A module and a package. -/
def sampleTree : SourceTree where
  entries := [([97], .file [1]), ([98], .directory [([97], .file [2])])]
  listed := by simp [Listed, Node.Listed, plainName_letter]
  addressable := by simp [filesOf, Node.files, joined]

/-- The same, listed the other way round. -/
def relistedTree : SourceTree where
  entries := sampleTree.entries.reverse
  listed := by simp [sampleTree, Listed, Node.Listed, plainName_letter]
  addressable := by simp [sampleTree, filesOf, Node.files, joined]

def sampleInputs (pyproject lock : Bytes) (tree : SourceTree) : ImageInputs where
  pyproject := pyproject
  lock := lock
  source := sampleSource
  arch := "host"
  tree := tree

theorem sampleInputs_fed (pyproject lock : Bytes) {tree : SourceTree} (h : Regular tree.entries)
    (root : Bytes) : fedImage root sampleCodec "aarch64" (sampleInputs pyproject lock tree) =
      .ok (pyproject ++ lock ++ sampleText ++ Utf8.encode "arm64" ++
        (inOrder tree.entries).flatMap (fedPlace [])) :=
  fedImage_ok.mpr ⟨_, _, sampleSource_toJson, rfl, h, rfl⟩

theorem sampleTree_regular : Regular sampleTree.entries ∧ Regular relistedTree.entries := by
  simp [sampleTree, relistedTree, Regular, Node.Regular]

def sampleProject : Bytes := Utf8.encode "[project]"

def sampleLock : Bytes := Utf8.encode "version = 1"

/-- A line break moves from the end of the project file to the start of the lock file. -/
theorem images_share_a_tag :
    fedImage [] sampleCodec "aarch64" (sampleInputs (sampleProject ++ [10]) sampleLock sampleTree) =
        fedImage [] sampleCodec "aarch64" (sampleInputs sampleProject ([10] ++ sampleLock) sampleTree) ∧
      (∃ fed, fedImage [] sampleCodec "aarch64"
        (sampleInputs (sampleProject ++ [10]) sampleLock sampleTree) = .ok fed) ∧
      ¬ SameInputs "aarch64" (sampleInputs (sampleProject ++ [10]) sampleLock sampleTree)
        (sampleInputs sampleProject ([10] ++ sampleLock) sampleTree) := by
  rw [sampleInputs_fed _ _ sampleTree_regular.1, sampleInputs_fed _ _ sampleTree_regular.1]
  refine ⟨by simp only [List.append_assoc], ⟨_, rfl⟩, fun h => ?_⟩
  have hlength := congrArg List.length h.pyproject
  simp [sampleInputs] at hlength

theorem imageTag_identifies_sample :
    SameInputs "aarch64" (sampleInputs sampleProject sampleLock sampleTree)
        (sampleInputs sampleProject sampleLock relistedTree) ∧
      SameFrame sampleCodec "aarch64" (sampleInputs sampleProject sampleLock sampleTree)
        (sampleInputs sampleProject sampleLock relistedTree) := by
  have hsame : SameInputs "aarch64" (sampleInputs sampleProject sampleLock sampleTree)
      (sampleInputs sampleProject sampleLock relistedTree) := by
    refine ⟨rfl, rfl, rfl, rfl, fun place => ?_⟩
    simp [sampleInputs, sampleTree, relistedTree, placesOf, Node.places]
    tauto
  obtain ⟨hidentifies, -, hfed⟩ := @imageTag_identifies sampleCodec "aarch64"
    (sampleInputs sampleProject sampleLock sampleTree)
    (sampleInputs sampleProject sampleLock relistedTree) [] [] sampleCodec_keeps sampleCodec_keeps
  have hfirst := sampleInputs_fed sampleProject sampleLock sampleTree_regular.1 []
  have hsecond := (hfed hsame sampleTree_regular.1 sampleTree_regular.2 _).mp hfirst
  exact ⟨hsame, (hidentifies _ hfirst hsecond).mp hsame⟩

end HologramLive.Python
