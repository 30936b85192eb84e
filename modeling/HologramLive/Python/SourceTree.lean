import HologramLive.Rootfs.Canonical

/-! The directories Python sources are read from, and the files found in them. -/

namespace HologramLive.Python
open Lib Lib.Result Store Rootfs

/-- What stands under a name. A directory has its entries in the order in which the file
system lists them. -/
inductive Node where
  | file (content : Bytes)
  | directory (entries : List (Bytes × Node))
  | symlink
  | special

abbrev Entries := List (Bytes × Node)

def display (path : List Bytes) : String := Utf8.decodeLossy (joined path)

/-! ### Trees as sets of files -/

mutual
/-- The files under a node, by the names that lead to them. -/
def Node.files : Node → Files
  | .file content => [([], content)]
  | .directory entries => filesOf entries
  | .symlink | .special => []

def filesOf : Entries → Files
  | [] => []
  | (name, node) :: rest => node.files.map (fun file => (name :: file.1, file.2)) ++ filesOf rest
end

mutual
/-- Only files and directories, at every depth. -/
def Node.Regular : Node → Prop
  | .file _ => True
  | .directory entries => Regular entries
  | .symlink | .special => False

def Regular : Entries → Prop
  | [] => True
  | (_, node) :: rest => node.Regular ∧ Regular rest
end

mutual
/-- What every file system keeps: a directory lists a name once, no name is a path, and
the size of a file is a `u64`. -/
def Node.Listed : Node → Prop
  | .file content => content.length < 2 ^ 64
  | .directory entries => Listed entries
  | .symlink | .special => True

def Listed : Entries → Prop
  | [] => True
  | (name, node) :: rest =>
    PlainName name ∧ name ∉ rest.map Prod.fst ∧ node.Listed ∧ Listed rest
end

/-- A source directory. The paths in it are text that fits in memory. -/
structure SourceTree where
  entries : Entries
  listed : Listed entries
  addressable : ∀ file ∈ filesOf entries, (joined file.1).length < 2 ^ 64

def SourceTree.files (tree : SourceTree) : Files := filesOf tree.entries

section Tree
variable {entries : Entries} {name : Bytes} {node : Node} {file other : List Bytes × Bytes}

theorem regular_iff : Regular entries ↔ ∀ entry ∈ entries, entry.2.Regular := by
  induction entries with
  | nil => simp [Regular]
  | cons entry entries ih => simp [Regular, ih]

theorem mem_filesOf_cons : file ∈ filesOf ((name, node) :: entries) ↔
    (∃ inner ∈ node.files, file = (name :: inner.1, inner.2)) ∨ file ∈ filesOf entries := by
  simp [filesOf, eq_comm]

/-- Every file has a name of its own, taken from the directory it is listed in. -/
theorem head_of_mem_filesOf (h : file ∈ filesOf entries) :
    ∃ name ∈ entries.map Prod.fst, ∃ names, file.1 = name :: names := by
  induction entries with
  | nil => simp [filesOf] at h
  | cons entry entries ih =>
    rcases mem_filesOf_cons.mp h with ⟨inner, -, rfl⟩ | hrest
    · exact ⟨entry.1, by simp, inner.1, rfl⟩
    · obtain ⟨name, hname, names, hnames⟩ := ih hrest
      exact ⟨name, List.mem_cons_of_mem _ hname, names, hnames⟩

/-- What is listed later goes by another name. -/
theorem ne_cons_of_fresh (hfresh : name ∉ entries.map Prod.fst) (h : file ∈ filesOf entries)
    (names : List Bytes) : file.1 ≠ name :: names := by
  intro hnames
  obtain ⟨head, hhead, tail, htail⟩ := head_of_mem_filesOf h
  rw [hnames] at htail
  obtain ⟨rfl, -⟩ := List.cons.inj htail
  exact hfresh hhead

theorem ne_nil_of_mem_filesOf (h : file ∈ filesOf entries) : file.1 ≠ [] := by
  obtain ⟨name, -, names, hnames⟩ := head_of_mem_filesOf h
  simp [hnames]

mutual
theorem Node.plain_of_mem_files : ∀ {node : Node}, node.Listed → ∀ file ∈ node.files,
    (∀ name ∈ file.1, PlainName name) ∧ file.2.length < 2 ^ 64
  | .file _, h => by
    rw [Node.Listed] at h
    simpa [Node.files] using h
  | .directory _, h => plain_of_mem_filesOf h
  | .symlink, _ => by simp [Node.files]
  | .special, _ => by simp [Node.files]

theorem plain_of_mem_filesOf : ∀ {entries : Entries}, Listed entries → ∀ file ∈ filesOf entries,
    (∀ name ∈ file.1, PlainName name) ∧ file.2.length < 2 ^ 64
  | [], _ => by simp [filesOf]
  | (name, node) :: rest, h => by
    obtain ⟨hname, -, hnode, hrest⟩ := h
    intro file hfile
    rcases mem_filesOf_cons.mp hfile with ⟨inner, hinner, rfl⟩ | hfile
    · obtain ⟨hnames, hsize⟩ := Node.plain_of_mem_files hnode inner hinner
      exact ⟨by simpa using ⟨hname, hnames⟩, hsize⟩
    · exact plain_of_mem_filesOf hrest file hfile
end

mutual
theorem Node.files_apart : ∀ {node : Node}, node.Listed → ∀ file ∈ node.files,
    ∀ other ∈ node.files, file.1 <+: other.1 → file = other
  | .file content, _ => by simp [Node.files]
  | .directory _, h => filesOf_apart h
  | .symlink, _ => by simp [Node.files]
  | .special, _ => by simp [Node.files]

/-- No file stands on the way to another. -/
theorem filesOf_apart : ∀ {entries : Entries}, Listed entries → ∀ file ∈ filesOf entries,
    ∀ other ∈ filesOf entries, file.1 <+: other.1 → file = other
  | [], _ => by simp [filesOf]
  | (name, node) :: rest, h => by
    obtain ⟨-, hfresh, hnode, hrest⟩ := h
    intro file hfile other hmem hbegins
    rcases mem_filesOf_cons.mp hfile with ⟨inner, hinner, rfl⟩ | hfile
    · rcases mem_filesOf_cons.mp hmem with ⟨second, hsecond, rfl⟩ | hmem
      · have hbegins := (List.cons_prefix_cons.mp hbegins).2
        rw [Node.files_apart hnode inner hinner second hsecond hbegins]
      · obtain ⟨tail, htail⟩ := hbegins
        exact absurd htail.symm (ne_cons_of_fresh hfresh hmem _)
    · rcases mem_filesOf_cons.mp hmem with ⟨second, hsecond, rfl⟩ | hmem
      · obtain ⟨head, -, names, hnames⟩ := head_of_mem_filesOf hfile
        rw [hnames, List.cons_prefix_cons] at hbegins
        rw [hbegins.1] at hnames
        exact absurd hnames (ne_cons_of_fresh hfresh hfile names)
      · exact filesOf_apart hrest file hfile other hmem hbegins
end

mutual
theorem Node.files_nodup : ∀ {node : Node}, node.Listed → (node.files.map Prod.fst).Nodup
  | .file _, _ => by simp [Node.files]
  | .directory _, h => filesOf_nodup h
  | .symlink, _ => by simp [Node.files]
  | .special, _ => by simp [Node.files]

theorem filesOf_nodup : ∀ {entries : Entries}, Listed entries →
    ((filesOf entries).map Prod.fst).Nodup
  | [], _ => by simp [filesOf]
  | (name, node) :: rest, h => by
    obtain ⟨-, hfresh, hnode, hrest⟩ := h
    have hinner : ((node.files.map fun file => (name :: file.1, file.2)).map Prod.fst).Nodup := by
      have hmap := (Node.files_nodup hnode).map (List.cons_injective (a := name))
      simpa [List.map_map, Function.comp_def] using hmap
    rw [filesOf, List.map_append]
    refine hinner.append (filesOf_nodup hrest) ?_
    intro path hpath hlater
    obtain ⟨inner, hmem, rfl⟩ := List.mem_map.mp hpath
    obtain ⟨file, -, rfl⟩ := List.mem_map.mp hmem
    obtain ⟨later, hlater, hsame⟩ := List.mem_map.mp hlater
    exact ne_cons_of_fresh hfresh hlater file.1 hsame
end

end Tree
end HologramLive.Python
