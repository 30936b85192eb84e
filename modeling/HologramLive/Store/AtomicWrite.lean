import HologramLive.Error
import HologramLive.Lib.Files

namespace HologramLive.Store
open Lib Lib.Files

def ioError (path : String) (error : IoError) : LiveError := .io s!"{path}: {error.text}"

def temporaryFor (pid : Nat) (path : Path) : Path := path.withExtension s!"tmp.{pid}"

/-- Write beside the path, take the old file away and move the new one there. -/
def atomicWrite (pid : Nat) (path : Path) (bytes : Contents) : FileProgram LiveError Unit := do
  attempt (.createDirAll path.parent) (ioError ("/".intercalate path.parent))
  let temporary := temporaryFor pid path
  attempt (.write temporary bytes) (ioError temporary.display)
  if ← pathExists path then
    attempt (.removeFile path) (ioError path.display)
  attempt (.rename temporary path) (ioError path.display)

theorem two_dots_temporaryFor (pid : Nat) (path : Path) : 2 ≤ dots (temporaryFor pid path).name := by
  have hdots : dots s!"tmp.{pid}" = 1 + dots (toString pid) := by
    change dots ("tmp." ++ toString pid) = _
    rw [dots_append]
    rfl
  rw [temporaryFor, dots_withExtension, hdots]
  omega

theorem temporaryFor_ne (pid : Nat) (path : Path) : temporaryFor pid path ≠ path := by
  apply withExtension_ne
  change 0 < dots ("tmp." ++ toString pid)
  rw [dots_append]
  exact Nat.lt_of_lt_of_le (by decide : 0 < dots "tmp.") (Nat.le_add_right _ _)

section Run
variable {files : FileSystem} {path : Path} {pid : Nat} {new : Contents}

/-- The file system once the part of the verdicts that has been given has taken effect. -/
def passing (pid : Nat) (path : Path) (new : Contents) (passed : List Verdict)
    (files : FileSystem) : FileSystem :=
  (Program.advance serve passed (atomicWrite pid path new) files).2

theorem removed_absent {old : Contents} (h : files path = some old) :
    passing pid path new (List.replicate 4 .granted) files path = none := by
  have hne := (temporaryFor_ne pid path).symm
  simp [passing, atomicWrite, attempt_bind, pathExists_bind, FileSystem.granted,
    FileSystem.write_other hne, h, List.replicate]

/-- The last call puts the new contents in place or leaves what is there. -/
theorem rename_kept (h : files path = some old) (passed : List Verdict) :
    (Program.advance serve passed
        (attempt (.rename (temporaryFor pid path) path) (ioError path.display))
        (files.write (temporaryFor pid path) new)).2 path = some old ∨
      (Program.advance serve passed
        (attempt (.rename (temporaryFor pid path) path) (ioError path.display))
        (files.write (temporaryFor pid path) new)).2 path = some new := by
  have hold : files.write (temporaryFor pid path) new path = some old := by
    rw [FileSystem.write_other (temporaryFor_ne pid path).symm, h]
  match passed with
  | [] => exact .inl (by simpa using hold)
  | .refused error written :: rest =>
    exact .inl (by simpa [attempt, FileSystem.refused] using hold)
  | .granted :: rest => exact .inr (by simp [attempt, FileSystem.granted])

theorem unremoved_kept (h : files path = some old) {passed : List Verdict}
    (hpassed : ¬ List.replicate 4 .granted <+: passed) :
    passing pid path new passed files path = some old ∨
      passing pid path new passed files path = some new := by
  have hold : ∀ bytes, files.write (temporaryFor pid path) bytes path = some old := by
    intro bytes
    rw [FileSystem.write_other (temporaryFor_ne pid path).symm, h]
  match passed with
  | [] => exact .inl (by simpa [passing] using h)
  | .refused error written :: rest =>
    left
    simpa [passing, atomicWrite, attempt_bind, FileSystem.refused] using h
  | [.granted] =>
    left
    simpa [passing, atomicWrite, attempt_bind, FileSystem.granted] using h
  | .granted :: .refused error none :: rest =>
    left
    simpa [passing, atomicWrite, attempt_bind, FileSystem.granted, FileSystem.refused] using h
  | .granted :: .refused error (some count) :: rest =>
    left
    simpa [passing, atomicWrite, attempt_bind, FileSystem.granted, FileSystem.refused] using hold _
  | [.granted, .granted] =>
    left
    simpa [passing, atomicWrite, attempt_bind, pathExists_bind, FileSystem.granted] using hold new
  | .granted :: .granted :: .refused error written :: rest =>
    simpa [passing, atomicWrite, attempt_bind, pathExists_bind, FileSystem.granted,
      FileSystem.refused] using rename_kept h rest
  | [.granted, .granted, .granted] =>
    left
    simp [passing, atomicWrite, attempt_bind, pathExists_bind, FileSystem.granted, hold new]
  | .granted :: .granted :: .granted :: .refused error written :: rest =>
    left
    simp [passing, atomicWrite, attempt_bind, pathExists_bind, FileSystem.granted,
      FileSystem.refused, hold new]
  | .granted :: .granted :: .granted :: .granted :: rest =>
    exact absurd (List.prefix_append (List.replicate 4 .granted) rest) hpassed

/-- The file is there with its old or its new contents at every point exactly when one
of the first four calls fails or is never made: past its removal there is a moment
without it. -/
theorem atomic_write_replaces (files : FileSystem) (path : Path) (old new : Contents) (pid : Nat)
    (verdicts : List Verdict) (h : files path = some old) :
    (∀ passed, passed <+: verdicts →
        passing pid path new passed files path = some old ∨
          passing pid path new passed files path = some new) ↔
      ¬ List.replicate 4 .granted <+: verdicts := by
  constructor
  · intro hkept hremoved
    have := hkept _ hremoved
    rw [removed_absent h] at this
    simp at this
  · intro hverdicts passed hpassed
    apply unremoved_kept h
    intro hfour
    exact hverdicts (hfour.trans hpassed)

end Run

def conversationFile : Path := { directory := ["history"], name := "0a.json" }

theorem atomic_write_replaces_sample :
    passing 7 conversationFile [2] [.granted, .granted, .granted]
        (FileSystem.write (fun _ => none) conversationFile [1]) conversationFile = some [1] ∨
      passing 7 conversationFile [2] [.granted, .granted, .granted]
        (FileSystem.write (fun _ => none) conversationFile [1]) conversationFile = some [2] :=
  (atomic_write_replaces _ conversationFile [1] [2] 7 [.granted, .granted, .granted, .refused missing none]
    (FileSystem.write_same ..)).mpr (by decide) _ (by decide)

/-- The update succeeds, and a reader between its last two calls finds no file. -/
theorem replaced_file_vanishes :
    passing 7 conversationFile [2] (List.replicate 5 .granted)
        (FileSystem.write (fun _ => none) conversationFile [1]) conversationFile = some [2] ∧
      passing 7 conversationFile [2] (List.replicate 4 .granted)
        (FileSystem.write (fun _ => none) conversationFile [1]) conversationFile = none := by
  decide

end HologramLive.Store
