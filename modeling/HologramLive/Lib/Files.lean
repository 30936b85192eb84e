import HologramLive.Lib.Program
import Mathlib.Logic.Function.Basic
import Mathlib.Data.List.Count
import Mathlib.Data.List.TakeWhile

/-! A file system as programs see it: the calls they make on it, and what each call
leaves behind when it is granted, refused or cut off half-way. -/

namespace HologramLive.Lib.Files

/-- A file's directory and its name in it. -/
structure Path where
  directory : List String
  name : String
  deriving DecidableEq

/-- The name without its last extension. A leading dot starts no extension. -/
def fileStem (name : String) : String :=
  match name.toList.reverse.dropWhile (· ≠ '.') with
  | [] | [_] => name
  | _ :: before => String.ofList before.reverse

namespace Path

def parent (path : Path) : List String := path.directory

def display (path : Path) : String := "/".intercalate (path.directory ++ [path.name])

def withExtension (path : Path) (extension : String) : Path :=
  { path with name := fileStem path.name ++ "." ++ extension }

end Path

structure IoError where
  notFound : Bool
  text : String
  deriving DecidableEq

def missing : IoError := { notFound := true, text := "No such file or directory (os error 2)" }

abbrev Contents := List UInt8

abbrev FileSystem := Path → Option Contents

inductive FileCall : Type → Type where
  | createDirAll (directory : List String) : FileCall (Except IoError Unit)
  | write (path : Path) (bytes : Contents) : FileCall (Except IoError Unit)
  | metadata (path : Path) : FileCall (Except IoError Unit)
  | read (path : Path) : FileCall (Except IoError Contents)
  | removeFile (path : Path) : FileCall (Except IoError Unit)
  | rename (source target : Path) : FileCall (Except IoError Unit)

/-- What becomes of a call. A write that is refused may have come as far as some of
the bytes. -/
inductive Verdict where
  | granted
  | refused (error : IoError) (written : Option Nat)
  deriving DecidableEq

namespace FileSystem

def write (files : FileSystem) (path : Path) (bytes : Contents) : FileSystem :=
  Function.update files path (some bytes)

def remove (files : FileSystem) (path : Path) : FileSystem := Function.update files path none

@[simp] theorem write_same (files : FileSystem) (path : Path) (bytes : Contents) :
    files.write path bytes path = some bytes := Function.update_self ..

theorem write_other {files : FileSystem} {path other : Path} (h : other ≠ path)
    (bytes : Contents) : files.write path bytes other = files other := Function.update_of_ne h _ _

@[simp] theorem remove_same (files : FileSystem) (path : Path) :
    files.remove path path = none := Function.update_self ..

theorem remove_other {files : FileSystem} {path other : Path} (h : other ≠ path) :
    files.remove path other = files other := Function.update_of_ne h _ _

/-- A file that is there is moved over whatever stood at the target. -/
def granted (files : FileSystem) : FileCall β → β × FileSystem
  | .createDirAll _ => (.ok (), files)
  | .write path bytes => (.ok (), files.write path bytes)
  | .metadata path => (match files path with
    | some _ => .ok ()
    | none => .error missing, files)
  | .read path => (match files path with
    | some bytes => .ok bytes
    | none => .error missing, files)
  | .removeFile path => match files path with
    | some _ => (.ok (), files.remove path)
    | none => (.error missing, files)
  | .rename source target => match files source with
    | some bytes => (.ok (), (files.remove source).write target bytes)
    | none => (.error missing, files)

def refused (files : FileSystem) (error : IoError) (written : Option Nat) :
    FileCall β → β × FileSystem
  | .createDirAll _ => (.error error, files)
  | .write path bytes => (.error error, match written with
    | some count => files.write path (bytes.take count)
    | none => files)
  | .metadata _ => (.error error, files)
  | .read _ => (.error error, files)
  | .removeFile _ => (.error error, files)
  | .rename _ _ => (.error error, files)

end FileSystem

def serve (operation : FileCall β) (verdict : Verdict) (files : FileSystem) : β × FileSystem :=
  match verdict with
  | .granted => files.granted operation
  | .refused error written => files.refused error written operation

@[simp] theorem isOk_ok (value : α) : (Except.ok value : Except ε α).isOk = true := rfl

@[simp] theorem isOk_error (error : ε) : (Except.error error : Except ε α).isOk = false := rfl

@[simp] theorem serve_granted (operation : FileCall β) (files : FileSystem) :
    serve operation .granted files = files.granted operation := rfl

@[simp] theorem serve_refused (operation : FileCall β) (error : IoError) (written : Option Nat)
    (files : FileSystem) :
    serve operation (.refused error written) files = files.refused error written operation := rfl

abbrev FileProgram := Program FileCall

/-- `Path::exists`: a path that cannot be examined counts as absent. -/
def pathExists (path : Path) : FileProgram ε Bool := do
  let found ← .perform (.metadata path)
  pure found.isOk

def onReply (mapErr : IoError → ε) (reply : Except IoError β) : FileProgram ε β :=
  .ofExcept (reply.mapError mapErr)

@[simp] theorem onReply_ok (mapErr : IoError → ε) (value : β) :
    onReply mapErr (.ok value) = .done value := rfl

@[simp] theorem onReply_error (mapErr : IoError → ε) (error : IoError) :
    (onReply mapErr (.error error) : FileProgram ε β) = .fail (mapErr error) := rfl

/-- Make a call and leave the program with a mapped error when it fails. -/
def attempt (operation : FileCall (Except IoError β)) (mapErr : IoError → ε) : FileProgram ε β :=
  .call operation (onReply mapErr)

theorem attempt_bind (operation : FileCall (Except IoError β)) (mapErr : IoError → ε)
    (rest : β → FileProgram ε γ) :
    (attempt operation mapErr >>= rest) = .call operation fun reply =>
      onReply mapErr reply >>= rest := rfl

theorem pathExists_bind (path : Path) (rest : Bool → FileProgram ε γ) :
    (pathExists path >>= rest) = .call (.metadata path) fun found => rest found.isOk := rfl

/-- What `pathExists` finds. -/
def found (verdict : Verdict) (files : FileSystem) (path : Path) : Bool :=
  match verdict with
  | .granted => (files path).isSome
  | .refused _ _ => false

theorem serve_metadata (verdict : Verdict) (files : FileSystem) (path : Path) :
    (serve (.metadata path) verdict files).1.isOk = found verdict files path ∧
      (serve (.metadata path) verdict files).2 = files := by
  cases verdict with
  | refused error written => exact ⟨rfl, rfl⟩
  | granted =>
    simp only [serve_granted, FileSystem.granted, found]
    cases files path <;> exact ⟨rfl, trivial⟩

theorem advance_pathExists (verdict : Verdict) (verdicts : List Verdict) (path : Path)
    (rest : Bool → FileProgram ε γ) (files : FileSystem) :
    Program.advance serve (verdict :: verdicts) (pathExists path >>= rest) files =
      Program.advance serve verdicts (rest (found verdict files path)) files := by
  obtain ⟨hfound, hfiles⟩ := serve_metadata verdict files path
  rw [pathExists_bind, Program.advance_call, hfound, hfiles]

section Ensures
variable {may : Verdict → Prop} {holds : FileSystem → Prop} {post : Except ε γ → FileSystem → Prop}
  {files : FileSystem}

/-- A call that may leave the program: what it must ensure for each verdict. -/
theorem ensures_attempt {operation : FileCall (Except IoError β)} {mapErr : IoError → ε}
    {rest : β → FileProgram ε γ} (hnow : holds files)
    (hgranted : Program.Ensures serve may holds post
      (onReply mapErr (files.granted operation).1 >>= rest) (files.granted operation).2)
    (hrefused : ∀ error written, may (.refused error written) →
      holds (files.refused error written operation).2 ∧
      ∃ report, (files.refused error written operation).1 = .error report ∧
        post (.error (mapErr report)) (files.refused error written operation).2) :
    Program.Ensures serve may holds post (attempt operation mapErr >>= rest) files := by
  refine ⟨hnow, ?_⟩
  intro verdict hmay
  cases verdict with
  | granted => exact hgranted
  | refused error written =>
    obtain ⟨hholds, report, hreport, hpost⟩ := hrefused error written hmay
    change Program.Ensures serve may holds post
      (onReply mapErr (files.refused error written operation).1 >>= rest) _
    rw [hreport]
    exact ⟨hholds, hpost⟩

theorem ensures_pathExists {path : Path} {rest : Bool → FileProgram ε γ} (hnow : holds files)
    (h : ∀ verdict, may verdict →
      Program.Ensures serve may holds post (rest (found verdict files path)) files) :
    Program.Ensures serve may holds post (pathExists path >>= rest) files := by
  rw [pathExists_bind]
  refine ⟨hnow, ?_⟩
  intro verdict hmay
  obtain ⟨hfound, hfiles⟩ := serve_metadata verdict files path
  simp only [hfound, hfiles]
  exact h verdict hmay

end Ensures

/-! Names with different dots in them are different. -/

def dots (name : String) : Nat := name.toList.count '.'

theorem dots_append (left right : String) : dots (left ++ right) = dots left + dots right := by
  simp [dots]

theorem fileStem_of_no_dot {name : String} (h : dots name = 0) : fileStem name = name := by
  have hno : ∀ c ∈ name.toList.reverse, decide (c ≠ '.') = true := by
    intro c hc
    rw [decide_eq_true_eq]
    rintro rfl
    exact List.count_eq_zero.mp h (List.mem_reverse.mp hc)
  rw [fileStem, List.dropWhile_eq_nil_iff.mpr hno]

/-- An extension has at most its own dot. -/
theorem dots_le_fileStem (name : String) : dots name ≤ dots (fileStem name) + 1 := by
  have hsplit := @List.takeWhile_append_dropWhile _ (· ≠ '.') name.toList.reverse
  have hcount : (name.toList.reverse.takeWhile (· ≠ '.')).count '.' = 0 := by
    rw [List.count_eq_zero]
    intro hmem
    simpa using List.mem_takeWhile_imp hmem
  unfold fileStem
  split
  · omega
  · omega
  · rename_i first before _ hdrop
    rw [hdrop] at hsplit
    have hdots : dots name = (first :: before).count '.' := by
      rw [dots, ← List.count_reverse, ← hsplit, List.count_append, hcount, Nat.zero_add]
    rw [hdots, dots, String.toList_ofList, List.count_reverse, List.count_cons]
    split <;> omega

theorem dots_withExtension (path : Path) (extension : String) :
    dots (path.withExtension extension).name = dots (fileStem path.name) + 1 + dots extension := by
  simp only [Path.withExtension, dots_append]
  rfl

/-- An extension with a dot in it is never the one a name has. -/
theorem withExtension_ne (path : Path) {extension : String} (h : 0 < dots extension) :
    path.withExtension extension ≠ path := by
  intro heq
  have hdots := dots_withExtension path extension
  have hle := dots_le_fileStem path.name
  rw [heq] at hdots
  omega

end HologramLive.Lib.Files
