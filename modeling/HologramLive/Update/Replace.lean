import HologramLive.Config.Loopback
import HologramLive.Lib.Utf8
import HologramLive.Store.AtomicWrite
import HologramLive.Transport.Registry

/-! The program's own replacement by a newer one, and the way back. -/

namespace HologramLive.Update
open Lib Lib.Files Store

/-- A program file: what is in it, and who may run it. -/
structure Binary where
  bytes : Contents
  mode : Nat
  deriving DecidableEq

abbrev Binaries := Path → Option Binary

inductive BinaryCall : Type → Type where
  | metadata (path : Path) : BinaryCall (Except IoError Unit)
  | write (path : Path) (bytes : Contents) : BinaryCall (Except IoError Unit)
  | setPermissions (path : Path) (mode : Nat) : BinaryCall (Except IoError Unit)
  | removeFile (path : Path) : BinaryCall (Except IoError Unit)
  | rename (source target : Path) : BinaryCall (Except IoError Unit)

namespace Binaries

def put (binaries : Binaries) (path : Path) (binary : Option Binary) : Binaries :=
  Function.update binaries path binary

@[simp] theorem put_same (binaries : Binaries) (path : Path) (binary : Option Binary) :
    binaries.put path binary path = binary := Function.update_self ..

theorem put_other {binaries : Binaries} {path other : Path} (h : other ≠ path)
    (binary : Option Binary) : binaries.put path binary other = binaries other :=
  Function.update_of_ne h _ _

/-- A file that is written to keeps its mode. -/
def written (binaries : Binaries) (path : Path) (bytes : Contents) : Binaries :=
  binaries.put path (some ⟨bytes, ((binaries path).map (·.mode)).getD 0o644⟩)

def granted (binaries : Binaries) : BinaryCall β → β × Binaries
  | .metadata path => (match binaries path with
    | some _ => .ok ()
    | none => .error missing, binaries)
  | .write path bytes => (.ok (), binaries.written path bytes)
  | .setPermissions path mode => match binaries path with
    | some binary => (.ok (), binaries.put path (some { binary with mode }))
    | none => (.error missing, binaries)
  | .removeFile path => match binaries path with
    | some _ => (.ok (), binaries.put path none)
    | none => (.error missing, binaries)
  | .rename source target => match binaries source with
    | some binary => (.ok (), (binaries.put source none).put target (some binary))
    | none => (.error missing, binaries)

def refused (binaries : Binaries) (error : IoError) (written : Option Nat) :
    BinaryCall β → β × Binaries
  | .metadata _ => (.error error, binaries)
  | .write path bytes => (.error error, match written with
    | some count => binaries.written path (bytes.take count)
    | none => binaries)
  | .setPermissions _ _ => (.error error, binaries)
  | .removeFile _ => (.error error, binaries)
  | .rename _ _ => (.error error, binaries)

end Binaries

def serve (operation : BinaryCall β) (verdict : Verdict) (binaries : Binaries) : β × Binaries :=
  match verdict with
  | .granted => binaries.granted operation
  | .refused error written => binaries.refused error written operation

abbrev BinaryProgram := Program BinaryCall

/-- Make a call and leave the program with its error when it fails. -/
def orFail (operation : BinaryCall (Except IoError Unit)) (path : Path) :
    BinaryProgram LiveError Unit :=
  .call operation fun reply => .ofExcept (reply.mapError (ioError path.display))

def previousPath (current : Path) : Path := current.withExtension "previous"

def failedPath (destination : Path) : Path := destination.withExtension "failed"

def binaryExists (path : Path) : BinaryProgram LiveError Bool := do
  let found ← .perform (.metadata path)
  pure found.isOk

/-- Take away what stands at a path, if something does. -/
def clear (path : Path) : BinaryProgram LiveError Unit := do
  if ← binaryExists path then orFail (.removeFile path) path

/-- Move a file aside and another into its place, or else move the first back. -/
def swap (source current aside : Path) : BinaryProgram LiveError Unit := do
  orFail (.rename current aside) current
  match ← .perform (.rename source current) with
  | .ok () => pure ()
  | .error error => do
    let _ ← .perform (.rename aside current)
    .fail (ioError current.display error)

/-- The process that replaces itself: its program file, why that cannot be told if it cannot,
and its number. -/
structure Self where
  path : Path
  unresolved : Option IoError := none
  pid : Nat

namespace Self

def currentExe (self : Self) : BinaryProgram LiveError Path :=
  match self.unresolved with
  | none => .done self.path
  | some error => .fail (.io s!"resolve current executable: {error.text}")

def temporary (self : Self) (current : Path) : Path := current.withExtension s!"update.{self.pid}"

def replaceCurrentBinary (self : Self) (bytes : Contents) : BinaryProgram LiveError Unit := do
  let current ← self.currentExe
  let temporary := self.temporary current
  orFail (.write temporary bytes) temporary
  orFail (.setPermissions temporary 0o755) temporary
  let previous := previousPath current
  clear previous
  swap temporary current previous

def replaceFromPath (source destination : Path) : BinaryProgram LiveError Unit := do
  let failed := failedPath destination
  clear failed
  swap source destination failed

def rollback (self : Self) : BinaryProgram LiveError Unit := do
  let current ← self.currentExe
  let previous := previousPath current
  if ← binaryExists previous then replaceFromPath previous current
  else .fail (.notFound s!"no previous binary at {previous.display}")

end Self

structure UpdateArtifact where
  url : String
  blake3 : String
  size : Nat

structure UpdateManifest where
  schemaVersion : Nat
  version : String
  channel : String
  protocolMin : Nat
  protocolMax : Nat
  artifacts : List (String × UpdateArtifact)

/-- Where updates come from: the configuration, what the addresses answer, and the hash. -/
structure Release where
  manifestUrl : Option String
  channel : String
  targetKey : String
  manifest : String → Except LiveError UpdateManifest
  download : String → Except LiveError Contents
  digest : Contents → String
  debug : String → String

namespace Release

def check (release : Release) : Except LiveError UpdateManifest := do
  match release.manifestUrl with
  | none => .error (.config "update.manifest_url is not configured")
  | some url => do
    Config.requireSecureUrl url
    let manifest ← release.manifest url
    if manifest.schemaVersion ≠ 1 then
      .error (.protocol s!"unsupported update manifest schema {manifest.schemaVersion}")
    else if manifest.channel ≠ release.channel then
      .error <| .protocol <|
        s!"update manifest channel {release.debug manifest.channel} does not match configured " ++
        s!"channel {release.debug release.channel}"
    else if ¬ (manifest.protocolMin ≤ Transport.protocolVersion ∧
        Transport.protocolVersion ≤ manifest.protocolMax) then
      .error (.protocol "update is incompatible with this native protocol")
    else .ok manifest

/-- The version and the bytes that an install is to put in place. -/
def fetch (release : Release) : Except LiveError (String × Contents) := do
  let manifest ← release.check
  match manifest.artifacts.lookup release.targetKey with
  | none => .error <| .notFound <|
    s!"release {manifest.version} has no artifact for {release.targetKey}"
  | some artifact => do
    Config.requireSecureUrl artifact.url
    let bytes ← release.download artifact.url
    if bytes.length ≠ artifact.size then
      .error (.protocol "downloaded update size does not match manifest")
    else if release.digest bytes ≠ artifact.blake3 then
      .error (.protocol "downloaded update digest does not match manifest")
    else .ok (manifest.version, bytes)

def install (release : Release) (self : Self) : BinaryProgram LiveError String := do
  let (version, bytes) ← .ofExcept release.fetch
  self.replaceCurrentBinary bytes
  pure version

end Release
end HologramLive.Update
