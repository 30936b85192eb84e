import HologramLive.Lib.Interleaving
import HologramLive.Lib.Program
import Mathlib.Data.List.Sort
import Mathlib.Data.String.Basic

/-! The daily archive of the index: a day goes to IPFS, and an entry for it into a ledger in which
each entry names the one before. -/

namespace HologramLive.ModelHub.Archive
open Lib

/-- An entry of the ledger. -/
structure Day where
  date : String
  cid : String
  models : Nat
  addressed : Nat
  files : Nat
  bytes : Nat
  source : Option String
  prev : Option String
  prevLedger : Option String
  archived : String
  index : String
  catalog : Option String

structure Ledger where
  format : String
  gateway : String
  mirror : Option String
  registry : Option String
  days : List Day

/-- What stands in a file: a whole document, or what a write had come to. -/
inductive Document where
  | whole (ledger : Ledger)
  | part

/-- What the runs leave for one another: the ledger, the file it is written to first, and the CID
of the ledger as it was last pinned. -/
structure Host where
  ledger : Option Document := none
  temporary : Option Document := none
  cid : Option String := none

/-- What is counted in the snapshot's index and its models. -/
structure Figures where
  models : Nat
  addressed : Nat
  files : Nat
  bytes : Nat
  source : Option String

inductive ArchiveCall : Type → Type where
  | snapshot : ArchiveCall Bool
  | readLedger : ArchiveCall (Option Document)
  | stage : ArchiveCall Bool
  | pack : ArchiveCall (Option String)
  | upload : ArchiveCall Unit
  | reported : ArchiveCall String
  | indexBlob : ArchiveCall (Option String)
  | readCid : ArchiveCall (Option String)
  | figures : ArchiveCall (Option Figures)
  | now : ArchiveCall String
  | catalog : ArchiveCall (Option (Option String))
  | writeTemporary (ledger : Ledger) : ArchiveCall Bool
  | replace : ArchiveCall Bool
  | pinned : ArchiveCall String
  | writeCid (cid : String) : ArchiveCall Bool
  | mirror : ArchiveCall Bool

/-- How a step goes: whether it succeeds, and what it finds if it looks for something. -/
structure Answer where
  ok : Bool := true
  text : String := ""
  found : Option String := none
  figures : Option Figures := none
  catalog : Option (Option String) := none

/-- The files are replaced by renaming; a write that fails leaves a part of the document. -/
def serve : ∀ {β : Type}, ArchiveCall β → Answer → Host → β × Host
  | _, .snapshot, answer, host => (answer.ok, host)
  | _, .readLedger, _, host => (host.ledger, host)
  | _, .stage, answer, host => (answer.ok, host)
  | _, .pack, answer, host => (answer.found, host)
  | _, .upload, _, host => ((), host)
  | _, .reported, answer, host => (answer.text, host)
  | _, .indexBlob, answer, host => (answer.found, host)
  | _, .readCid, _, host => (host.cid, host)
  | _, .figures, answer, host => (answer.figures, host)
  | _, .now, answer, host => (answer.text, host)
  | _, .catalog, answer, host => (answer.catalog, host)
  | _, .writeTemporary ledger, answer, host =>
    (answer.ok, { host with temporary := some (if answer.ok then .whole ledger else .part) })
  | _, .replace, answer, host =>
    (answer.ok, if answer.ok then { host with ledger := host.temporary, temporary := none } else host)
  | _, .pinned, answer, host => (answer.text, host)
  | _, .writeCid cid, answer, host => (answer.ok, if answer.ok then { host with cid := some cid } else host)
  | _, .mirror, answer, host => (answer.ok, host)

/-- A run ends with the code it exits with. -/
abbrev ArchiveProgram := Program ArchiveCall Nat

def check (ok : Bool) (code : Nat) : ArchiveProgram Unit := if ok then .done () else .fail code

def gateway : String := "https://ipfs.filebase.io/ipfs/"

/-- `any(e["date"] == date for e in days)`, of a file that can be read. -/
def listed (date : String) : Option Document → Bool
  | some (.whole ledger) => ledger.days.any (·.date = date)
  | _ => false

/-- The ledger that the new entry goes to. -/
def loadLedger : Option Document → ArchiveProgram Ledger
  | some (.whole ledger) => .done ledger
  | some .part => .fail 1
  | none => .done
    { format := "hologram.model-hub.archive/v1", gateway, mirror := none, registry := none, days := [] }

def require {α : Type} (value : Option α) (code : Nat) : ArchiveProgram α :=
  match value with
  | some value => .done value
  | none => .fail code

/-- The entry refers to the last one there is, and then the entries are sorted. -/
def Ledger.record (ledger : Ledger) (entry : Option String → Day) : Ledger :=
  { ledger with
    mirror := some "https://hub.uor.foundation/archive/"
    registry := some "hub.uor.foundation/model-hub/index"
    days := (ledger.days ++ [entry (ledger.days.getLast?.map (·.cid))]).insertionSort
      fun left right => left.date ≤ right.date }

def keepCid (pinned : String) : ArchiveProgram Unit :=
  if pinned = "" then .done () else do check (← .perform (.writeCid pinned)) 1

/-- What follows once the ledger is in place: it is pinned itself, and served. -/
def announce : ArchiveProgram Unit := do
  keepCid (← .perform .pinned)
  check (← .perform .mirror) 1

/-- `archive.sh`, for one date. -/
def archive (date : String) : ArchiveProgram Unit := do
  check (← .perform .snapshot) 2
  check (!listed date (← .perform .readLedger)) 0
  check (← .perform .stage) 1
  let root ← require (← .perform .pack) 1
  .perform .upload
  check ((← .perform .reported) = root) 7
  let index ← require (← .perform .indexBlob) 3
  let prevLedger ← .perform .readCid
  let figures ← require (← .perform .figures) 1
  let ledger ← loadLedger (← .perform .readLedger)
  let archived ← .perform .now
  let catalog ← .perform .catalog
  let entry := fun prev => {
    date, cid := root, models := figures.models, addressed := figures.addressed,
    files := figures.files, bytes := figures.bytes, source := figures.source, prev,
    prevLedger := prevLedger.filter (· ≠ ""), archived, index, catalog := catalog.join }
  check (← .perform (.writeTemporary (ledger.record entry))) 1
  check (← .perform .replace) 1
  announce

/-- A run for a date, and how its steps go up to the last that is made. -/
structure Run where
  date : String
  answers : List Answer

def step (host : Host) (run : Run) : Option Host :=
  some (Program.advance serve run.answers (archive run.date) host).2

end HologramLive.ModelHub.Archive
