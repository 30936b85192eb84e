import HologramLive.Lib.Table
import HologramLive.ModelHub.Hub
import HologramLive.ModelHub.ZipSw
import Mathlib.Logic.Function.Basic

/-! Fetching the files of a model from its sources, and putting them on a server as chunks. -/

namespace HologramLive.ModelHub.Download
open Lib Hub

/-- A place the bytes of a revision can be fetched from. One that is hosted lists the chunks of
each file. -/
structure Source where
  kind : String
  resolve : String
  files : List (String × List String)

def Source.ofDoc (doc : SourceDoc) : Source := ⟨doc.kind, doc.resolve, doc.files⟩

/-- Files that are read and written, and requests to a source. A body comes in chunks and may break
off. -/
inductive FetchCall : Type → Type where
  | read (dest : String) : FetchCall (Option Bytes)
  | create (dest : String) : FetchCall Unit
  | append (dest : String) (chunk : Bytes) : FetchCall Unit
  | object (base id : String) : FetchCall (Option Bytes)
  | fetch (url : String) : FetchCall (Option (List Bytes × Bool))

abbrev FetchProgram := Program FetchCall String

abbrev DownloadProgram := Program (Either HubCall FetchCall) String

/-- One part of a path after those before it. The part `..` takes the one before away. -/
def normalizePart (absolute : Bool) (parts : List String) (part : String) : List String :=
  if part = "" ∨ part = "." then parts
  else if part = ".." then
    match parts.getLast? with
    | none => if absolute then parts else [".."]
    | some last => if last = ".." then parts ++ [".."] else parts.dropLast
  else parts ++ [part]

def partsOf (path : String) : List String := (path.toList.splitOn '/').map String.ofList

def isAbsolute (path : String) : Bool := path.toList.head? = some '/'

def normalizeParts (path : String) : List String :=
  (partsOf path).foldl (normalizePart (isAbsolute path)) []

def join (out path : String) : String :=
  let joined := "/".intercalate ([out, path].filter fun part => part ≠ "")
  let parts := normalizeParts joined
  let front := if isAbsolute joined then "/" else ""
  let back := if parts ≠ [] ∧ joined.toList.getLast? = some '/' then "/" else ""
  if parts = [] ∧ front = "" then "." else front ++ "/".intercalate parts ++ back

def CHUNK : Nat := 16 * 1024 * 1024

/-- What a file is put as. An empty file is one empty chunk. -/
def slices (buf : Bytes) : List Bytes :=
  if buf.length ≤ CHUNK then [buf] else buf.take CHUNK :: slices (buf.drop CHUNK)
termination_by buf.length
decreasing_by
  rw [List.length_drop]
  have hpos : 0 < CHUNK := by decide
  omega

section Program
variable (blake3 sha256 : Bytes → String)

def writeAll (dest : String) : List Bytes → FetchProgram Unit
  | [] => .done ()
  | chunk :: rest => do
    Program.perform (.append dest chunk)
    writeAll dest rest

/-- Each chunk by its address, and written when it hashes to that. -/
def writeObjects (base dest : String) : List String → FetchProgram Bytes
  | [] => .done []
  | cid :: rest => do
    match ← Program.perform (.object base cid) with
    | none => .fail s!"get {cid}"
    | some bytes =>
      if blake3 bytes = cid then do
        Program.perform (.append dest bytes)
        let more ← writeObjects base dest rest
        .done (bytes ++ more)
      else .fail s!"REFUSED {cid}"

def objectsPath : List Char := "/api/v1/objects/".toList

def baseOf (resolve : String) : String :=
  if objectsPath <:+ resolve.toList then
    String.ofList (resolve.toList.take (resolve.toList.length - objectsPath.length))
  else resolve

/-- The destination is made anew before anything is asked for. -/
def fetchFile (source : Source) (f : HubFile) (dest : String) : FetchProgram String := do
  Program.perform (.create dest)
  if source.kind = "hologram" then
    match source.files.lookup f.path with
    | none => .fail "not hosted there"
    | some ids =>
      let content ← writeObjects blake3 (baseOf source.resolve) dest ids
      .done (sha256 content)
  else
    match ← Program.perform (.fetch (source.resolve ++ encodePath f.path)) with
    | none => .fail "no answer"
    | some (chunks, ended) =>
      writeAll dest chunks
      if ended then .done (sha256 chunks.flatten) else .fail "terminated"

/-- How many files were there already and how many bytes were fetched, and how often bytes were
refused. -/
structure Tally where
  kept : Nat := 0
  bytes : Nat := 0
  refused : Nat := 0

/-- The sources in turn, until one has served what the manifest says. -/
def tryEach (f : HubFile) (dest : String) : List Source → Tally → FetchProgram (Bool × Tally)
  | [], tally => .done (false, tally)
  | source :: rest, tally => do
    match ← (fetchFile blake3 sha256 source f dest).attempt with
    | .ok got =>
      if got ≠ f.sha256 then tryEach f dest rest { tally with refused := tally.refused + 1 }
      else .done (true, { tally with bytes := tally.bytes + f.size })
    | .error _ => tryEach f dest rest tally

/-- Whether a file that is there has the size and the hash that the manifest gives. -/
def verified (f : HubFile) (found : Option Bytes) : Bool :=
  match found with
  | none => false
  | some bytes => bytes.length = f.size && sha256 bytes = f.sha256

def fetchFiles (out : String) (sources : List Source) : List HubFile → Tally → FetchProgram Tally
  | [], tally => .done tally
  | f :: rest, tally => do
    let dest := join out f.path
    let found ← Program.perform (.read dest)
    if verified sha256 f found then
      fetchFiles out sources rest { tally with kept := tally.kept + 1 }
    else
      let (ok, tally) ← tryEach blake3 sha256 f dest sources tally
      if ok then fetchFiles out sources rest tally
      else .fail s!"{f.path}: no source served the right bytes. Nothing was kept for this file."

/-- What the command is told. A flag that is empty is none. -/
structure Flags where
  rev : Option String
  prefer : Option String
  out : Option String
  only : Option String

/-- The sources that are listed, but for those of another version. -/
def gatherSources (model : String) : List String → HubProgram (List Source)
  | [] => .done []
  | sid :: rest => do
    let found ← Program.perform (.get sid)
    let sources ← gatherSources model rest
    match found with
    | .source doc => .done (if doc.model = model then .ofDoc doc :: sources else sources)
    | _ => .done sources

/-- The preferred kind first, and otherwise in the order they are in. -/
def inOrder (prefer : Option String) (sources : List Source) : List Source :=
  match prefer with
  | none => sources
  | some kind =>
    sources.filter (fun source => source.kind = kind) ++ sources.filter fun source => source.kind ≠ kind

def selectVersion (rev : Option String) (chain : List (String × ModelDoc)) :
    Option (String × ModelDoc) :=
  match rev with
  | none => chain.head?
  | some rev => chain.find? fun v => rev.toList.isPrefixOf v.2.revision.toList

/-- The version to be fetched and where it can be fetched from. -/
def resolveModel (bound : Nat) (id : String) (flags : Flags) :
    HubProgram ((String × ModelDoc) × List Source) := do
  let first ← Program.perform .head
  let chain ← versions bound ((first.bind fun found => found.2.objects.lookup id).map Listing.model)
  if chain = [] then .fail s!"{id}: not in the hub"
  else
    match selectVersion flags.rev chain with
    | none => .fail "no such revision"
    | some v =>
      match ← Program.perform .head with
      | none => .fail "no catalog"
      | some before =>
        match before.2.objects.lookup id with
        | none => .fail "no such model"
        | some listing =>
          let sources ← gatherSources v.1 listing.sources
          let origin := s!"https://huggingface.co/{id}/resolve/{v.2.revision}/"
          .done (v, inOrder flags.prefer (sources ++ [⟨"origin", origin, []⟩]))

def outOf (id : String) (flags : Flags) (doc : ModelDoc) : String :=
  match flags.out with
  | some out => out
  | none =>
    let owner := id.toList.takeWhile (· ≠ '/')
    let name := id.toList.drop (owner.length + 1)
    let flat := if '/' ∈ id.toList then owner ++ "__".toList ++ name else owner
    join "out" (String.ofList (flat ++ '@' :: doc.revision.toList.take 10))

def selected (flags : Flags) (doc : ModelDoc) : List HubFile :=
  doc.files.filter fun f => match flags.only with
    | none => true
    | some only => only.toList <:+: f.path.toList

/-- What a run has fetched and where to. -/
structure Report where
  model : String
  doc : ModelDoc
  out : String
  tally : Tally

def download (bound : Nat) (id : String) (flags : Flags) : DownloadProgram Report := do
  let (v, sources) ← (resolveModel bound id flags).translate .left
  let out := outOf id flags v.2
  let tally ← (fetchFiles blake3 sha256 out sources (selected flags v.2) {}).translate .right
  .done ⟨v.1, v.2, out, tally⟩

/-- The files of a model on this machine, and the server they are put on. -/
inductive HostCall : Type → Type where
  | read (path : String) : HostCall (Option Bytes)
  | put (filename : String) (bytes : Bytes) : HostCall (Option String)

abbrev HostProgram := Program HostCall String

def putSlices (filename : String) : Nat → List Bytes → HostProgram (List String)
  | _, [] => .done []
  | place, slice :: rest => do
    match ← Program.perform (.put s!"{filename}#{place}" slice) with
    | none => .fail s!"put {filename}"
    | some named =>
      if named = blake3 slice then do
        let ids ← putSlices filename (place + 1) rest
        .done (named :: ids)
      else .fail s!"put {filename}: server named it {named}"

/-- Files that are not what the manifest says are not hosted. -/
def hostFiles (id revision dir : String) :
    List HubFile → List (String × List String) → HostProgram (List (String × List String))
  | [], files => .done files
  | f :: rest, files => do
    let found ← Program.perform (.read (join dir f.path))
    if found.map sha256 ≠ some f.sha256 then
      .fail s!"{f.path}: local bytes do not match the manifest; refusing to host them"
    else
      match ← Program.perform (.read (join dir f.path)) with
      | none => .fail "no such file or directory"
      | some buf =>
        let short := String.ofList (revision.toList.take 10)
        let ids ← putSlices blake3 s!"{id}@{short}/{f.path}" 0 (slices buf)
        hostFiles id revision dir rest (Table.insert files f.path ids)

end Program

/-- The files as they are on the disk, the destinations that were made anew, and how many requests
were made to sources. -/
structure Disk where
  files : String → Option Bytes
  created : List String := []
  asked : Nat := 0

/-- How the hub answers, and how the sources do. -/
structure HubAnswers where
  head : Option (String × CatalogDoc)
  doc : String → Doc

structure SourceAnswers where
  object : String → String → Option Bytes
  body : String → Option (List Bytes × Bool)

/-- Nothing is put when a model is fetched. -/
def serveHub : {β : Type} → HubCall β → HubAnswers → Unit → β × Unit
  | _, .head, answers, _ => (answers.head, ())
  | _, .get id, answers, _ => (answers.doc id, ())
  | _, .put _, _, _ => ("", ())
  | _, .writeDescriptor _ _, _, _ => ((), ())

def serveFetch : {β : Type} → FetchCall β → SourceAnswers → Disk → β × Disk
  | _, .read dest, _, disk => (disk.files dest, disk)
  | _, .create dest, _, disk =>
    ((), { disk with
      files := Function.update disk.files dest (some []), created := disk.created ++ [dest] })
  | _, .append dest chunk, _, disk =>
    ((), { disk with
      files := Function.update disk.files dest (some ((disk.files dest).getD [] ++ chunk)) })
  | _, .object base id, answers, disk => (answers.object base id, { disk with asked := disk.asked + 1 })
  | _, .fetch url, answers, disk => (answers.body url, { disk with asked := disk.asked + 1 })

section Runs
variable (blake3 sha256 : Bytes → String) (out : String) (start : String → Option Bytes)
  (wanted : List HubFile)

/-- What a run leaves alone: all but the destinations of the selected files that were not there as
the manifest has them. -/
structure Spared (disk : Disk) : Prop where
  untouched : ∀ path, path ∉ disk.created → disk.files path = start path
  needed : ∀ path ∈ disk.created,
    ∃ f ∈ wanted, join out f.path = path ∧ verified sha256 f (start path) = false
  asked : disk.created = [] → disk.asked = 0

/-- At one destination something has been written. -/
structure Wrote (dest : String) (before after : Disk) : Prop where
  elsewhere : ∀ path, path ≠ dest → after.files path = before.files path
  created : dest ∈ after.created

/-- The selected files whose destinations are not those of later ones as well. -/
def finals : List HubFile → List HubFile
  | [] => []
  | f :: rest => if join out f.path ∈ rest.map (join out ·.path) then finals rest else f :: finals rest

/-- A file is there with the hash that the manifest gives. -/
def Matches (disk : Disk) (f : HubFile) : Prop :=
  ∃ bytes, disk.files (join out f.path) = some bytes ∧ sha256 bytes = f.sha256

/-- What is made sure of, however the sources answer. -/
def Sure {α : Type} (post : Except String α → Disk → Prop) (program : FetchProgram α) (disk : Disk) :
    Prop :=
  Program.Ensures serveFetch (fun _ => True) (Spared sha256 out start wanted) post program disk

variable {blake3 sha256 out start wanted} {α : Type} {disk : Disk} {dest : String} {f : HubFile}

theorem Wrote.trans {before middle after : Disk} (h : Wrote dest before middle)
    (h' : Wrote dest middle after) : Wrote dest before after :=
  ⟨fun path hpath => (h'.elsewhere path hpath).trans (h.elsewhere path hpath), h'.created⟩

/-- A destination can be made anew when it was before, or when it is not what the manifest says. -/
theorem Spared.create (h : Spared sha256 out start wanted disk) (hmem : f ∈ wanted)
    (hdest : join out f.path = dest)
    (hread : dest ∈ disk.created ∨ verified sha256 f (disk.files dest) = false) :
    Spared sha256 out start wanted { disk with
      files := Function.update disk.files dest (some []), created := disk.created ++ [dest] } where
  untouched := by
    intro path hpath
    obtain ⟨hold, hnew⟩ := not_or.mp (mt List.mem_append.mpr hpath)
    have hne : path ≠ dest := fun heq => hnew (List.mem_singleton.mpr heq)
    exact (Function.update_of_ne hne ..).trans (h.untouched path hold)
  needed := by
    intro path hpath
    rcases List.mem_append.mp hpath with hold | hnew
    · exact h.needed path hold
    · obtain rfl := List.mem_singleton.mp hnew
      by_cases hbefore : path ∈ disk.created
      · exact h.needed path hbefore
      · have hstart := hread.resolve_left hbefore
        rw [h.untouched path hbefore] at hstart
        exact ⟨f, hmem, hdest, hstart⟩
  asked := by simp

theorem Spared.append (h : Spared sha256 out start wanted disk) (hcreated : dest ∈ disk.created)
    (found : Option Bytes) :
    Spared sha256 out start wanted { disk with files := Function.update disk.files dest found } where
  untouched := by
    intro path hpath
    have hne : path ≠ dest := fun heq => hpath (heq ▸ hcreated)
    exact (Function.update_of_ne hne ..).trans (h.untouched path hpath)
  needed := h.needed
  asked := h.asked

theorem Spared.ask (h : Spared sha256 out start wanted disk) (hcreated : dest ∈ disk.created) :
    Spared sha256 out start wanted { disk with asked := disk.asked + 1 } where
  untouched := h.untouched
  needed := h.needed
  asked := fun hnone => absurd (hnone ▸ hcreated) List.not_mem_nil

theorem Wrote.update (found : Option Bytes) (hcreated : dest ∈ disk.created) :
    Wrote dest disk { disk with files := Function.update disk.files dest found } :=
  ⟨fun _ hpath => Function.update_of_ne hpath .., hcreated⟩

theorem writeAll_sure {chunks : List Bytes} {content : Bytes} (h : Spared sha256 out start wanted disk)
    (hcreated : dest ∈ disk.created) (hcontent : disk.files dest = some content) :
    Sure sha256 out start wanted (fun result after => result = .ok () ∧ Wrote dest disk after ∧
      after.files dest = some (content ++ chunks.flatten)) (writeAll dest chunks) disk := by
  induction chunks generalizing content disk with
  | nil => exact ⟨h, rfl, ⟨fun _ _ => rfl, hcreated⟩, by simpa using hcontent⟩
  | cons chunk rest ih =>
    refine ⟨h, fun answers _ => ?_⟩
    have hnow := h.append hcreated (some ((disk.files dest).getD [] ++ chunk))
    have hhere : (Function.update disk.files dest (some ((disk.files dest).getD [] ++ chunk))) dest =
        some (content ++ chunk) := by
      rw [Function.update_self, hcontent, Option.getD_some]
    refine (ih hnow hcreated hhere).mono (fun _ hspared => hspared) ?_
    rintro result after - ⟨hdone, hwrote, hlast⟩
    refine ⟨hdone, (Wrote.update _ hcreated).trans hwrote, ?_⟩
    rw [hlast, List.flatten_cons, List.append_assoc]

theorem writeObjects_sure {base : String} {ids : List String} {content : Bytes}
    (h : Spared sha256 out start wanted disk) (hcreated : dest ∈ disk.created)
    (hcontent : disk.files dest = some content) :
    Sure sha256 out start wanted (fun result after => Wrote dest disk after ∧
      ∀ bytes, result = .ok bytes → after.files dest = some (content ++ bytes) ∧
        ∃ pieces : List Bytes, ids = pieces.map blake3 ∧ bytes = pieces.flatten)
      (writeObjects blake3 base dest ids) disk := by
  induction ids generalizing content disk with
  | nil =>
    refine ⟨h, ⟨fun _ _ => rfl, hcreated⟩, fun bytes hbytes => ?_⟩
    obtain rfl := Except.ok.inj hbytes
    exact ⟨by simpa using hcontent, [], rfl, rfl⟩
  | cons cid rest ih =>
    rw [writeObjects, Program.perform_bind]
    refine ⟨h, fun answers _ => ?_⟩
    have hasked := h.ask hcreated
    have hsame : Wrote dest disk { disk with asked := disk.asked + 1 } := ⟨fun _ _ => rfl, hcreated⟩
    simp only [serveFetch]
    cases answers.1 base cid with
    | none => exact ⟨hasked, hsame, by simp⟩
    | some piece =>
      dsimp only
      split
      · rename_i haddress
        rw [Program.perform_bind]
        refine ⟨hasked, fun _ _ => ?_⟩
        have hnow := hasked.append hcreated (some ((disk.files dest).getD [] ++ piece))
        have hpiece : Wrote dest disk { disk with
            files := Function.update disk.files dest (some ((disk.files dest).getD [] ++ piece)),
            asked := disk.asked + 1 } := ⟨fun _ hpath => Function.update_of_ne hpath .., hcreated⟩
        have hhere : (Function.update disk.files dest (some ((disk.files dest).getD [] ++ piece))) dest =
            some (content ++ piece) := by
          rw [Function.update_self, hcontent, Option.getD_some]
        refine Program.Ensures.bind _ (ih hnow hcreated hhere) ?_ ?_
        · rintro more after hspared ⟨hwrote, hmore⟩
          obtain ⟨hlast, pieces, rfl, rfl⟩ := hmore more rfl
          refine ⟨hspared, hpiece.trans hwrote, fun bytes hbytes => ?_⟩
          obtain rfl := Except.ok.inj hbytes
          refine ⟨by rw [hlast, List.append_assoc], piece :: pieces, ?_, rfl⟩
          rw [List.map_cons, haddress]
        · rintro error after hspared ⟨hwrote, -⟩
          exact ⟨hpiece.trans hwrote, by simp⟩
      · exact ⟨hasked, hsame, by simp⟩

/-- A file that was fetched without an error is there, and hashes to what is reported. -/
theorem fetchFile_sure {source : Source} (h : Spared sha256 out start wanted disk) (hmem : f ∈ wanted)
    (hdest : join out f.path = dest)
    (hread : dest ∈ disk.created ∨ verified sha256 f (disk.files dest) = false) :
    Sure sha256 out start wanted (fun result after => Wrote dest disk after ∧
      ∀ got, result = .ok got → ∃ bytes, after.files dest = some bytes ∧ sha256 bytes = got ∧
        (source.kind = "hologram" → ∃ pieces : List Bytes,
          source.files.lookup f.path = some (pieces.map blake3) ∧ bytes = pieces.flatten))
      (fetchFile blake3 sha256 source f dest) disk := by
  rw [fetchFile, Program.perform_bind]
  refine ⟨h, fun answers _ => ?_⟩
  have hnew := h.create hmem hdest hread
  have hcreated : dest ∈ disk.created ++ [dest] := by simp
  have hwrote : Wrote dest disk { disk with
      files := Function.update disk.files dest (some []), created := disk.created ++ [dest] } :=
    ⟨fun _ hpath => Function.update_of_ne hpath .., hcreated⟩
  have hempty : (Function.update disk.files dest (some [])) dest = some [] := Function.update_self ..
  simp only [serveFetch]
  split
  · split
    · exact ⟨hnew, hwrote, by simp⟩
    · rename_i ids hids
      refine Program.Ensures.bind _ (writeObjects_sure hnew hcreated hempty) ?_ ?_
      · rintro content after hspared ⟨hmore, hcontent⟩
        obtain ⟨hlast, pieces, rfl, rfl⟩ := hcontent content rfl
        refine ⟨hspared, hwrote.trans hmore, fun got hgot => ?_⟩
        exact ⟨_, hlast, Except.ok.inj hgot, fun _ => ⟨pieces, hids, rfl⟩⟩
      · rintro error after hspared ⟨hmore, -⟩
        exact ⟨hwrote.trans hmore, by simp⟩
  · rename_i hkind
    rw [Program.perform_bind]
    refine ⟨hnew, fun answers _ => ?_⟩
    have hasked := hnew.ask hcreated
    simp only [serveFetch]
    cases answers.2 (source.resolve ++ encodePath f.path) with
    | none => exact ⟨hasked, ⟨hwrote.elsewhere, hcreated⟩, by simp⟩
    | some body =>
      obtain ⟨chunks, ended⟩ := body
      refine Program.Ensures.bind _ (writeAll_sure hasked hcreated hempty) ?_ ?_
      · rintro - after hspared ⟨-, hmore, hlast⟩
        have hall := hwrote.trans ⟨hmore.elsewhere, hmore.created⟩
        split
        · refine ⟨hspared, hall, fun got hgot => ?_⟩
          exact ⟨_, hlast, Except.ok.inj hgot, fun hhosted => absurd hhosted hkind⟩
        · exact ⟨hspared, hall, by simp⟩
      · rintro error after hspared ⟨hdone, -⟩
        cases hdone

/-- Whatever the sources do, it all happens at the file's own destination. -/
theorem tryEach_sure {sources : List Source} (tally : Tally) (h : Spared sha256 out start wanted disk)
    (hmem : f ∈ wanted) (hdest : join out f.path = dest)
    (hread : dest ∈ disk.created ∨ verified sha256 f (disk.files dest) = false) :
    Sure sha256 out start wanted (fun result after =>
      (∀ path, path ≠ dest → after.files path = disk.files path) ∧
      ∃ ok tally, result = .ok (ok, tally) ∧
        (ok = true → ∃ bytes, after.files dest = some bytes ∧ sha256 bytes = f.sha256))
      (tryEach blake3 sha256 f dest sources tally) disk := by
  induction sources generalizing disk tally with
  | nil => exact ⟨h, fun _ _ => rfl, false, tally, rfl, by simp⟩
  | cons source rest ih =>
    rw [tryEach]
    refine Program.Ensures.bind _ (fetchFile_sure h hmem hdest hread).attempt ?_ ?_
    · rintro outcome after hspared ⟨value, hvalue, hwrote, hgot⟩
      obtain rfl := Except.ok.inj hvalue
      have hlater : ∀ tally, Sure sha256 out start wanted (fun result last =>
          (∀ path, path ≠ dest → last.files path = disk.files path) ∧
          ∃ ok tally, result = .ok (ok, tally) ∧
            (ok = true → ∃ bytes, last.files dest = some bytes ∧ sha256 bytes = f.sha256))
          (tryEach blake3 sha256 f dest rest tally) after := by
        intro tally
        refine (ih tally hspared (.inl hwrote.created)).mono (fun _ hholds => hholds) ?_
        rintro result last - ⟨hsame, hdone⟩
        exact ⟨fun path hpath => (hsame path hpath).trans (hwrote.elsewhere path hpath), hdone⟩
      cases outcome with
      | error error => exact hlater _
      | ok got =>
        dsimp only
        split
        · exact hlater _
        · rename_i hsame
          obtain ⟨bytes, hbytes, hhash, -⟩ := hgot got rfl
          refine ⟨hspared, hwrote.elsewhere, true, _, rfl, fun _ => ⟨bytes, hbytes, ?_⟩⟩
          exact hhash.trans (not_not.mp hsame)
    · rintro error after hspared ⟨value, hvalue, -⟩
      cases hvalue

theorem verified_iff {found : Option Bytes} :
    verified sha256 f found = true ↔
      ∃ bytes, found = some bytes ∧ bytes.length = f.size ∧ sha256 bytes = f.sha256 := by
  cases found with
  | none => simp [verified]
  | some bytes => simp [verified]

/-- A file that is not fetched again under a later one's path stays as it was left. -/
theorem Matches.kept {before after : Disk} (h : Matches sha256 out before f)
    (hsame : after.files (join out f.path) = before.files (join out f.path)) :
    Matches sha256 out after f := by
  obtain ⟨bytes, hbytes, hhash⟩ := h
  exact ⟨bytes, hsame.trans hbytes, hhash⟩

theorem fetchFiles_sure {sources : List Source} {files : List HubFile} (tally : Tally)
    (h : Spared sha256 out start wanted disk) (hmem : ∀ f ∈ files, f ∈ wanted) :
    Sure sha256 out start wanted (fun result after =>
      (∀ path, path ∉ files.map (join out ·.path) → after.files path = disk.files path) ∧
      ∀ tally, result = .ok tally → ∀ f ∈ finals out files, Matches sha256 out after f)
      (fetchFiles blake3 sha256 out sources files tally) disk := by
  induction files generalizing disk tally with
  | nil => exact ⟨h, fun _ _ => rfl, by simp [finals]⟩
  | cons f rest ih =>
    rw [fetchFiles, Program.perform_bind]
    refine ⟨h, fun _ _ => ?_⟩
    have hrest : ∀ f ∈ rest, f ∈ wanted := fun other hother => hmem other (List.mem_cons_of_mem _ hother)
    -- What is left to do after the first file is at its destination.
    have hthen : ∀ (middle : Disk) (tally : Tally), Spared sha256 out start wanted middle →
        (∀ path, path ≠ join out f.path → middle.files path = disk.files path) →
        Matches sha256 out middle f →
        Sure sha256 out start wanted (fun result after =>
          (∀ path, path ∉ (f :: rest).map (join out ·.path) → after.files path = disk.files path) ∧
          ∀ tally, result = .ok tally → ∀ other ∈ finals out (f :: rest), Matches sha256 out after other)
          (fetchFiles blake3 sha256 out sources rest tally) middle := by
      intro middle tally hspared hsame hmatches
      refine (ih tally hspared hrest).mono (fun _ hholds => hholds) ?_
      rintro result after - ⟨hothers, hdone⟩
      refine ⟨fun path hpath => ?_, fun tally htally other hother => ?_⟩
      · obtain ⟨hfirst, hlater⟩ := not_or.mp (mt List.mem_cons.mpr hpath)
        exact (hothers path hlater).trans (hsame path hfirst)
      · rw [finals] at hother
        split at hother
        · exact hdone tally htally other hother
        · rename_i hlast
          rcases List.mem_cons.mp hother with heq | hother
          · rw [heq]
            exact Matches.kept hmatches (hothers _ hlast)
          · exact hdone tally htally other hother
    change Sure sha256 out start wanted _
      (if verified sha256 f (disk.files (join out f.path)) then _ else _) disk
    by_cases hverified : verified sha256 f (disk.files (join out f.path)) = true
    · rw [if_pos hverified]
      obtain ⟨bytes, hbytes, -, hhash⟩ := verified_iff.mp hverified
      exact hthen disk _ h (fun _ _ => rfl) ⟨bytes, hbytes, hhash⟩
    · rw [if_neg hverified]
      have hread := Bool.eq_false_iff.mpr hverified
      refine Program.Ensures.bind _
        (tryEach_sure tally h (hmem f List.mem_cons_self) rfl (.inr hread)) ?_ ?_
      · rintro ⟨ok, tally⟩ middle hspared ⟨hsame, ok', tally', hresult, hmatches⟩
        obtain ⟨rfl, rfl⟩ := Prod.mk.inj (Except.ok.inj hresult)
        dsimp only
        split
        · rename_i hok
          exact hthen middle _ hspared hsame (hmatches hok)
        · refine ⟨hspared, fun path hpath => ?_, by simp⟩
          exact hsame path (not_or.mp (mt List.mem_cons.mpr hpath)).1
      · rintro error middle hspared ⟨-, ok, tally, hresult, -⟩
        cases hresult

/-- However the sources answer and wherever a run ends: only destinations are touched at which a
selected file was not there as the manifest has it, and no source is asked unless there is one. A run
that ends well has them all. -/
theorem fetchFiles_resumes (blake3 sha256 : Bytes → String) (out : String) (sources : List Source)
    (files : List HubFile) (start : String → Option Bytes) (verdicts : List SourceAnswers) :
    let run := Program.advance serveFetch verdicts (fetchFiles blake3 sha256 out sources files {})
      { files := start }
    Spared sha256 out start files run.2 ∧ ∀ tally, run.1.outcome = some (.ok tally) →
      ∀ f ∈ finals out files, Matches sha256 out run.2 f := by
  have hstart : Spared sha256 out start files { files := start } :=
    ⟨fun _ _ => rfl, by simp, fun _ => rfl⟩
  have hsure : Sure sha256 out start files _ (fetchFiles blake3 sha256 out sources files {}) _ :=
    fetchFiles_sure {} hstart fun _ hmem => hmem
  obtain ⟨hspared, hended⟩ := hsure.sound fun verdict (_ : verdict ∈ verdicts) => trivial
  exact ⟨hspared, fun tally htally => (hended _ htally).2 tally rfl⟩

/-- What the hub names and the sources serve may be anything: a download that ends without an error
has every selected file with the hash that its manifest gives. -/
theorem download_verified (blake3 sha256 : Bytes → String) (bound : Nat) (id : String) (flags : Flags)
    (start : String → Option Bytes) (verdicts : List (HubAnswers × SourceAnswers)) :
    let run := Program.advance (Either.serve serveHub serveFetch) verdicts
      (download blake3 sha256 bound id flags) ((), { files := start })
    ∀ report, run.1.outcome = some (.ok report) →
      Spared sha256 report.out start (selected flags report.doc) run.2.2 ∧
        ∀ f ∈ finals report.out (selected flags report.doc), Matches sha256 report.out run.2.2 f := by
  intro run report hreport
  have hensures : Program.Ensures (Either.serve serveHub serveFetch) (fun _ => True) (fun _ => True)
      (fun result state => ∀ report, result = .ok report →
        Spared sha256 report.out start (selected flags report.doc) state.2 ∧
          ∀ f ∈ finals report.out (selected flags report.doc), Matches sha256 report.out state.2 f)
      (download blake3 sha256 bound id flags) ((), { files := start }) := by
    have hresolve : Program.Ensures serveHub (fun _ => True) (fun _ => True) (fun _ _ => True)
        (resolveModel bound id flags) () := .keeps trivial fun _ _ _ _ _ => trivial
    refine Program.Ensures.bind (fun _ state => state.2 = { files := start })
      (Either.ensures_left hresolve (fun _ _ => trivial) (fun _ _ => trivial) fun _ _ _ _ => rfl) ?_ ?_
    · rintro ⟨v, sources⟩ state - hstate
      have hspared : Spared sha256 (outOf id flags v.2) start (selected flags v.2) state.2 := by
        rw [hstate]
        exact ⟨fun _ _ => rfl, by simp, fun _ => rfl⟩
      refine Program.Ensures.bind (fun result state => Spared sha256 (outOf id flags v.2) start
          (selected flags v.2) state.2 ∧ ∀ tally, result = .ok tally →
            ∀ f ∈ finals (outOf id flags v.2) (selected flags v.2),
              Matches sha256 (outOf id flags v.2) state.2 f)
        (Either.ensures_right (fetchFiles_sure {} hspared fun _ hmem => hmem) (fun _ _ => trivial)
          (fun _ _ => trivial) fun result disk hdisk hpost => ⟨hdisk, hpost.2⟩) ?_ ?_
      · rintro tally last - ⟨hlast, hdone⟩
        refine ⟨trivial, fun report hreport => ?_⟩
        obtain rfl := Except.ok.inj hreport
        exact ⟨hlast, hdone tally rfl⟩
      · intro error last _ _
        simp
    · intro error state _ _
      simp
  exact (hensures.sound fun _ _ => trivial).2 _ hreport report rfl

end Runs

/-! ### Hosting -/

/-- The files on this machine, and what has been put on the server. -/
structure Peer where
  files : String → Option Bytes
  put : List Bytes := []

/-- The address the server gives to what is put, if it takes it. -/
abbrev PeerAnswer := String → Bytes → Option String

def serveHost : {β : Type} → HostCall β → PeerAnswer → Peer → β × Peer
  | _, .read path, _, peer => (peer.files path, peer)
  | _, .put filename bytes, answer, peer =>
    (answer filename bytes, { peer with put := peer.put ++ [bytes] })

section Hosting
variable {blake3 sha256 : Bytes → String} {localFiles : String → Option Bytes} {peer : Peer}
  {dir : String} {f : HubFile} {buf : Bytes}

theorem slices_flatten (buf : Bytes) : (slices buf).flatten = buf := by
  fun_induction slices buf with
  | case1 buf _ => simp
  | case2 buf _ ih => rw [List.flatten_cons, ih, List.take_append_drop]

variable (blake3 sha256 localFiles dir) in
/-- A file is listed with the addresses of its slices, and is what the manifest says. -/
def Hosts (hosted : List (String × List String)) (f : HubFile) : Prop :=
  ∃ buf, localFiles (join dir f.path) = some buf ∧ sha256 buf = f.sha256 ∧
    hosted.lookup f.path = some ((slices buf).map blake3)

theorem putSlices_ensures {filename : String} {place : Nat} {pieces : List Bytes}
    (h : peer.files = localFiles) :
    Program.Ensures serveHost (fun _ => True) (fun peer => peer.files = localFiles)
      (fun result _ => ∀ ids, result = .ok ids → ids = pieces.map blake3)
      (putSlices blake3 filename place pieces) peer := by
  induction pieces generalizing place peer with
  | nil =>
    refine ⟨h, fun ids hids => ?_⟩
    exact (Except.ok.inj hids).symm
  | cons slice rest ih =>
    rw [putSlices, Program.perform_bind]
    refine ⟨h, fun answer _ => ?_⟩
    simp only [serveHost]
    cases answer s!"{filename}#{place}" slice with
    | none => exact ⟨h, by simp⟩
    | some named =>
      dsimp only
      split
      · rename_i hnamed
        refine Program.Ensures.bind _ (ih h) ?_ ?_
        · intro ids after hafter hids
          refine ⟨hafter, fun all hall => ?_⟩
          obtain rfl := Except.ok.inj hall
          rw [List.map_cons, hids ids rfl, hnamed]
        · intro error after _ _
          simp
      · exact ⟨h, by simp⟩

/-- Another file that is listed takes no place, unless it is the same file. -/
theorem Hosts.insert {hosted : List (String × List String)} {other : HubFile}
    (h : Hosts blake3 sha256 localFiles dir hosted f)
    (hother : localFiles (join dir other.path) = some buf) :
    Hosts blake3 sha256 localFiles dir (Table.insert hosted other.path ((slices buf).map blake3)) f := by
  obtain ⟨found, hfound, hhash, hlookup⟩ := h
  refine ⟨found, hfound, hhash, ?_⟩
  rw [Table.lookup_insert]
  split
  · rename_i hpath
    rw [hpath, hother] at hfound
    rw [Option.some.inj hfound]
  · exact hlookup

theorem hostFiles_ensures {id revision : String} {files : List HubFile}
    {hosted : List (String × List String)} (h : peer.files = localFiles) :
    Program.Ensures serveHost (fun _ => True) (fun peer => peer.files = localFiles)
      (fun result _ => ∀ listed, result = .ok listed →
        (∀ f ∈ files, Hosts blake3 sha256 localFiles dir listed f) ∧
          ∀ f, Hosts blake3 sha256 localFiles dir hosted f → Hosts blake3 sha256 localFiles dir listed f)
      (hostFiles blake3 sha256 id revision dir files hosted) peer := by
  induction files generalizing hosted peer with
  | nil =>
    refine ⟨h, fun listed hlisted => ?_⟩
    obtain rfl := Except.ok.inj hlisted
    exact ⟨by simp, fun _ hhosts => hhosts⟩
  | cons f rest ih =>
    rw [hostFiles, Program.perform_bind]
    refine ⟨h, fun _ _ => ?_⟩
    change Program.Ensures serveHost _ _ _
      (if (peer.files (join dir f.path)).map sha256 ≠ some f.sha256 then _ else _) peer
    by_cases hfound : (peer.files (join dir f.path)).map sha256 ≠ some f.sha256
    · rw [if_pos hfound]
      exact ⟨h, by simp⟩
    · rw [if_neg hfound, Program.perform_bind]
      refine ⟨h, fun _ _ => ?_⟩
      simp only [serveHost]
      cases hbuf : peer.files (join dir f.path) with
      | none => exact ⟨h, by simp⟩
      | some buf =>
        have hlocal : localFiles (join dir f.path) = some buf := h ▸ hbuf
        have hhash : sha256 buf = f.sha256 := by
          rw [hbuf, not_not] at hfound
          exact Option.some.inj hfound
        refine Program.Ensures.bind _ (putSlices_ensures h) ?_ ?_
        · intro ids after hafter hids
          obtain rfl := hids ids rfl
          refine (ih hafter).mono (fun _ hholds => hholds) ?_
          intro result last _ hlisted listed hresult
          obtain ⟨hrest, hkept⟩ := hlisted listed hresult
          have hself : Hosts blake3 sha256 localFiles dir
              (Table.insert hosted f.path ((slices buf).map blake3)) f :=
            ⟨buf, hlocal, hhash, by rw [Table.lookup_insert, if_pos rfl]⟩
          refine ⟨fun other hother => ?_, fun other hhosts => hkept other (hhosts.insert hlocal)⟩
          rcases List.mem_cons.mp hother with heq | hother
          · rw [heq]
            exact hkept f hself
          · exact hrest other hother
        · intro error after _ _
          simp

variable {disk : Disk} {dest base : String} {ids : List String} {pieces : List Bytes}

theorem writeObjects_within (base dest : String) (ids : List String) :
    (writeObjects blake3 base dest ids).Within (2 * ids.length) := by
  induction ids with
  | nil => trivial
  | cons cid rest ih =>
    rw [writeObjects, Program.perform_bind]
    refine ⟨2 * rest.length + 1, by rw [List.length_cons]; omega, fun reply => ?_⟩
    cases reply with
    | none => trivial
    | some bytes =>
      dsimp only
      split
      · have hdone : ∀ more, (Program.done (bytes ++ more) : FetchProgram Bytes).Within 0 :=
          fun _ => trivial
        exact ⟨2 * rest.length, rfl, fun _ => ih.bind hdone⟩
      · trivial

/-- A server that has the chunks. -/
def Serves (blake3 : Bytes → String) (base : String) (pieces : List Bytes) (answer : SourceAnswers) :
    Prop := ∀ piece ∈ pieces, answer.object base (blake3 piece) = some piece

theorem writeObjects_served :
    Program.Ensures serveFetch (Serves blake3 base pieces) (fun _ => True)
      (fun result _ => ∃ bytes, result = .ok bytes)
      (writeObjects blake3 base dest (pieces.map blake3)) disk := by
  have hall : ∀ rest : List Bytes, (∀ piece ∈ rest, piece ∈ pieces) → ∀ disk,
      Program.Ensures serveFetch (Serves blake3 base pieces) (fun _ => True)
        (fun result _ => ∃ bytes, result = .ok bytes)
        (writeObjects blake3 base dest (rest.map blake3)) disk := by
    intro rest
    induction rest with
    | nil => exact fun _ disk => ⟨trivial, [], rfl⟩
    | cons piece rest ih =>
      intro hmem disk
      rw [List.map_cons, writeObjects, Program.perform_bind]
      refine ⟨trivial, fun answer hserves => ?_⟩
      simp only [serveFetch, hserves piece (hmem piece List.mem_cons_self), if_true]
      rw [Program.perform_bind]
      refine ⟨trivial, fun _ _ => ?_⟩
      refine Program.Ensures.bind _ (ih (fun other hother => hmem other (List.mem_cons_of_mem _ hother)) _)
        ?_ ?_
      · intro more after _ _
        exact ⟨trivial, _, rfl⟩
      · rintro error after - ⟨bytes, hbytes⟩
        cases hbytes
  exact hall pieces (fun _ hpiece => hpiece) disk

theorem fetchFile_within {resolve : String} {hosted : List (String × List String)}
    (hlookup : hosted.lookup f.path = some ids) :
    (fetchFile blake3 sha256 ⟨"hologram", resolve, hosted⟩ f dest).Within (2 * ids.length + 1) := by
  rw [fetchFile, Program.perform_bind]
  refine ⟨2 * ids.length, rfl, fun _ => ?_⟩
  rw [if_pos rfl, hlookup]
  have hdone : ∀ content, (Program.done (sha256 content) : FetchProgram String).Within 0 :=
    fun _ => trivial
  exact (writeObjects_within (baseOf resolve) dest ids).bind hdone

theorem fetchFile_served {resolve : String} {hosted : List (String × List String)}
    (hlookup : hosted.lookup f.path = some (pieces.map blake3)) :
    Program.Ensures serveFetch (Serves blake3 (baseOf resolve) pieces) (fun _ => True)
      (fun result _ => ∃ got, result = .ok got)
      (fetchFile blake3 sha256 ⟨"hologram", resolve, hosted⟩ f dest) disk := by
  rw [fetchFile, Program.perform_bind]
  refine ⟨trivial, fun _ _ => ?_⟩
  rw [if_pos rfl, hlookup]
  refine Program.Ensures.bind _ writeObjects_served ?_ ?_
  · intro content after _ _
    exact ⟨trivial, _, rfl⟩
  · rintro error after - ⟨bytes, hbytes⟩
    cases hbytes

/-- What was put by `host` is what a download gets from it: nothing else is ever taken for the file,
and a server that has the chunks gives it in full. -/
theorem hosted_served {id revision : String} {files : List HubFile} {verdicts : List PeerAnswer}
    {hosted : List (String × List String)} (hinjective : Function.Injective blake3)
    (hended : (Program.advance serveHost verdicts (hostFiles blake3 sha256 id revision dir files [])
      { files := localFiles }).1.outcome = some (.ok hosted)) (hf : f ∈ files) :
    ∃ buf, localFiles (join dir f.path) = some buf ∧ sha256 buf = f.sha256 ∧
      ∀ (out resolve : String) (start : String → Option Bytes) (answers : List SourceAnswers),
        verified sha256 f (start (join out f.path)) = false →
        let run := Program.advance serveFetch answers
          (fetchFile blake3 sha256 ⟨"hologram", resolve, hosted⟩ f (join out f.path)) { files := start }
        (∀ got, run.1.outcome = some (.ok got) →
          run.2.files (join out f.path) = some buf ∧ got = f.sha256) ∧
        ((∀ answer ∈ answers, Serves blake3 (baseOf resolve) (slices buf) answer) →
          2 * (slices buf).length < answers.length → run.1.outcome = some (.ok f.sha256)) := by
  have hensures : Program.Ensures serveHost (fun _ => True) (fun peer => peer.files = localFiles) _
      (hostFiles blake3 sha256 id revision dir files []) { files := localFiles } :=
    hostFiles_ensures rfl
  obtain ⟨buf, hbuf, hhash, hlookup⟩ :=
    ((hensures.sound fun _ _ => trivial).2 _ hended hosted rfl).1 f hf
  refine ⟨buf, hbuf, hhash, ?_⟩
  intro out resolve start answers hread run
  have hstart : Spared sha256 out start [f] { files := start } :=
    ⟨fun _ _ => rfl, by simp, fun _ => rfl⟩
  have hgot : ∀ got, run.1.outcome = some (.ok got) →
      run.2.files (join out f.path) = some buf ∧ got = f.sha256 := by
    intro got hresult
    have hsure : Sure sha256 out start [f] _
        (fetchFile blake3 sha256 ⟨"hologram", resolve, hosted⟩ f (join out f.path)) { files := start } :=
      fetchFile_sure hstart List.mem_cons_self rfl (.inr hread)
    obtain ⟨-, hdone⟩ := (hsure.sound fun answer (_ : answer ∈ answers) => trivial).2 _ hresult
    obtain ⟨bytes, hbytes, rfl, hpieces⟩ := hdone got rfl
    obtain ⟨pieces, hlisted, rfl⟩ := hpieces rfl
    have hsame : slices buf = pieces :=
      List.map_injective_iff.mpr hinjective (Option.some.inj (hlookup.symm.trans hlisted))
    rw [← hsame, slices_flatten] at hbytes ⊢
    exact ⟨hbytes, hhash⟩
  refine ⟨hgot, fun hserves hcount => ?_⟩
  have hends : run.1.outcome.isSome := by
    refine Program.Within.ended (fetchFile_within hlookup) ?_
    rw [List.length_map]
    exact hcount
  obtain ⟨result, hresult⟩ := Option.isSome_iff_exists.mp hends
  have hserved : Program.Ensures serveFetch (Serves blake3 (baseOf resolve) (slices buf)) (fun _ => True)
      _ (fetchFile blake3 sha256 ⟨"hologram", resolve, hosted⟩ f (join out f.path)) { files := start } :=
    fetchFile_served hlookup
  obtain ⟨got, rfl⟩ := (hserved.sound hserves).2 result hresult
  rw [hresult, (hgot got hresult).2]

end Hosting

/-! ### One file of two bytes -/

def sampleFile : HubFile := ⟨"a.bin", 2, Store.hex [1, 2], true⟩

theorem hosted_served_sample :
    ∃ buf, (fun _ => some [1, 2] : String → Option Bytes) (join "local" "a.bin") = some buf ∧
      Store.hex buf = sampleFile.sha256 ∧
      ∀ (out resolve : String) (start : String → Option Bytes) (answers : List SourceAnswers),
        verified Store.hex sampleFile (start (join out "a.bin")) = false →
        let run := Program.advance serveFetch answers (fetchFile Store.hex Store.hex
          ⟨"hologram", resolve, [("a.bin", [Store.hex [1, 2]])]⟩ sampleFile (join out "a.bin"))
          { files := start }
        (∀ got, run.1.outcome = some (.ok got) →
          run.2.files (join out "a.bin") = some buf ∧ got = sampleFile.sha256) ∧
        ((∀ answer ∈ answers, Serves Store.hex (baseOf resolve) (slices buf) answer) →
          2 * (slices buf).length < answers.length → run.1.outcome = some (.ok sampleFile.sha256)) := by
  have hslices : slices [1, 2] = [[1, 2]] := by
    rw [slices, if_pos (by decide)]
  have hended : (Program.advance serveHost (List.replicate 3 fun _ bytes => some (Store.hex bytes))
      (hostFiles Store.hex Store.hex "o/m" "r1" "local" [sampleFile] [])
      { files := fun _ => some [1, 2] }).1.outcome = some (.ok [("a.bin", [Store.hex [1, 2]])]) := by
    change (Program.advance serveHost [fun _ bytes => some (Store.hex bytes)]
      (putSlices Store.hex "o/m@r1/a.bin" 0 (slices [1, 2]) >>= fun ids => hostFiles Store.hex Store.hex
        "o/m" "r1" "local" [] (Table.insert [] "a.bin" ids)) { files := fun _ => some [1, 2] }).1.outcome = _
    rw [hslices]
    rfl
  exact hosted_served Store.hex_injective hended List.mem_cons_self

end HologramLive.ModelHub.Download
