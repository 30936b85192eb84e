import HologramLive.Lib.Interleaving
import HologramLive.Lib.Paging
import HologramLive.Lib.Program
import HologramLive.Registry.Kappa
import HologramLive.Store.Names
import Mathlib.Data.Finset.Sort

/-! The calls of one provider, step by step and in any order among each other. -/

namespace HologramLive.Registry.KappaSteps
open Lib Lib.Interleaving Lib.Paging KappaClient Kappa Store

/-- What a call does under the cache's lock, and what it asks of the registry. -/
inductive ProviderCall : Type → Type where
  | cached (tag : String) : ProviderCall (Option ObjectMetadata)
  | remember (tag : String) (metadata : ObjectMetadata) : ProviderCall Unit
  | getManifest (tag : String) : ProviderCall (Except LiveError (Option Bytes))
  | putManifest (tag : String) (body : Bytes) : ProviderCall (Except LiveError Unit)
  | getBlob (kappa : String) : ProviderCall (Except LiveError Bytes)
  | putBlob (kappa mediaType : String) (bytes : Bytes) : ProviderCall (Except LiveError Unit)
  | listTags (limit : Nat) (last : Option String) : ProviderCall (Except LiveError TagPage)
  | nowMillis : ProviderCall UInt64

abbrev ProviderProgram := Program ProviderCall LiveError

structure ObjectContent where
  metadata : ObjectMetadata
  bytes : Bytes
  deriving DecidableEq

def verifyContent (blake3 : Blake3) (id : String) (bytes : Bytes) : Except LiveError Unit :=
  let actual := address blake3 bytes
  if actual = id then .ok ()
  else .error (.io s!"object {id} is corrupt: the stored bytes hash to {actual}")

section Programs
variable (codec : JsonCodec) (blake3 : Blake3)

def metadataByTag (tag : String) : ProviderProgram (Option ObjectMetadata) :=
  .call (.cached tag) fun
    | some metadata => .done (some metadata)
    | none => .call (.getManifest tag) fun
      | .error error => .fail error
      | .ok none => .done none
      | .ok (some body) =>
        match decodeManifest codec body with
        | .error error => .fail error
        | .ok metadata => .call (.remember tag metadata) fun _ => .done (some metadata)

/-- The record of a first appearance keeps its creation time. -/
def createdAt : Except LiveError (Option ObjectMetadata) → ProviderProgram Nat
  | .ok (some existing) => .done existing.createdAtMillis
  | _ => .call .nowMillis fun now => .done now.toNat

/-- Write a record's manifest and remember it: the last two steps of a writer. -/
def publish (tag : String) (metadata : ObjectMetadata) : ProviderProgram ObjectMetadata :=
  .call (.putManifest tag (encodeManifest codec metadata)) fun
    | .error error => .fail error
    | .ok () => .call (.remember tag metadata) fun _ => .done metadata

def putObject (kind mediaType : String) (filename : Option String) (bytes : Bytes) :
    ProviderProgram ObjectMetadata :=
  let id := address blake3 bytes
  let tag := tagFor id
  (metadataByTag codec tag).attempt >>= fun existing =>
    createdAt existing >>= fun createdAtMillis =>
      let metadata : ObjectMetadata :=
        { id, kind, mediaType, filename, size := min bytes.length (2 ^ 64 - 1), createdAtMillis }
      .call (.putBlob id mediaType bytes) fun
        | .error error => .fail error
        | .ok () => publish codec tag metadata

def getObject (id : String) : ProviderProgram ObjectContent :=
  metadataByTag codec (tagFor id) >>= fun
    | none => .fail (.notFound s!"object {id} not found")
    | some metadata => .call (.getBlob id) fun
      | .error error => .fail error
      | .ok bytes =>
        match verifyContent blake3 id bytes with
        | .error error => .fail error
        | .ok () => .done { metadata, bytes }

def renameFile (id filename : String) : ProviderProgram ObjectMetadata :=
  metadataByTag codec (tagFor id) >>= fun
    | none => .fail (.notFound s!"file {id} not found")
    | some metadata =>
      if metadata.kind ≠ "file" then .fail (.notFound s!"file {id} not found")
      else publish codec (tagFor id) { metadata with filename := some filename }

open KappaRegistryProvider (Progress lastId)

def scanTags (query : ObjectQuery) :
    List String → List ObjectMetadata → ProviderProgram Progress
  | [], objects => .done (.through objects)
  | tag :: rest, objects =>
    if (kappaFor tag).isNone then scanTags query rest objects
    else
      metadataByTag codec tag >>= fun
        | none => scanTags query rest objects
        | some metadata =>
          if !query.matches metadata then scanTags query rest objects
          else if objects.length = query.effectiveLimit then .done (.full objects)
          else scanTags query rest (objects ++ [metadata])

/-- The page loop, counting down the scan pages that are left. -/
def scanPages (query : ObjectQuery) :
    Nat → Option String → List ObjectMetadata → ProviderProgram ObjectPage
  | 0, _, objects => .done { objects, nextCursor := lastId objects, truncated := true }
  | left + 1, cursor, objects =>
    .call (.listTags ObjectQuery.maxLimit cursor) fun
      | .error error => .fail error
      | .ok page =>
        if page.tags = [] then .done { objects, nextCursor := none, truncated := false }
        else
          scanTags codec query page.tags objects >>= fun
            | .full objects => .done { objects, nextCursor := lastId objects, truncated := false }
            | .through objects =>
              match page.next with
              | some next => scanPages query left (some next) objects
              | none => .done { objects, nextCursor := none, truncated := false }

def search (maxScanPages : Nat) (query : ObjectQuery) : ProviderProgram ObjectPage :=
  scanPages codec query maxScanPages (query.cursor.map tagFor) []

end Programs

inductive Call where
  | put (kind mediaType : String) (filename : Option String) (bytes : Bytes)
  | rename (id filename : String)
  | get (id : String)
  | search (query : ObjectQuery)
  deriving DecidableEq

inductive Outcome where
  | wrote (metadata : ObjectMetadata)
  | got (content : ObjectContent)
  | found (page : ObjectPage)
  deriving DecidableEq

/-- The provider and what it runs among. `addressed` says which tag's manifest the URL
built from a text reaches: it is the text itself where that is a legal tag. -/
structure Setting where
  provider : KappaRegistryProvider
  blake3 : Blake3
  addressed : String → String
  legal : ∀ tag, (kappaFor tag).isSome → addressed tag = tag

def Call.program (setting : Setting) : Call → ProviderProgram Outcome
  | .put kind mediaType filename bytes =>
    putObject setting.provider.codec setting.blake3 kind mediaType filename bytes >>= fun metadata =>
      .done (.wrote metadata)
  | .rename id filename =>
    renameFile setting.provider.codec id filename >>= fun metadata => .done (.wrote metadata)
  | .get id =>
    getObject setting.provider.codec setting.blake3 id >>= fun content => .done (.got content)
  | .search query =>
    KappaSteps.search setting.provider.codec setting.provider.maxScanPages query >>= fun page =>
      .done (.found page)

/-- How a request fails: no answer, a refusal, or an answer whose body cannot be read. -/
inductive Trouble where
  | unreachable (error : String)
  | refused (status : Status) (detail : String)
      (refusal : ¬(200 ≤ status.code ∧ status.code < 300) ∧ status.code ≠ notFound)
  | unreadable (error : String)

def Trouble.reply {α : Type} : Trouble → Reply α
  | .unreachable error => .unreachable error
  | .refused status detail _ => .answer status detail (.error "")
  | .unreadable error => .answer ⟨200, "200 OK"⟩ "" (.error error)

/-- What the surroundings decide about one step: whether the request fails, whether a
manifest that was sent has landed all the same, what a blob is answered with, the clock. -/
structure Verdict where
  trouble : Option Trouble := none
  landed : Bool := true
  content : Reply Bytes := .unreachable ""
  millis : UInt64 := 0

/-- Every manifest the registry was sent, oldest first, and the provider's cache. -/
structure Shared where
  log : List (String × Bytes)
  cache : Cache

namespace Shared

/-- Where the current manifest of a tag stands in the log. -/
def current : List (String × Bytes) → String → Option Nat
  | [], _ => none
  | entry :: rest, tag =>
    match current rest tag with
    | some place => some (place + 1)
    | none => if entry.1 = tag then some 0 else none

def tags (log : List (String × Bytes)) : List String :=
  (log.map Prod.fst).toFinset.sort (· ≤ ·)

def manifest (shared : Shared) (tag : String) : Option Bytes :=
  (current shared.log tag).bind fun place => shared.log[place]?.map Prod.snd

def ok : Status := ⟨200, "200 OK"⟩

/-- The registry as one request meets it. -/
def transport (shared : Shared) (addressed : String → String) (trouble : Option Trouble) :
    Transport where
  tagsList limit last :=
    match trouble with
    | some trouble => trouble.reply
    | none => .answer ok "" (.ok ((beyond id last (tags shared.log)).take limit))
  manifest tag :=
    match trouble with
    | some trouble => trouble.reply
    | none =>
      match shared.manifest (addressed tag) with
      | some body => .answer ok "" (.ok body)
      | none => .answer ⟨notFound, "404 Not Found"⟩ "" (.error "")

end Shared

/-- A request whose answer carries nothing but its status. -/
def acknowledged (context : String) : Option Trouble → Except LiveError Unit
  | none => .ok ()
  | some (.unreachable error) => .error (.transport s!"{context}: {error}")
  | some (.refused status detail _) => statusToResult status detail context
  | some (.unreadable _) => .ok ()

def getBlob (kappa : String) : Reply Bytes → Except LiveError Bytes
  | .unreachable error => .error (.transport s!"get blob {kappa}: {error}")
  | .answer status detail body =>
    match statusToResult status detail s!"get blob {kappa}" with
    | .error error => .error error
    | .ok () =>
      match body with
      | .error error => .error (.transport s!"read blob {kappa}: {error}")
      | .ok bytes => .ok bytes

/-- Whether a sent manifest is in the log afterwards: it is if it was acknowledged. -/
def lands (verdict : Verdict) (context : String) : Bool :=
  match acknowledged context verdict.trouble with
  | .ok () => true
  | .error _ => verdict.landed

def serve (setting : Setting) : ∀ {β : Type}, ProviderCall β → Verdict → Shared → β × Shared
  | _, .cached tag, _, shared =>
    ((setting.provider.cached tag shared.cache).1,
      { shared with cache := (setting.provider.cached tag shared.cache).2 })
  | _, .remember tag metadata, _, shared =>
    ((), { shared with cache := setting.provider.remember tag metadata shared.cache })
  | _, .getManifest tag, verdict, shared =>
    (KappaClient.getManifest (shared.transport setting.addressed verdict.trouble) tag, shared)
  | _, .putManifest tag body, verdict, shared =>
    let context := s!"put manifest {tag}"
    (acknowledged context verdict.trouble,
      if lands verdict context then
        { shared with log := shared.log ++ [(setting.addressed tag, body)] }
      else shared)
  | _, .getBlob kappa, verdict, shared => (getBlob kappa verdict.content, shared)
  | _, .putBlob kappa _ _, verdict, shared =>
    (acknowledged s!"put blob {kappa}" verdict.trouble, shared)
  | _, .listTags limit last, verdict, shared =>
    (KappaClient.listTags (shared.transport setting.addressed verdict.trouble) limit last, shared)
  | _, .nowMillis, verdict, shared => (verdict.millis, shared)

/-- The manifest a step has obtained or put: its tag and its place in the log. -/
def source (setting : Setting) (verdict : Verdict) (shared : Shared) : ∀ {β : Type},
    ProviderCall β → Option (String × Nat) → Option (String × Nat)
  | _, .getManifest tag, _ =>
    (Shared.current shared.log (setting.addressed tag)).map fun place => (tag, place)
  | _, .putManifest tag _, before =>
    if lands verdict s!"put manifest {tag}" then some (tag, shared.log.length) else before
  | _, _, before => before

/-- A call on its way, with the records that were acknowledged when it began and the
manifest it obtained or put last. -/
structure Running where
  call : Call
  program : ProviderProgram Outcome
  base : String → Nat
  source : Option (String × Nat) := none

/-- `acknowledged tag` counts the log up to the newest manifest of the tag whose writer has
returned. -/
structure Traffic where
  shared : Shared
  acknowledged : String → Nat := fun _ => 0
  calls : List Running := []

inductive Event where
  | begin (call : Call)
  | move (place : Nat) (verdict : Verdict)

/-- A writer that returns acknowledges the manifest it has put. -/
def acknowledge (program : ProviderProgram Outcome) (source : Option (String × Nat))
    (acknowledged : String → Nat) : String → Nat :=
  match program, source with
  | .done (.wrote _), some (tag, place) =>
    Function.update acknowledged tag (max (acknowledged tag) (place + 1))
  | _, _ => acknowledged

namespace Traffic

def step (setting : Setting) (traffic : Traffic) : Event → Option Traffic
  | .begin call =>
    some { traffic with
      calls := traffic.calls ++
        [{ call, program := call.program setting, base := traffic.acknowledged }] }
  | .move place verdict =>
    match traffic.calls[place]? with
    | none => none
    | some running =>
      match running.program with
      | .done _ => none
      | .fail _ => none
      | .call operation next =>
        let served := serve setting operation verdict traffic.shared
        let source := source setting verdict traffic.shared operation running.source
        some
          { shared := served.2
            acknowledged := acknowledge (next served.1) source traffic.acknowledged
            calls := traffic.calls.set place { running with program := next served.1, source } }

end Traffic

/-- The tag of the record a call is about to store in the cache. -/
def remembers : ProviderProgram Outcome → Option String
  | .call (.remember tag _) _ => some tag
  | _ => none

/-- The id asked for is one whose URL reaches its own tag. -/
def Plain (setting : Setting) : Call → Prop
  | .get id | .rename id _ => setting.addressed (tagFor id) = tagFor id
  | _ => True

/-- No record is stored in the cache that is older than one whose writer has returned, and
the ids asked for are plain. -/
def Timely (setting : Setting) (traffic : Traffic) : Event → Prop
  | .begin call => Plain setting call
  | .move place _ => ∀ running tag place', traffic.calls[place]? = some running →
      remembers running.program = some tag → running.source = some (tag, place') →
      traffic.acknowledged tag ≤ place' + 1

end HologramLive.Registry.KappaSteps
