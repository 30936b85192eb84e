import HologramLive.Registry.KappaSteps
import HologramLive.Registry.Local
import HologramLive.Store.Concurrent

/-! What both registry providers offer, and the programs each answers it with. -/

namespace HologramLive.Registry
open Lib Lib.Files Store KappaSteps

/-- A call on a registry provider. -/
inductive Request where
  | putObject (kind mediaType : String) (filename : Option String) (bytes : Bytes)
  | renameFile (id filename : String)
  | getObject (id : String)
  | listObjects (kind : Option String)
  | search (query : ObjectQuery)
  deriving DecidableEq

inductive Answer where
  | wrote (metadata : ObjectMetadata)
  | got (content : ObjectContent)
  | listed (objects : List ObjectMetadata)
  | found (page : ObjectPage)
  deriving DecidableEq

/-- The objects an answer is about. -/
def Answer.objects : Answer → List ObjectMetadata
  | .wrote metadata => [metadata]
  | .got content => [content.metadata]
  | .listed objects => objects
  | .found page => page.objects

/-- Every object's id with the time it is said to be created at. -/
def Answer.times (answer : Answer) : List (String × Nat) :=
  answer.objects.map fun metadata => (metadata.id, metadata.createdAtMillis)

namespace KappaSteps

/-- The whole listing is one search under the largest limit, newest first. -/
def listObjects (setting : Setting) (kind : Option String) : ProviderProgram (List ObjectMetadata) :=
  KappaSteps.search setting.provider.codec setting.provider.maxScanPages
    { kind, limit := ObjectQuery.maxLimit } >>= fun page =>
      .done (page.objects.insertionSort ObjectStore.newestFirst)

def answer (setting : Setting) : Request → ProviderProgram Answer
  | .putObject kind mediaType filename bytes =>
    putObject setting.provider.codec setting.blake3 kind mediaType filename bytes >>= fun metadata =>
      .done (.wrote metadata)
  | .renameFile id filename =>
    renameFile setting.provider.codec id filename >>= fun metadata => .done (.wrote metadata)
  | .getObject id =>
    getObject setting.provider.codec setting.blake3 id >>= fun content => .done (.got content)
  | .listObjects kind => listObjects setting kind >>= fun objects => .done (.listed objects)
  | .search query =>
    KappaSteps.search setting.provider.codec setting.provider.maxScanPages query >>= fun page =>
      .done (.found page)

end KappaSteps

namespace Local

/-- What the surroundings decide about one file-system call: whether it is granted, and
what a directory lists. -/
structure LocalVerdict where
  file : Lib.Files.Verdict := .granted
  listing : Except IoError (List (Except IoError String)) := .ok []

def serve : ∀ {β : Type}, DirCall β → LocalVerdict → FileSystem → β × FileSystem
  | _, .left operation, verdict, files => Lib.Files.serve operation verdict.file files
  | _, .right (.readDir _), verdict, files => (verdict.listing, files)

/-- A call with what the clock shows. -/
structure LocalCall where
  now : Nat
  request : Request

variable (store : DiskStore)

def getBytes (id : String) : FileProgram LiveError Contents := do
  let digest ← .ofExcept (validateId store.debug id)
  let path := store.blobPath digest
  attempt (.read path) fun error =>
    if error.notFound then .notFound s!"object {id} not found" else ioError path.display error

def getObject (id : String) : FileProgram LiveError ObjectContent := do
  let bytes ← getBytes store id
  .ofExcept (verifyContent store.blake3 id bytes)
  let metadata ← store.metadata id
  pure { metadata, bytes }

def search (query : ObjectQuery) : DirProgram LiveError ObjectPage :=
  store.list none >>= fun all =>
    let (objects, exhausted) := scan query (all.insertionSort byId) []
    .done
      { objects, nextCursor := if exhausted then none else objects.getLast?.map (·.id)
        truncated := false }

def answer (pid : Nat) (call : LocalCall) : DirProgram LiveError Answer :=
  match call.request with
  | .putObject kind mediaType filename bytes =>
    (store.put pid call.now kind mediaType filename bytes).translate .left >>= fun metadata =>
      .done (.wrote metadata)
  | .renameFile id filename =>
    (store.renameFile pid id filename).translate .left >>= fun metadata => .done (.wrote metadata)
  | .getObject id => (getObject store id).translate .left >>= fun content => .done (.got content)
  | .listObjects kind => store.list kind >>= fun objects => .done (.listed objects)
  | .search query => search store query >>= fun page => .done (.found page)

end Local

end HologramLive.Registry
