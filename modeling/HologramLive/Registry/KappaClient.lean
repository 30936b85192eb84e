import HologramLive.Json
import HologramLive.Lib.Result

namespace HologramLive.Registry.KappaClient

/-- Tag under which an object's sidecar manifest is stored. -/
def tagFor (kappa : String) : String :=
  String.ofList (kappa.toList.map fun c => if c = ':' then '_' else c)

def isLowerHex (c : Char) : Bool := ('0' ≤ c && c ≤ '9') || ('a' ≤ c && c ≤ 'f')

def digestOf (tag : List Char) : Option (List Char) :=
  if "blake3_".toList <+: tag then some (tag.drop 7) else none

/-- Inverse of `tagFor`, rejecting anything that is not one of our tags. -/
def kappaFor (tag : String) : Option String :=
  match digestOf tag.toList with
  | none => none
  | some digest =>
    if digest.length ≠ 64 then none
    else if !digest.all isLowerHex then none
    else some (String.ofList ("blake3:".toList ++ digest))

/-- A response status with the text it is reported as. -/
structure Status where
  code : Nat
  text : String

/-- An answer carries its status, its text for reports of failure and what its
body decodes to, if it does. -/
inductive Reply (α : Type) where
  | unreachable (error : String)
  | answer (status : Status) (detail : String) (body : Except String α)

/-- The two requests a search makes of the registry. -/
structure Transport where
  tagsList : Nat → Option String → Reply (List String)
  manifest : String → Reply Bytes

structure TagPage where
  tags : List String
  next : Option String

def notFound : Nat := 404

/-- Map an upstream response onto the typed error vocabulary. -/
def statusToResult (status : Status) (detail context : String) : Except LiveError Unit :=
  if 200 ≤ status.code ∧ status.code < 300 then .ok ()
  else
    let message :=
      if detail = "" then s!"{context}: HTTP {status.text}"
      else s!"{context}: HTTP {status.text}: {detail}"
    .error <|
      if status.code = notFound then .notFound message
      else if status.code = 401 then .authentication message
      else if status.code = 403 then .authorization message
      else if status.code = 400 ∨ status.code = 413 then .protocol message
      else if status.code = 507 then .io message
      else .transport message

def getManifest (transport : Transport) (tag : String) : Except LiveError (Option Bytes) :=
  match transport.manifest tag with
  | .unreachable error => .error (.transport s!"get manifest {tag}: {error}")
  | .answer status detail body =>
    if status.code = notFound then .ok none
    else do
      statusToResult status detail s!"get manifest {tag}"
      match body with
      | .error error => .error (.transport s!"read manifest {tag}: {error}")
      | .ok body => .ok (some body)

/-- A missing namespace is an empty listing, and a full page implies more may
remain after its last tag. -/
def listTags (transport : Transport) (limit : Nat) (last : Option String) :
    Except LiveError TagPage :=
  match transport.tagsList limit last with
  | .unreachable error => .error (.transport s!"list tags: {error}")
  | .answer status detail body =>
    if status.code = notFound then .ok { tags := [], next := none }
    else do
      statusToResult status detail "list tags"
      match body with
      | .error error => .error (.protocol s!"decode tag list: {error}")
      | .ok tags =>
        .ok { tags, next := if tags.length < 2 ^ 32 ∧ limit ≤ tags.length then tags.getLast? else none }

end HologramLive.Registry.KappaClient
