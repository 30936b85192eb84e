import HologramLive.Artifact.Manifest
import HologramLive.Lib.Pieces
import HologramLive.View.Path

namespace HologramLive.Artifact
open View (isAsciiAlphanumeric)

/-- What a reference is completed from. -/
structure RegistryConfig where
  endpoint : String
  «namespace» : String

/-- A leading segment with a port or a dot is a host, and so is `localhost`. -/
def isHost (segment : List Char) : Bool :=
  segment.contains ':' || segment.contains '.' || segment = "localhost".toList

def stripPrefix (start text : List Char) : Option (List Char) :=
  if start <+: text then some (text.drop start.length) else none

def trimEndSlashes (text : List Char) : List Char := (text.reverse.dropWhile (· = '/')).reverse

def trimSlashes (text : List Char) : List Char := trimEndSlashes (text.dropWhile (· = '/'))

def defaultHost (config : RegistryConfig) : Except LiveError (List Char) :=
  let endpoint := (Store.trim config.endpoint).toList
  let withoutScheme := ((stripPrefix "https://".toList endpoint).orElse fun _ =>
    stripPrefix "http://".toList endpoint).getD endpoint
  let host := trimEndSlashes withoutScheme
  if host = [] then
    .error (.config "registry.endpoint must be set to resolve a bare artifact reference")
  else .ok host

def tagCharacter (c : Char) : Bool := isAsciiAlphanumeric c || c = '.' || c = '_' || c = '-'

section
variable (debug : String → String)

/-- The OCI tag grammar. -/
def validateTag (tag : List Char) : Except LiveError Unit :=
  let shown := debug (String.ofList tag)
  match tag with
  | [] => .error (.protocol s!"artifact tag {shown} must be 1 to 128 characters")
  | first :: rest =>
    if 128 < (String.ofList tag).utf8ByteSize then
      .error (.protocol s!"artifact tag {shown} must be 1 to 128 characters")
    else if !(isAsciiAlphanumeric first || first = '_') then
      .error (.protocol s!"artifact tag {shown} must start with an alphanumeric or underscore")
    else if !rest.all tagCharacter then
      .error (.protocol
        s!"artifact tag {shown} contains a character outside the OCI tag grammar")
    else .ok ()

def segmentCharacter (c : Char) : Bool :=
  ('a' ≤ c && c ≤ 'z') || ('0' ≤ c && c ≤ '9') || c = '.' || c = '_' || c = '-'

def validateSegment (segment : List Char) (label : String) : Except LiveError Unit :=
  if segment = [] then .error (.protocol s!"artifact reference {label} segment is empty")
  else if !segment.all segmentCharacter then
    let shown := debug (String.ofList segment)
    .error (.protocol
      s!"artifact reference {label} {shown} must be lowercase alphanumeric with '.', '_', or '-'")
  else .ok ()

/-- The repository and the tag. Seen from the right, a colon before the last separator is
not the tag's. -/
def splitTag (input : List Char) : List Char × List Char :=
  let (tag, before) := input.reverse.span fun c => c ≠ ':' && c ≠ '/'
  match before with
  | ':' :: body => (body.reverse, tag.reverse)
  | _ => (input, "latest".toList)

def repositorySegments (body : List Char) : List (List Char) := Lib.Pieces.pieces '/' body

/-- The host, and the segments that are left for the namespace. -/
def chooseHost (config : RegistryConfig) (segments : List (List Char)) :
    Except LiveError (List Char × List (List Char)) :=
  match segments with
  | [] => do
    let host ← defaultHost config
    .ok (host, [])
  | first :: rest =>
    if isHost first then .ok (first, rest)
    else do
      let host ← defaultHost config
      .ok (host, first :: rest)

def chooseNamespace (config : RegistryConfig) (segments : List (List Char)) :
    Except LiveError (List Char) :=
  if segments = [] then .ok (trimSlashes config.namespace.toList)
  else do
    forM segments fun segment => validateSegment debug segment "namespace"
    .ok (['/'].intercalate segments)

def ArtifactRef.parse (config : RegistryConfig) (input : String) :
    Except LiveError ArtifactRef :=
  let input := Store.trim input
  if input = "" then .error (.protocol "artifact reference is empty")
  else do
    let (body, tag) := splitTag input.toList
    validateTag debug tag
    match (repositorySegments body).getLast? with
    | none =>
      let shown := debug input
      .error (.protocol s!"artifact reference {shown} has no name")
    | some name =>
      validateSegment debug name "name"
      let (host, segments) ← chooseHost config (repositorySegments body).dropLast
      let space ← chooseNamespace debug config segments
      if space = [] then
        .error (.protocol
          "artifact reference has no namespace and registry.namespace is empty")
      else
        .ok
          { host := String.ofList host
            «namespace» := String.ofList space
            name := String.ofList name
            tag := String.ofList tag }

end

end HologramLive.Artifact
