import HologramLive.Lib.BigEndian
import HologramLive.Lib.BreadthFirst
import HologramLive.Lib.Utf8
import HologramLive.Store.Disk

/-! Bounded resolution of typed storage graphs. -/

namespace HologramLive.HoloGraph
open Lib Lib.BreadthFirst Lib.Files Store

def kappaLabelBytes : Nat := 71

structure StorageGraphLimits where
  maxDepth : Nat := 16
  maxObjects : Nat := 512
  maxEdges : Nat := 4096
  maxResolvedBytes : Nat := 64 * 1024 * 1024

structure StorageGraphClosure where
  readable : List String
  edgeCount : Nat
  resolvedBytes : Nat
  maxDepth : Nat
  deriving DecidableEq

inductive RealizationError where
  | truncated
  | malformed
  | other (text : String)

/-- The functions the code takes from the crate that defines realizations: content
addresses, and the reference extractor of each registered type. -/
structure Space where
  addressBytes : Bytes → String
  registry : List (String × (Bytes → Except RealizationError (List String)))

def graphError (message : String) : LiveError := .capability s!"typed storage graph {message}"

def typedError : LiveError := graphError "contains a malformed typed realization"

def readU32 (bytes : Bytes) (cursor : Nat) : Except RealizationError (Nat × Nat) :=
  if cursor + 4 ≤ bytes.length then
    .ok (BigEndian.decode ((bytes.drop cursor).take 4).reverse, cursor + 4)
  else .error .truncated

/-- A realization is its type, its references and a payload, each counted, and nothing
more. -/
def validateCanonicalFrame (bytes : Bytes) (nul extractedReferences : Nat) :
    Except RealizationError Unit := do
  let (count, cursor) ← readU32 bytes (nul + 1)
  if count ≠ extractedReferences then .error .malformed
  else
    let (payloadLength, cursor) ← readU32 bytes (cursor + count * kappaLabelBytes)
    let stop := cursor + payloadLength
    if stop ≠ bytes.length then
      .error (if stop > bytes.length then .truncated else .malformed)
    else .ok ()

/-- Unknown or untagged objects are opaque leaves. -/
def typedReferences (space : Space) (bytes : Bytes) : Except LiveError (List String) :=
  match bytes.findIdx? (· = 0) with
  | none => .ok []
  | some nul =>
    match Utf8.decode (bytes.take nul) with
    | none => .ok []
    | some iri =>
      match space.registry.find? fun entry => entry.1 = iri with
      | none => .ok []
      | some (_, extractor) => do
        let references ← (extractor bytes).mapError fun _ => typedError
        (validateCanonicalFrame bytes nul references.length).mapError fun _ => typedError
        .ok references

section Resolve
variable (space : Space) (store : DiskStore) (read : Path → Except IoError Contents)

/-- Read an object and check that it is the one asked for. -/
def readObject (kappa : String) : Except LiveError Bytes := do
  let bytes ← (store.get read kappa).mapError fun
    | .notFound _ => graphError "is incomplete in the local object store"
    | _ => graphError "could not be read from the local object store"
  if space.addressBytes bytes ≠ kappa then
    .error (graphError "contains an object whose bytes do not match its κ")
  else .ok bytes

structure Search where
  queue : List (String × Nat)
  seen : List String := []
  readable : List String := []
  edgeCount : Nat := 0
  resolvedBytes : Nat := 0
  observedDepth : Nat := 0

/-- The loop, counting down the objects the limit leaves. -/
def resolveFrom (limits : StorageGraphLimits) : Nat → Search → Except LiveError StorageGraphClosure
  | 0, search =>
    match nextUnseen search.seen search.queue with
    | none => .ok {
        readable := search.readable, edgeCount := search.edgeCount
        resolvedBytes := search.resolvedBytes, maxDepth := search.observedDepth }
    | some _ => .error (graphError "exceeds the host object-count limit")
  | left + 1, search =>
    match nextUnseen search.seen search.queue with
    | none => .ok {
        readable := search.readable, edgeCount := search.edgeCount
        resolvedBytes := search.resolvedBytes, maxDepth := search.observedDepth }
    | some ((kappa, depth), queue) =>
      if depth > limits.maxDepth then .error (graphError "exceeds the host depth limit")
      else do
        let bytes ← readObject space store read kappa
        let resolvedBytes := search.resolvedBytes + bytes.length
        if resolvedBytes > limits.maxResolvedBytes then
          .error (graphError "exceeds the host byte limit")
        else do
          let references ← typedReferences space bytes
          let edgeCount := search.edgeCount + references.length
          if edgeCount > limits.maxEdges then
            .error (graphError "exceeds the host edge-count limit")
          else if depth = limits.maxDepth ∧ references ≠ [] then
            .error (graphError "exceeds the host depth limit")
          else
            resolveFrom limits left {
              queue := queue ++ references.map (·, depth + 1)
              seen := search.seen ++ [kappa]
              readable := search.readable ++ [kappa]
              edgeCount, resolvedBytes
              observedDepth := max search.observedDepth depth }

/-- The complete local typed closure of admitted storage roots. -/
def resolveStorageGraph (roots : List String) (limits : StorageGraphLimits) :
    Except LiveError StorageGraphClosure :=
  if roots = [] then .error (graphError "requires at least one storage root")
  else if limits.maxObjects = 0 ∨ limits.maxEdges = 0 ∨ limits.maxResolvedBytes = 0 then
    .error (graphError "has an invalid zero host limit")
  else resolveFrom space store read limits limits.maxObjects { queue := roots.map (·, 0) }

end Resolve
end HologramLive.HoloGraph
