import Mathlib.Data.String.Basic
import Mathlib.Data.List.Infix

namespace HologramLive

/-- One stored object as every provider reports it. -/
structure ObjectMetadata where
  id : String
  kind : String
  mediaType : String
  filename : Option String
  size : Nat
  createdAtMillis : Nat
  deriving DecidableEq

/-- A search over stored objects: each field is one conjunctive filter. -/
structure ObjectQuery where
  kind : Option String := none
  mediaType : Option String := none
  filenameContains : Option String := none
  minSize : Option Nat := none
  maxSize : Option Nat := none
  createdAfterMillis : Option Nat := none
  createdBeforeMillis : Option Nat := none
  limit : Nat := 0
  cursor : Option String := none
  deriving DecidableEq

namespace ObjectQuery

def defaultLimit : Nat := 100

def maxLimit : Nat := 1000

/-- Page size after defaulting and clamping: zero means "not chosen". -/
def effectiveLimit (query : ObjectQuery) : Nat :=
  min (if query.limit = 0 then defaultLimit else query.limit) maxLimit

theorem effectiveLimit_pos (query : ObjectQuery) : 0 < query.effectiveLimit := by
  unfold effectiveLimit defaultLimit maxLimit
  split <;> omega

/-- `str::contains` on the code points. -/
def containsText (name needle : String) : Bool :=
  decide (needle.toList <:+: name.toList)

end ObjectQuery

/-- Whether one record satisfies every constraint. -/
def ObjectQuery.matches (query : ObjectQuery) (metadata : ObjectMetadata) : Bool :=
  if query.kind.any (· ≠ metadata.kind) then false
  else if query.mediaType.any (· ≠ metadata.mediaType) then false
  else if query.filenameContains.any fun needle =>
      !metadata.filename.any fun name => ObjectQuery.containsText name needle then false
  else if query.minSize.any fun least => metadata.size < least then false
  else if query.maxSize.any fun most => metadata.size > most then false
  else if query.createdAfterMillis.any fun after => metadata.createdAtMillis ≤ after then false
  else if query.createdBeforeMillis.any fun before => metadata.createdAtMillis ≥ before then false
  else true

/-- One page of search results. -/
structure ObjectPage where
  objects : List ObjectMetadata
  nextCursor : Option String
  truncated : Bool
  deriving DecidableEq

end HologramLive
