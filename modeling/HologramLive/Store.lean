import HologramLive.Error
import HologramLive.Protocol
import Mathlib.Algebra.GroupWithZero.Nat
import Mathlib.Data.List.Sort

namespace HologramLive

abbrev Bytes := List UInt8

/-- The content store: blob files and metadata records, each under the hex digest
its path ends in. -/
structure ObjectStore where
  blobs : List (String × Bytes) := []
  records : List (String × ObjectMetadata) := []

namespace ObjectStore

def newestFirst (left right : ObjectMetadata) : Prop :=
  right.createdAtMillis < left.createdAtMillis ∨
    right.createdAtMillis = left.createdAtMillis ∧ left.id ≤ right.id

instance : DecidableRel newestFirst :=
  fun left right => inferInstanceAs (Decidable (_ ∨ _ ∧ left.id ≤ right.id))

/-- Every record of the wanted kind, newest first and by id among equals. -/
def list (store : ObjectStore) (kind : Option String) : List ObjectMetadata :=
  ((store.records.map Prod.snd).filter fun metadata =>
    kind.all fun expected => metadata.kind = expected).insertionSort newestFirst

theorem mem_list_all {store : ObjectStore} :
    metadata ∈ store.list none ↔ metadata ∈ store.records.map Prod.snd := by
  simp [list, List.mem_insertionSort]

end ObjectStore
end HologramLive
