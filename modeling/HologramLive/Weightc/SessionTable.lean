import HologramLive.Lib.Table

/-! The table of resident model sessions: the actor of each key, and the keys by their last use. -/

namespace HologramLive.Weightc
open Lib

structure SessionTable (α : Type) where
  actors : List (String × α) := []
  recency : List String := []

namespace SessionTable
variable {α : Type}

def keys (table : SessionTable α) : List String := table.actors.map Prod.fst

def touch (table : SessionTable α) (key : String) : SessionTable α :=
  { table with recency := table.recency.filter (· ≠ key) ++ [key] }

def remove (table : SessionTable α) (key : String) : SessionTable α :=
  { actors := Table.erase table.actors key
    recency := table.recency.filter (· ≠ key) }

/-- Dead entries are dropped. -/
def get (alive : α → Bool) (table : SessionTable α) (key : String) : Option α × SessionTable α :=
  match table.actors.lookup key with
  | none => (none, table)
  | some actor =>
    if alive actor then (some actor, table.touch key) else (none, table.remove key)

/-- The loop of `evictOldest`, with the key it ends at. -/
def evict (actors : List (String × α)) : List String → Option String × SessionTable α
  | [] => (none, { actors, recency := [] })
  | oldest :: recency =>
    match actors.lookup oldest with
    | some _ => (some oldest, { actors := Table.erase actors oldest, recency })
    | none => evict actors recency

def evictOldest (table : SessionTable α) : Option String × SessionTable α :=
  evict table.actors table.recency

/-- The loop of `spawn`, with the keys that are evicted. It is given a number of rounds, and has no
result where these do not end it. -/
def makeRoom (max : Nat) : Nat → SessionTable α → Option (List String × SessionTable α)
  | rounds, table =>
    if table.actors.length < max then some ([], table)
    else
      match rounds with
      | 0 => none
      | rounds + 1 =>
        (makeRoom max rounds table.evictOldest.2).map fun made =>
          (table.evictOldest.1.toList ++ made.1, made.2)

def spawn (table : SessionTable α) (max rounds : Nat) (key : String) (actor : α) :
    Option (List String × SessionTable α) :=
  (makeRoom max rounds table).map fun made =>
    (made.1, { actors := Table.insert made.2.actors key actor, recency := made.2.recency ++ [key] })

def drain (table : SessionTable α) : List α × SessionTable α := (table.actors.map Prod.snd, {})

/-- Calls one after the other, with the keys in the order they were returned by `get` or inserted by
`spawn`. A key is spawned where the table has no actor for it. -/
inductive Run : List String → SessionTable α → Prop where
  | start : Run [] {}
  | get {uses : List String} {table : SessionTable α} (run : Run uses table) (alive : α → Bool)
    (key : String) : Run (uses ++ ((table.get alive key).1.map fun _ => key).toList)
      (table.get alive key).2
  | spawn {uses evicted : List String} {table after : SessionTable α} (run : Run uses table)
    (max rounds : Nat) (key : String) (actor : α) (positive : 1 ≤ max)
    (absent : table.actors.lookup key = none)
    (spawned : table.spawn max rounds key actor = some (evicted, after)) : Run (uses ++ [key]) after
  | remove {uses : List String} {table : SessionTable α} (run : Run uses table) (key : String) :
    Run uses (table.remove key)
  | drain {uses : List String} {table : SessionTable α} (run : Run uses table) :
    Run uses table.drain.2

/-- One key was used after the last use of another. -/
def Earlier (uses : List String) (first second : String) : Prop :=
  ∃ front back, uses = front ++ back ∧ second ∈ back ∧ first ∉ back

/-- Each key of the actors stands in `recency` once and no other does, by their last uses. -/
structure Kept (uses : List String) (table : SessionTable α) : Prop where
  nodup : table.keys.Nodup
  recency : table.recency.Perm table.keys
  ordered : table.recency.Pairwise (Earlier uses)

section Kept
variable {uses : List String} {table : SessionTable α}

theorem Earlier.append {first second key : String} (h : Earlier uses first second)
    (hne : first ≠ key) : Earlier (uses ++ [key]) first second := by
  obtain ⟨front, back, rfl, hsecond, hfirst⟩ := h
  refine ⟨front, back ++ [key], by simp, by simp [hsecond], ?_⟩
  simp [hfirst, hne]

theorem Earlier.last {first key : String} (hne : first ≠ key) : Earlier (uses ++ [key]) first key :=
  ⟨uses, [key], rfl, by simp, by simpa using hne⟩

theorem keys_erase (table : SessionTable α) (key : String) :
    (Table.erase table.actors key).map Prod.fst = table.keys.filter (· ≠ key) :=
  Table.map_erase table.actors key

theorem Kept.remove (h : Kept uses table) (key : String) : Kept uses (table.remove key) where
  nodup := by
    rw [SessionTable.keys, SessionTable.remove, keys_erase]
    exact h.nodup.filter _
  recency := by
    rw [SessionTable.keys, SessionTable.remove, keys_erase]
    exact h.recency.filter _
  ordered := h.ordered.filter _

theorem mem_keys {key : String} : key ∈ table.keys ↔ table.actors.lookup key ≠ none := by
  constructor
  · intro hmem hnone
    exact Lookup.not_mem_of_lookup hnone hmem
  · intro hsome
    obtain ⟨actor, hactor⟩ := Option.ne_none_iff_exists'.mp hsome
    exact List.mem_map_of_mem (Lookup.mem_of_lookup hactor)

/-- A key becomes the last used. -/
theorem ordered_append {recency : List String} (h : recency.Pairwise (Earlier uses)) {key : String}
    (hnew : key ∉ recency) : (recency ++ [key]).Pairwise (Earlier (uses ++ [key])) := by
  have hne : ∀ other ∈ recency, other ≠ key := fun other hother heq => hnew (heq ▸ hother)
  rw [List.pairwise_append]
  refine ⟨?_, List.pairwise_singleton _ _, ?_⟩
  · exact h.imp_of_mem fun hfirst _ hearlier => hearlier.append (hne _ hfirst)
  · intro first hfirst second hsecond
    obtain rfl := List.mem_singleton.mp hsecond
    exact .last (hne first hfirst)

theorem Kept.touch (h : Kept uses table) {key : String} (hkey : key ∈ table.keys) :
    Kept (uses ++ [key]) (table.touch key) where
  nodup := h.nodup
  recency := by
    have hmem : key ∈ table.recency := h.recency.mem_iff.mpr hkey
    have hnodup : table.recency.Nodup := h.recency.nodup_iff.mpr h.nodup
    have herase : table.recency.filter (· ≠ key) = table.recency.erase key := by
      rw [hnodup.erase_eq_filter]
      exact List.filter_congr fun other _ => by rw [Bool.eq_iff_iff]; simp
    have hmoved : (table.recency.filter (· ≠ key) ++ [key]).Perm table.recency := by
      rw [herase]
      exact (List.perm_append_singleton key _).trans (List.perm_cons_erase hmem).symm
    exact hmoved.trans h.recency
  ordered := ordered_append (h.ordered.filter _) (by simp)

theorem Kept.get (h : Kept uses table) (alive : α → Bool) (key : String) :
    Kept (uses ++ ((table.get alive key).1.map fun _ => key).toList) (table.get alive key).2 := by
  unfold SessionTable.get
  split
  · simpa using h
  · rename_i actor hactor
    split
    · exact h.touch (mem_keys.mpr (by simp [hactor]))
    · simpa using h.remove key

/-- What is evicted is the key that was used before all others that are left. -/
theorem Kept.evictOldest (h : Kept uses table) (hsome : 0 < table.actors.length) :
    ∃ oldest rest, table.recency = oldest :: rest ∧ (∀ other ∈ rest, Earlier uses oldest other) ∧
      table.evictOldest = (some oldest, { actors := Table.erase table.actors oldest, recency := rest }) ∧
        Kept uses table.evictOldest.2 ∧ table.evictOldest.2.recency = rest := by
  have hlength : table.recency.length = table.actors.length := by
    rw [h.recency.length_eq, SessionTable.keys, List.length_map]
  obtain ⟨oldest, rest, hrecency⟩ := List.exists_cons_of_length_pos (hlength ▸ hsome)
  obtain ⟨hearlier, hordered⟩ := List.pairwise_cons.mp (hrecency ▸ h.ordered)
  have hkey : oldest ∈ table.keys := h.recency.mem_iff.mp (by simp [hrecency])
  obtain ⟨actor, hactor⟩ := Option.ne_none_iff_exists'.mp (mem_keys.mp hkey)
  have hevict : table.evictOldest =
      (some oldest, { actors := Table.erase table.actors oldest, recency := rest }) := by
    rw [SessionTable.evictOldest, hrecency, evict, hactor]
  refine ⟨oldest, rest, hrecency, hearlier, hevict, ?_, by rw [hevict]⟩
  rw [hevict]
  have hfresh : oldest ∉ rest := by
    have hnodup := h.recency.nodup_iff.mpr h.nodup
    rw [hrecency] at hnodup
    exact (List.nodup_cons.mp hnodup).1
  refine ⟨?_, ?_, hordered⟩
  · rw [SessionTable.keys, keys_erase]
    exact h.nodup.filter _
  · have hperm := h.recency.filter fun other => decide (other ≠ oldest)
    have hrest : rest.filter (fun other => decide (other ≠ oldest)) = rest := by
      rw [List.filter_eq_self]
      exact fun other hother => decide_eq_true fun heq => hfresh (heq ▸ hother)
    rw [hrecency, List.filter_cons_of_neg (by simp), hrest] at hperm
    rw [SessionTable.keys, keys_erase]
    exact hperm

/-- The loop ends after as many rounds as there are actors, at the latest. -/
theorem Kept.makeRoom (h : Kept uses table) {max rounds : Nat} (hmax : 1 ≤ max)
    (hrounds : table.actors.length ≤ rounds) : ∃ evicted after,
      SessionTable.makeRoom max rounds table = some (evicted, after) ∧ Kept uses after ∧
        after.actors.length < max ∧ table.recency = evicted ++ after.recency := by
  induction rounds generalizing table with
  | zero =>
    have hlt : table.actors.length < max := by omega
    exact ⟨[], table, by rw [SessionTable.makeRoom, if_pos hlt], h, hlt, rfl⟩
  | succ rounds ih =>
    by_cases hlt : table.actors.length < max
    · exact ⟨[], table, by rw [SessionTable.makeRoom, if_pos hlt], h, hlt, rfl⟩
    · obtain ⟨oldest, rest, hrecency, -, hevict, hkept, hleft⟩ := h.evictOldest (by omega)
      have hfewer : table.evictOldest.2.actors.length ≤ rounds := by
        have hbefore : table.recency.length = table.actors.length := by
          rw [h.recency.length_eq, SessionTable.keys, List.length_map]
        have hafter : table.evictOldest.2.recency.length = table.evictOldest.2.actors.length := by
          rw [hkept.recency.length_eq, SessionTable.keys, List.length_map]
        rw [hrecency, List.length_cons] at hbefore
        rw [hleft] at hafter
        omega
      obtain ⟨evicted, after, hmade, hafter, hroom, hsplit⟩ := ih hkept hfewer
      refine ⟨oldest :: evicted, after, ?_, hafter, hroom, ?_⟩
      · rw [SessionTable.makeRoom, if_neg hlt, hmade, hevict]
        rfl
      · rw [hrecency, ← hleft, hsplit, List.cons_append]

theorem Kept.insert (h : Kept uses table) {key : String} (hkey : key ∉ table.keys) (actor : α) :
    Kept (uses ++ [key]) { actors := Table.insert table.actors key actor
                           recency := table.recency ++ [key] } where
  nodup := Table.nodup_insert h.nodup key actor
  recency := by
    have hfilter : table.keys.filter (fun other => decide (other ≠ key)) = table.keys := by
      rw [List.filter_eq_self]
      exact fun other hother => decide_eq_true fun heq => hkey (heq ▸ hother)
    rw [SessionTable.keys, Table.insert, List.map_cons, keys_erase, hfilter]
    exact (List.perm_append_singleton key _).trans (h.recency.cons key)
  ordered := ordered_append h.ordered fun hmem => hkey (h.recency.mem_iff.mp hmem)

/-- What `spawn` makes of a table without the key: the keys that were used first are gone, one after
the other, and as many are left as there may be. -/
structure Spawned (uses : List String) (table : SessionTable α) (max : Nat) (key : String)
    (evicted : List String) (after : SessionTable α) : Prop where
  kept : Kept (uses ++ [key]) after
  bounded : after.actors.length ≤ max
  recency : ∃ rest, table.recency = evicted ++ rest ∧ after.recency = rest ++ [key]
  oldest : table.recency.Pairwise (Earlier uses)

theorem Kept.spawn (h : Kept uses table) {max rounds : Nat} (hmax : 1 ≤ max)
    (hrounds : table.actors.length ≤ rounds) {key : String}
    (habsent : table.actors.lookup key = none) (actor : α) : ∃ evicted after,
      table.spawn max rounds key actor = some (evicted, after) ∧
        Spawned uses table max key evicted after := by
  obtain ⟨evicted, room, hmade, hkept, hlt, hsplit⟩ := h.makeRoom hmax hrounds
  have hkey : key ∉ room.keys := by
    intro hmem
    have hrecency : key ∈ table.recency := by
      rw [hsplit]
      exact List.mem_append_right _ (hkept.recency.mem_iff.mpr hmem)
    exact mem_keys.mp (h.recency.mem_iff.mp hrecency) habsent
  refine ⟨evicted, _, by rw [SessionTable.spawn, hmade]; rfl, ?_⟩
  refine ⟨hkept.insert hkey actor, ?_, ⟨room.recency, hsplit, rfl⟩, h.ordered⟩
  have hle := List.length_filter_le (fun entry : String × α => decide (entry.1 ≠ key)) room.actors
  simp only [Table.insert, Table.erase, List.length_cons]
  omega

end Kept

/-- More rounds than end the loop change nothing. -/
theorem makeRoom_more {max rounds : Nat} {table : SessionTable α}
    {made : List String × SessionTable α} (h : makeRoom max rounds table = some made) (more : Nat) :
    makeRoom max (rounds + more) table = some made := by
  induction rounds generalizing table made with
  | zero =>
    rw [makeRoom] at h
    split at h
    · rename_i hlt
      rw [makeRoom.eq_def]
      dsimp only
      rw [if_pos hlt]
      exact h
    · cases h
  | succ rounds ih =>
    rw [Nat.add_right_comm]
    rw [makeRoom] at h ⊢
    split at h
    · rename_i hlt
      rw [if_pos hlt]
      exact h
    · rename_i hfull
      obtain ⟨later, hlater, rfl⟩ := Option.map_eq_some_iff.mp h
      rw [if_neg hfull, ih hlater]
      rfl

theorem spawn_more {table : SessionTable α} {max rounds : Nat} {key : String} {actor : α}
    {result : List String × SessionTable α} (h : table.spawn max rounds key actor = some result)
    (more : Nat) : table.spawn max (rounds + more) key actor = some result := by
  obtain ⟨made, hmade, rfl⟩ := Option.map_eq_some_iff.mp h
  rw [spawn, makeRoom_more hmade more]
  rfl

theorem Run.kept {uses : List String} {table : SessionTable α} (h : Run uses table) :
    Kept uses table := by
  induction h with
  | start => exact ⟨.nil, .nil, .nil⟩
  | get _ alive key ih => exact ih.get alive key
  | @spawn uses evicted table after _ max rounds key actor positive absent spawned ih =>
    obtain ⟨evicted', after', hspawned, hafter⟩ :=
      ih.spawn positive (Nat.le_add_left table.actors.length rounds) absent actor
    rw [spawn_more spawned] at hspawned
    cases hspawned
    exact hafter.kept
  | remove _ key ih => exact ih.remove key
  | drain => exact ⟨.nil, .nil, .nil⟩

/-- `get` that returns no actor leaves no actor under the key. -/
theorem get_absent {alive : α → Bool} {table : SessionTable α} {key : String}
    (h : (table.get alive key).1 = none) : (table.get alive key).2.actors.lookup key = none := by
  unfold get at h ⊢
  split at h
  · assumption
  · rename_i actor hactor
    split at h
    · cases h
    · rename_i hdead
      rw [if_neg hdead, remove, Table.lookup_erase, if_pos rfl]

/-- In every run whose spawns are of keys without an actor, as they are behind a `get` that returned
none, the two containers agree, a spawn ends in at most as many rounds as there are actors, it keeps
the bound, and it evicts the keys that were used first. -/
theorem sessionTable_invariant :
    (∀ (uses : List String) (table : SessionTable α), Run uses table →
      table.keys.Nodup ∧ table.recency.Perm table.keys ∧
        ∀ max ≥ 1, ∀ rounds ≥ table.actors.length, ∀ key actor,
          table.actors.lookup key = none → ∃ evicted after,
            table.spawn max rounds key actor = some (evicted, after) ∧
              Spawned uses table max key evicted after) ∧
    ∀ (alive : α → Bool) (table : SessionTable α) key, (table.get alive key).1 = none →
      (table.get alive key).2.actors.lookup key = none := by
  refine ⟨fun uses table hrun => ?_, fun alive table key => get_absent⟩
  have hkept := hrun.kept
  exact ⟨hkept.nodup, hkept.recency, fun max hmax rounds hrounds key actor habsent =>
    hkept.spawn hmax hrounds habsent actor⟩

/-- A key is spawned twice without a look at the table between. -/
theorem spawned_twice : ∃ first second : List String × SessionTable Nat,
    (({} : SessionTable Nat).spawn 2 0 "chat" 1) = some first ∧
      first.2.spawn 2 1 "chat" 2 = some second ∧ second.2.recency = ["chat", "chat"] ∧
        second.2.keys = ["chat"] :=
  ⟨_, _, rfl, rfl, by decide, by decide⟩

end SessionTable
end HologramLive.Weightc
