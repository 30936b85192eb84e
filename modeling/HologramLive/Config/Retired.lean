import HologramLive.Lib.Toml
import Mathlib.Data.List.SplitOn

/-! Keys that the schema has dropped, and taking them out of a parsed configuration. -/

namespace HologramLive.Config
open Lib Lib.Toml
open Lib.Toml.Value (find asTable)

/-- A key removed from the schema, and the version that removed it. -/
structure RetiredKey where
  path : String
  removedIn : Nat

/-- The keys of a dotted path. -/
def segments (path : String) : List String := (path.toList.splitOn '.').map String.ofList

/-- Removes a dotted path, reporting whether anything was there. -/
def removeDotted : List String → Entries → Entries × Bool
  | [], table => (table, false)
  | [key], table => (Table.erase table key, (table.lookup key).isSome)
  | head :: next :: rest, table =>
    match (table.lookup head).bind asTable with
    | none => (table, false)
    | some inner =>
      let removed := removeDotted (next :: rest) inner
      (Table.insert table head (.table removed.1), removed.2)

/-- Drops the keys retired after `version`, returning the paths removed. -/
def pruneRetiredKeys (table : Entries) (version : Nat) (retired : List RetiredKey) :
    Entries × List String :=
  (retired.filter fun key => version < key.removedIn).foldl (fun (table, dropped) key =>
    let removed := removeDotted (segments key.path) table
    (removed.1, if removed.2 then dropped ++ [key.path] else dropped)) (table, [])

theorem segments_ne_nil (path : String) : segments path ≠ [] := by
  rw [segments, Ne, List.map_eq_nil_iff]
  exact List.splitOn_ne_nil _ _

/-- Removal empties the path and leaves all that is not under it. -/
theorem removeDotted_find {keys : List String} (hkeys : keys ≠ []) (table : Entries)
    (path : List String) :
    (keys <+: path → find path (.table (removeDotted keys table).1) = none) ∧
      (¬ keys <+: path → Alike (find path (.table (removeDotted keys table).1))
        (find path (.table table))) := by
  induction keys generalizing table path with
  | nil => exact absurd rfl hkeys
  | cons key rest ih =>
    cases path with
    | nil =>
      refine ⟨fun hprefix => ?_, fun _ => .inr ⟨_, _, rfl, rfl⟩⟩
      exact absurd (List.prefix_nil.mp hprefix) (List.cons_ne_nil _ _)
    | cons first path =>
      rw [List.cons_prefix_cons]
      cases rest with
      | nil =>
        rw [removeDotted, find_erase]
        by_cases hfirst : first = key
        · rw [if_pos hfirst]
          exact ⟨fun _ => rfl, fun hother => absurd ⟨hfirst.symm, List.nil_prefix⟩ hother⟩
        · rw [if_neg hfirst]
          exact ⟨fun hprefix => absurd hprefix.1.symm hfirst, fun _ => .refl _⟩
      | cons next rest =>
        rw [removeDotted]
        cases hinner : (table.lookup key).bind asTable with
        | none =>
          refine ⟨fun ⟨hkey, hrest⟩ => ?_, fun _ => .refl _⟩
          dsimp only
          rw [← hkey, find_cons]
          cases hvalue : table.lookup key with
          | none => rfl
          | some value =>
            rw [hvalue, Option.bind_some] at hinner
            obtain ⟨last, hlast⟩ := hrest
            rw [Option.bind_some, ← hlast, List.cons_append]
            exact find_cons_none hinner
        | some inner =>
          dsimp only
          rw [find_insert]
          by_cases hfirst : first = key
          · obtain ⟨value, hvalue, htable⟩ := Option.bind_eq_some_iff.mp hinner
            obtain rfl : value = .table inner := by
              cases value <;> simp_all [asTable]
            rw [if_pos hfirst, hfirst, find_cons, hvalue, Option.bind_some]
            obtain ⟨hunder, hother⟩ := ih (List.cons_ne_nil _ _) inner path
            exact ⟨fun hprefix => hunder hprefix.2, fun hne => hother fun hprefix =>
              hne ⟨rfl, hprefix⟩⟩
          · rw [if_neg hfirst]
            exact ⟨fun hprefix => absurd hprefix.1.symm hfirst, fun _ => .refl _⟩

/-- A path that lies under a key retired after a version. -/
def Retired (retired : List RetiredKey) (version : Nat) (path : List String) : Prop :=
  ∃ key ∈ retired, version < key.removedIn ∧ segments key.path <+: path

/-- Pruning as removals one after another. -/
theorem pruneRetiredKeys_fst (table : Entries) (version : Nat) (retired : List RetiredKey) :
    (pruneRetiredKeys table version retired).1 =
      (retired.filter fun key => version < key.removedIn).foldl
        (fun table key => (removeDotted (segments key.path) table).1) table := by
  have hfold : ∀ (keys : List RetiredKey) (table : Entries) (dropped : List String),
      (keys.foldl (fun (table, dropped) key =>
        let removed := removeDotted (segments key.path) table
        (removed.1, if removed.2 then dropped ++ [key.path] else dropped)) (table, dropped)).1 =
        keys.foldl (fun table key => (removeDotted (segments key.path) table).1) table := by
    intro keys
    induction keys with
    | nil => exact fun _ _ => rfl
    | cons key rest ih => exact fun _ _ => ih _ _
  exact hfold _ table []

/-- Pruning empties exactly the listed paths: what is not under one of them stays. -/
theorem pruneRetiredKeys_find (table : Entries) (version : Nat) (retired : List RetiredKey)
    (path : List String) :
    (Retired retired version path →
        find path (.table (pruneRetiredKeys table version retired).1) = none) ∧
      (¬ Retired retired version path →
        Alike (find path (.table (pruneRetiredKeys table version retired).1))
          (find path (.table table))) := by
  have hretired : Retired retired version path ↔
      ∃ key ∈ retired.filter (fun key => version < key.removedIn), segments key.path <+: path := by
    simp [Retired, and_assoc]
  rw [pruneRetiredKeys_fst, hretired]
  generalize retired.filter (fun key => version < key.removedIn) = keys
  have halike : ∀ (keys : List RetiredKey) (table : Entries) (path : List String),
      find path (.table table) = none →
        find path (.table (keys.foldl (fun table key =>
          (removeDotted (segments key.path) table).1) table)) = none := by
    intro keys
    induction keys with
    | nil => exact fun _ _ h => h
    | cons key rest ih =>
      intro table path h
      apply ih
      obtain ⟨hunder, hother⟩ := removeDotted_find (segments_ne_nil key.path) table path
      by_cases hprefix : segments key.path <+: path
      · exact hunder hprefix
      · exact (h ▸ hother hprefix).eq_none
  induction keys generalizing table with
  | nil =>
    refine ⟨?_, fun _ => Alike.refl _⟩
    rintro ⟨_, hmem, _⟩
    cases hmem
  | cons key rest ih =>
    obtain ⟨hunder, hother⟩ := removeDotted_find (segments_ne_nil key.path) table path
    obtain ⟨hrest, hkept⟩ := ih (removeDotted (segments key.path) table).1
    constructor
    · rintro ⟨found, hmem, hprefix⟩
      rcases List.mem_cons.mp hmem with rfl | hmem
      · exact halike rest _ path (hunder hprefix)
      · exact hrest ⟨found, hmem, hprefix⟩
    · intro hne
      refine (hkept fun ⟨found, hmem, hprefix⟩ => ?_).trans (hother fun hprefix => ?_)
      · exact hne ⟨found, List.mem_cons_of_mem _ hmem, hprefix⟩
      · exact hne ⟨key, List.mem_cons_self, hprefix⟩

/-- Where every key was retired no later than the file's version, nothing is pruned. -/
theorem pruneRetiredKeys_current {version : Nat} {retired : List RetiredKey}
    (h : ∀ key ∈ retired, key.removedIn ≤ version) (table : Entries) :
    pruneRetiredKeys table version retired = (table, []) := by
  have hnone : retired.filter (fun key => version < key.removedIn) = [] := by
    rw [List.filter_eq_nil_iff]
    intro key hkey
    simpa using h key hkey
  rw [pruneRetiredKeys, hnone]
  rfl

theorem removeDotted_names (keys : List String) (table : Entries) :
    ∀ name ∈ (removeDotted keys table).1.map Prod.fst, name ∈ table.map Prod.fst := by
  intro name hname
  match keys with
  | [] => exact hname
  | [key] =>
    rw [removeDotted, Table.map_erase] at hname
    exact List.mem_of_mem_filter hname
  | key :: next :: rest =>
    rw [removeDotted] at hname
    split at hname
    · exact hname
    · rename_i inner hinner
      obtain ⟨value, hvalue, _⟩ := Option.bind_eq_some_iff.mp hinner
      rcases (Table.mem_insert _ _ _ _).mp hname with rfl | hname
      · exact List.mem_map.mpr ⟨_, Lookup.mem_of_lookup hvalue, rfl⟩
      · exact hname

end HologramLive.Config
