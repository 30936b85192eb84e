import HologramLive.Lib.Lookup
import Mathlib.Data.List.Sort
import Mathlib.Tactic.Tauto

/-! Tables with one value a key, and indices from the keys of a table's entries back
to where the entries are. -/

namespace HologramLive.Lib.Table
open Lookup
variable {κ α : Type*}

section Listing
variable [LE κ] [DecidableLE κ] {table : List (κ × α)}

/-- The entries in the order of their keys. -/
def listing (table : List (κ × α)) : List (κ × α) :=
  table.insertionSort fun left right => left.1 ≤ right.1

@[simp] theorem mem_listing {entry : κ × α} : entry ∈ listing table ↔ entry ∈ table :=
  List.mem_insertionSort _

theorem nodup_listing (h : (table.map Prod.fst).Nodup) : ((listing table).map Prod.fst).Nodup :=
  ((List.perm_insertionSort _ table).map Prod.fst).nodup_iff.mpr h

end Listing

variable [DecidableEq κ]

def erase (table : List (κ × α)) (key : κ) : List (κ × α) :=
  table.filter fun entry => entry.1 ≠ key

def insert (table : List (κ × α)) (key : κ) (value : α) : List (κ × α) :=
  (key, value) :: erase table key

def insertAll (table : List (κ × α)) (keys : List κ) (value : α) : List (κ × α) :=
  keys.foldl (fun table key => insert table key value) table

def eraseAll (table : List (κ × α)) (keys : List κ) : List (κ × α) := keys.foldl erase table

variable {table : List (κ × α)}

@[simp] theorem lookup_erase (removed key : κ) :
    (erase table removed).lookup key = if key = removed then none else table.lookup key :=
  lookup_filter_ne table removed key

@[simp] theorem lookup_insert (place key : κ) (value : α) :
    (insert table place value).lookup key = if key = place then some value else table.lookup key := by
  by_cases h : key = place
  · simp [insert, h]
  · rw [insert, lookup_cons_ne h, lookup_erase, if_neg h, if_neg h]

@[simp] theorem lookup_insertAll (keys : List κ) (value : α) (key : κ) :
    (insertAll table keys value).lookup key =
      if key ∈ keys then some value else table.lookup key := by
  induction keys generalizing table with
  | nil => simp [insertAll]
  | cons first rest ih =>
    rw [insertAll, List.foldl_cons, ← insertAll, ih, lookup_insert]
    by_cases hrest : key ∈ rest
    · simp [hrest]
    · by_cases hfirst : key = first <;> simp [hrest, hfirst]

@[simp] theorem lookup_eraseAll (keys : List κ) (key : κ) :
    (eraseAll table keys).lookup key = if key ∈ keys then none else table.lookup key := by
  induction keys generalizing table with
  | nil => simp [eraseAll]
  | cons first rest ih =>
    rw [eraseAll, List.foldl_cons, ← eraseAll, ih, lookup_erase]
    by_cases hrest : key ∈ rest
    · simp [hrest]
    · by_cases hfirst : key = first <;> simp [hrest, hfirst]

theorem map_erase (table : List (κ × α)) (removed : κ) :
    (erase table removed).map Prod.fst = (table.map Prod.fst).filter (· ≠ removed) := by
  rw [erase, List.filter_map]
  rfl

theorem nodup_insert (h : (table.map Prod.fst).Nodup) (key : κ) (value : α) :
    ((insert table key value).map Prod.fst).Nodup := by
  rw [insert, List.map_cons, List.nodup_cons, map_erase]
  exact ⟨by simp, h.filter _⟩

theorem mem_insert (table : List (κ × α)) (place : κ) (value : α) (key : κ) :
    key ∈ (insert table place value).map Prod.fst ↔ key = place ∨ key ∈ table.map Prod.fst := by
  rw [insert, List.map_cons, List.mem_cons, map_erase]
  by_cases h : key = place <;> simp [h]

@[simp] theorem insert_insert (table : List (κ × α)) (key : κ) (first second : α) :
    insert (insert table key first) key second = insert table key second := by
  have herase : erase (insert table key first) key = erase table key := by
    simp [insert, erase]
  rw [insert, herase, insert]

theorem mem_inserts (table entries : List (κ × α)) (key : κ) :
    key ∈ (entries.foldl (fun table entry => insert table entry.1 entry.2) table).map Prod.fst ↔
      key ∈ table.map Prod.fst ∨ key ∈ entries.map Prod.fst := by
  induction entries generalizing table with
  | nil => simp
  | cons first rest ih =>
    rw [List.foldl_cons, ih, mem_insert, List.map_cons, List.mem_cons]
    tauto

theorem nodup_inserts (h : (table.map Prod.fst).Nodup) (entries : List (κ × α)) :
    ((entries.foldl (fun table entry => insert table entry.1 entry.2) table).map Prod.fst).Nodup := by
  induction entries generalizing table with
  | nil => exact h
  | cons first rest ih => exact ih (nodup_insert h _ _)

theorem mem_of_inserts {entries : List (κ × α)} {entry : κ × α}
    (h : entry ∈ entries.foldl (fun table entry => insert table entry.1 entry.2) table) :
    entry ∈ table ∨ entry ∈ entries := by
  induction entries generalizing table with
  | nil => exact .inl h
  | cons first rest ih =>
    rcases ih h with hmem | hmem
    · rcases List.mem_cons.mp hmem with rfl | hmem
      · exact .inr List.mem_cons_self
      · exact .inl (List.mem_filter.mp hmem).1
    · exact .inr (List.mem_cons_of_mem _ hmem)

/-- Where the last entries of a table are put in once more, in the order of all, they stay. -/
theorem lookup_inserts {last entries : List (κ × α)} (hlast : (last.map Prod.fst).Nodup)
    (hmem : ∀ entry ∈ entries, entry ∈ last) {key : κ}
    (hkey : key ∈ entries.map Prod.fst ∨ table.lookup key = last.lookup key) :
    (entries.foldl (fun table entry => insert table entry.1 entry.2) table).lookup key
      = last.lookup key := by
  induction entries generalizing table with
  | nil => simpa using hkey
  | cons first rest ih =>
    obtain ⟨hfirst, hrest⟩ := List.forall_mem_cons.mp hmem
    refine ih hrest ?_
    rw [lookup_insert]
    by_cases hsame : key = first.1
    · rw [if_pos hsame, hsame]
      exact .inr (lookup_of_mem hlast hfirst).symm
    · rw [if_neg hsame]
      rw [List.map_cons, List.mem_cons] at hkey
      tauto

theorem keys_inserts {other entries others : List (κ × α)}
    (htable : table.map Prod.fst = other.map Prod.fst)
    (hkeys : entries.map Prod.fst = others.map Prod.fst) :
    (entries.foldl (fun table entry => insert table entry.1 entry.2) table).map Prod.fst
      = (others.foldl (fun table entry => insert table entry.1 entry.2) other).map Prod.fst := by
  induction entries generalizing table other others with
  | nil =>
    obtain rfl := List.map_eq_nil_iff.mp hkeys.symm
    exact htable
  | cons first rest ih =>
    obtain ⟨second, more, rfl, hsecond, hmore⟩ := List.map_eq_cons_iff.mp hkeys.symm
    rw [List.foldl_cons, List.foldl_cons]
    refine ih ?_ hmore.symm
    rw [insert, insert, List.map_cons, List.map_cons, map_erase, map_erase, htable, hsecond]

theorem eq_of_lookup {other : List (κ × α)} (hkeys : table.map Prod.fst = other.map Prod.fst)
    (hnodup : (table.map Prod.fst).Nodup)
    (h : ∀ key, table.lookup key = other.lookup key) : table = other := by
  induction table generalizing other with
  | nil => exact (List.map_eq_nil_iff.mp hkeys.symm).symm
  | cons first rest ih =>
    obtain ⟨second, more, rfl, hsecond, hmore⟩ := List.map_eq_cons_iff.mp hkeys.symm
    obtain ⟨hfresh, hrest⟩ := List.nodup_cons.mp hnodup
    have hvalue := h first.1
    have hfirst : first = second := by
      refine Prod.ext hsecond.symm ?_
      rw [lookup_of_mem hnodup List.mem_cons_self, ← hsecond,
        lookup_of_mem (hkeys ▸ hnodup) List.mem_cons_self] at hvalue
      exact Option.some.inj hvalue
    subst hfirst
    refine congrArg (first :: ·) (ih hmore.symm hrest fun key => ?_)
    by_cases hkey : key = first.1
    · have hleft : rest.lookup key = none := by
        cases hlookup : rest.lookup key with
        | none => rfl
        | some value =>
          refine absurd ?_ hfresh
          exact hkey ▸ List.mem_map_of_mem (mem_of_lookup hlookup)
      have hright : more.lookup key = none := by
        cases hlookup : more.lookup key with
        | none => rfl
        | some value =>
          refine absurd ?_ hfresh
          rw [← hmore]
          exact hkey ▸ List.mem_map_of_mem (mem_of_lookup hlookup)
      rw [hleft, hright]
    · have hboth := h key
      rwa [lookup_cons_ne hkey, lookup_cons_ne hkey] at hboth

/-- A table made of entries it has in the end is the same as before. -/
theorem inserts_again {entries others : List (κ × α)}
    (hkeys : others.map Prod.fst = entries.map Prod.fst)
    (hmem : ∀ entry ∈ others,
      entry ∈ entries.foldl (fun table entry => insert table entry.1 entry.2) []) :
    others.foldl (fun table entry => insert table entry.1 entry.2) []
      = entries.foldl (fun table entry => insert table entry.1 entry.2) [] := by
  have hnodup := @nodup_inserts _ _ _ ([] : List (κ × α)) (by simp)
  refine eq_of_lookup (keys_inserts rfl hkeys) (hnodup others) fun key => ?_
  refine lookup_inserts (hnodup entries) hmem ?_
  by_cases hkey : key ∈ others.map Prod.fst
  · exact .inl hkey
  · right
    cases hlookup : (entries.foldl (fun table entry => insert table entry.1 entry.2) []).lookup key with
    | none => rfl
    | some value =>
      have hfound : key ∈ (entries.foldl (fun table entry => insert table entry.1 entry.2)
          []).map Prod.fst := List.mem_map_of_mem (mem_of_lookup hlookup)
      rw [mem_inserts, ← hkeys] at hfound
      exact absurd (hfound.resolve_left (by simp)) hkey

section Indexes
variable {ι ε : Type*} [DecidableEq ι]

/-- An index that has exactly the keys of the table's entries, each with the place of
the entry it is a key of. -/
def Indexes (keys : ε → List κ) (entries : List (ι × ε)) (index : List (κ × ι)) : Prop :=
  ∀ key place, index.lookup key = some place ↔
    ∃ entry, entries.lookup place = some entry ∧ key ∈ keys entry

variable {keys : ε → List κ} {entries : List (ι × ε)} {index : List (κ × ι)}

theorem Indexes.nil : Indexes keys ([] : List (ι × ε)) [] := by
  intro key place
  simp

/-- No key belongs to two entries. -/
theorem Indexes.unique (h : Indexes keys entries index) (hleft : entries.lookup left = some entry)
    (hright : entries.lookup right = some other) (hkey : key ∈ keys entry)
    (hkey' : key ∈ keys other) : left = right := by
  have hfirst := (h key left).mpr ⟨entry, hleft, hkey⟩
  have hsecond := (h key right).mpr ⟨other, hright, hkey'⟩
  exact Option.some.inj (hfirst.symm.trans hsecond)

/-- An entry with keys of its own, at a place of its own. -/
theorem Indexes.insert (h : Indexes keys entries index) (hplace : entries.lookup place = none)
    (hkeys : ∀ key ∈ keys entry, index.lookup key = none) :
    Indexes keys (insert entries place entry) (insertAll index (keys entry) place) := by
  intro key other
  rw [lookup_insertAll]
  by_cases hkey : key ∈ keys entry
  · rw [if_pos hkey, Option.some.injEq]
    constructor
    · rintro rfl
      exact ⟨entry, by simp, hkey⟩
    · rintro ⟨found, hfound, hmem⟩
      by_contra hne
      rw [lookup_insert, if_neg (Ne.symm hne)] at hfound
      have hold := (h key other).mpr ⟨found, hfound, hmem⟩
      rw [hkeys key hkey] at hold
      cases hold
  · rw [if_neg hkey, h key other]
    by_cases hother : other = place
    · subst hother
      simp [hplace, hkey]
    · simp [hother]

theorem Indexes.erase (h : Indexes keys entries index) (hplace : entries.lookup place = some entry) :
    Indexes keys (erase entries place) (eraseAll index (keys entry)) := by
  intro key other
  rw [lookup_eraseAll, lookup_erase]
  by_cases hkey : key ∈ keys entry
  · rw [if_pos hkey]
    constructor
    · exact nofun
    · rintro ⟨found, hfound, hmem⟩
      split at hfound
      · cases hfound
      · rename_i hne
        exact absurd (h.unique hfound hplace hmem hkey) hne
  · rw [if_neg hkey, h key other]
    by_cases hother : other = place
    · subst hother
      simp [hplace, hkey]
    · simp [hother]

/-- Nothing in the index, nothing with that key in the table. -/
theorem Indexes.lookup_eq_none (h : Indexes keys entries index)
    (hfree : ∀ place entry, entries.lookup place = some entry → key ∉ keys entry) :
    index.lookup key = none := by
  cases hindex : index.lookup key with
  | none => rfl
  | some place =>
    obtain ⟨entry, hentry, hkey⟩ := (h key place).mp hindex
    exact absurd hkey (hfree place entry hentry)

end Indexes

end HologramLive.Lib.Table
