import Mathlib.Data.List.Basic

namespace HologramLive.Lib.Lookup
variable {κ α : Type*} [BEq κ] [LawfulBEq κ]

theorem lookup_cons_ne {entries : List (κ × α)} {place key : κ} (h : key ≠ place) (value : α) :
    ((place, value) :: entries).lookup key = entries.lookup key := by
  rw [List.lookup_cons, beq_eq_false_iff_ne.mpr h]

theorem not_mem_of_lookup {entries : List (κ × α)} {key : κ} (h : entries.lookup key = none) :
    key ∉ entries.map Prod.fst := by
  intro hmem
  obtain ⟨⟨place, value⟩, hentry, rfl⟩ := List.mem_map.mp hmem
  rw [List.lookup_eq_none_iff] at h
  simpa using h _ hentry

theorem mem_of_lookup {entries : List (κ × α)} {key : κ} {value : α}
    (h : entries.lookup key = some value) : (key, value) ∈ entries := by
  obtain ⟨before, after, rfl, _⟩ := List.lookup_eq_some_iff.mp h
  simp

/-- Where no key comes twice, every entry is found. -/
theorem lookup_of_mem {entries : List (κ × α)} {key : κ} {value : α}
    (hnodup : (entries.map Prod.fst).Nodup) (hmem : (key, value) ∈ entries) :
    entries.lookup key = some value := by
  induction entries with
  | nil => cases hmem
  | cons entry rest ih =>
    obtain ⟨place, first⟩ := entry
    obtain ⟨hfresh, hrest⟩ := List.nodup_cons.mp hnodup
    rcases List.mem_cons.mp hmem with hfirst | hlater
    · cases hfirst
      simp
    · have hne : key ≠ place := by
        rintro rfl
        exact hfresh (List.mem_map.mpr ⟨_, hlater, rfl⟩)
      rw [lookup_cons_ne hne]
      exact ih hrest hlater

theorem filterMap_lookup {entries : List (κ × α)} (hnodup : (entries.map Prod.fst).Nodup) :
    (entries.map Prod.fst).filterMap (fun key => entries.lookup key) = entries.map Prod.snd := by
  have hfound : ∀ entry ∈ entries,
      ((fun key => entries.lookup key) ∘ Prod.fst) entry = (some ∘ Prod.snd) entry :=
    fun entry hmem => lookup_of_mem hnodup hmem
  rw [List.filterMap_map, List.filterMap_congr hfound, List.filterMap_eq_map]

/-- Entries for some of the members of a list, each under a key of its own. -/
theorem lookup_filterMap {ι : Type*} {members : List ι} (key : ι → κ) (value : ι → Option α)
    (hkeys : (members.map key).Nodup) {member : ι} (hmem : member ∈ members) :
    (members.filterMap fun member => (value member).map fun found => (key member, found)).lookup
      (key member) = value member := by
  have habsent : ∀ {rest : List ι} {place : κ}, place ∉ rest.map key →
      (rest.filterMap fun member => (value member).map fun found => (key member, found)).lookup
        place = none := by
    intro rest place hplace
    rw [List.lookup_eq_none_iff]
    intro entry hentry
    obtain ⟨other, hother, hvalue⟩ := List.mem_filterMap.mp hentry
    obtain ⟨found, _, rfl⟩ := Option.map_eq_some_iff.mp hvalue
    rw [bne_iff_ne]
    rintro rfl
    exact hplace (List.mem_map.mpr ⟨other, hother, rfl⟩)
  induction members with
  | nil => cases hmem
  | cons first rest ih =>
    obtain ⟨hfresh, hrest⟩ := List.nodup_cons.mp hkeys
    rw [List.filterMap_cons]
    rcases List.mem_cons.mp hmem with rfl | hmem
    · cases hvalue : value member with
      | none => exact habsent hfresh
      | some found => simp
    · have hne : key member ≠ key first := fun heq =>
        hfresh (List.mem_map.mpr ⟨member, hmem, heq⟩)
      cases hvalue : value first with
      | none => exact ih hrest hmem
      | some found =>
        rw [Option.map_some]
        exact (lookup_cons_ne hne found).trans (ih hrest hmem)

variable [DecidableEq κ]

/-- Without its entries a key is absent; other keys are found as before. -/
theorem lookup_filter_ne (entries : List (κ × α)) (removed key : κ) :
    (entries.filter fun entry => entry.1 ≠ removed).lookup key =
      if key = removed then none else entries.lookup key := by
  induction entries with
  | nil => simp
  | cons entry rest ih =>
    obtain ⟨place, value⟩ := entry
    rw [List.filter_cons]
    by_cases hplace : place = removed
    · simp only [hplace, ne_eq, not_true_eq_false, decide_false, Bool.false_eq_true, ↓reduceIte]
      rw [ih]
      split
      · rfl
      · rename_i hkey
        rw [List.lookup_cons, beq_eq_false_iff_ne.mpr hkey]
    · simp only [hplace, ne_eq, not_false_eq_true, decide_true, ↓reduceIte, List.lookup_cons]
      split
      · rename_i hsame
        obtain rfl := eq_of_beq hsame
        rw [if_neg hplace]
      · exact ih

end HologramLive.Lib.Lookup
