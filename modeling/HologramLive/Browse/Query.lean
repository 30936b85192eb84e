import HologramLive.Browse.Render
import HologramLive.Lib.Lookup

/-! What a query finds, in which order, and the numbers beside the values. -/

namespace HologramLive.Browse
open Lib

section Query
variable {ν π : Type} {engine : Engine}

/-! ## What is found -/

/-- The text is found in a model, and every facet with a selection has a value of it. -/
def Satisfies (engine : Engine) (state : State π) (m : Model ν) : Prop :=
  matchesText engine m state.q = true ∧
    ∀ facet, state.f facet ≠ [] → ∃ value ∈ (m.fields facet).values, value ∈ state.f facet

theorem selects_iff {m : Model ν} {f : Facet → List String} {facet : Facet} :
    selects m f facet = true ↔
      (f facet ≠ [] → ∃ value ∈ (m.fields facet).values, value ∈ f facet) := by
  cases hf : f facet with
  | nil => simp [selects, hf]
  | cons first rest => simp [selects, hf]

theorem matchesState_iff {m : Model ν} {state : State π} {skip : Option Facet} :
    matchesState engine m state skip = true ↔ matchesText engine m state.q = true ∧
      ∀ facet, skip ≠ some facet → selects m state.f facet = true := by
  simp only [matchesState, Bool.and_eq_true, List.all_eq_true, Bool.or_eq_true, decide_eq_true_eq]
  constructor
  · rintro ⟨htext, hfacets⟩
    exact ⟨htext, fun facet hskip => (hfacets facet (Facet.mem_all facet)).resolve_left hskip⟩
  · rintro ⟨htext, hfacets⟩
    exact ⟨htext, fun facet _ => or_iff_not_imp_left.mpr (hfacets facet)⟩

theorem matchesState_none_iff {m : Model ν} {state : State π} :
    matchesState engine m state none = true ↔ Satisfies engine state m := by
  rw [matchesState_iff, Satisfies]
  simp [selects_iff]

instance (engine : Engine) (state : State π) : DecidablePred (Satisfies (ν := ν) engine state) :=
  fun _ => decidable_of_iff _ matchesState_none_iff

theorem filter_satisfies (models : List (Model ν)) (state : State π) :
    (models.filter fun m => matchesState engine m state none) =
      models.filter fun m => Satisfies engine state m := by
  apply List.filter_congr
  intro m _
  rw [Bool.eq_iff_iff, decide_eq_true_eq, matchesState_none_iff]

/-- Every facet but one, and that one. -/
theorem matchesState_split {m : Model ν} {state : State π} (facet : Facet) :
    matchesState engine m state none = true ↔
      matchesState engine m state (some facet) = true ∧ selects m state.f facet = true := by
  rw [matchesState_iff, matchesState_iff]
  constructor
  · rintro ⟨htext, hfacets⟩
    exact ⟨⟨htext, fun other _ => hfacets other (by simp)⟩, hfacets facet (by simp)⟩
  · rintro ⟨⟨htext, hothers⟩, hfacet⟩
    refine ⟨htext, fun other _ => ?_⟩
    by_cases hsame : other = facet
    · rw [hsame]
      exact hfacet
    · exact hothers other fun heq => hsame (Option.some.inj heq).symm

theorem matchesState_select {m : Model ν} {state : State π} {facet : Facet}
    {values : List String} :
    matchesState engine m (select state facet values) (some facet) =
      matchesState engine m state (some facet) := by
  rw [Bool.eq_iff_iff, matchesState_iff, matchesState_iff]
  have hother (other : Facet) (hne : some facet ≠ some other) :
      selects m (select state facet values).f other = selects m state.f other := by
    have hsame : other ≠ facet := fun heq => hne (congrArg some heq.symm)
    simp [selects, select, hsame]
  constructor
  · rintro ⟨htext, hfacets⟩
    exact ⟨htext, fun other hne => hother other hne ▸ hfacets other hne⟩
  · rintro ⟨htext, hfacets⟩
    exact ⟨htext, fun other hne => (hother other hne).symm ▸ hfacets other hne⟩

/-- What one value of a facet finds. -/
theorem matchesState_single {m : Model ν} {state : State π} {facet : Facet} {value : String} :
    matchesState engine m (select state facet [value]) none = true ↔
      matchesState engine m state (some facet) = true ∧ value ∈ (m.fields facet).values := by
  rw [matchesState_split facet, matchesState_select]
  simp [selects, select]

/-! ## The numbers beside the values -/

/-- The number that is kept for a value. -/
def tally (counts : List (String × Nat)) (value : String) : Nat := (counts.lookup value).getD 0

theorem lookup_raised (counts : List (String × Nat)) (value other : String) (more : Nat) :
    (counts.map fun entry => if entry.1 = value then (value, entry.2 + more) else entry).lookup
      other = (counts.lookup other).map fun n => n + if other = value then more else 0 := by
  induction counts with
  | nil => rfl
  | cons entry rest ih =>
    obtain ⟨key, n⟩ := entry
    have hkey : ((if key = value then (value, n + more) else (key, n)) : String × Nat) =
        (key, n + if key = value then more else 0) := by
      split
      · rename_i hsame
        rw [hsame]
      · rfl
    rw [List.map_cons, hkey]
    by_cases hother : other = key
    · subst hother
      simp
    · rw [Lookup.lookup_cons_ne hother, Lookup.lookup_cons_ne hother, ih]

theorem tally_bump (counts : List (String × Nat)) (value other : String) (more : Nat) :
    tally (bump counts value more) other =
      tally counts other + if other = value then more else 0 := by
  unfold bump
  split
  · rename_i hany
    rw [tally, lookup_raised, tally]
    cases hlookup : counts.lookup other with
    | some n => rfl
    | none =>
      have hne : other ≠ value := by
        rintro rfl
        obtain ⟨entry, hmem, hentry⟩ := List.any_eq_true.mp hany
        have habsent := Lookup.not_mem_of_lookup hlookup
        exact habsent (List.mem_map.mpr ⟨entry, hmem, by simpa using hentry⟩)
      simp [hne]
  · rename_i hany
    rw [tally, List.lookup_append, tally]
    by_cases hother : other = value
    · subst hother
      have hnone : counts.lookup other = none := by
        rw [List.lookup_eq_none_iff]
        intro entry hmem
        simp only [Bool.not_eq_true, List.any_eq_false, decide_eq_true_eq] at hany
        simpa using fun heq : other = entry.1 => hany entry hmem heq.symm
      simp [hnone]
    · simp [List.lookup_cons, hother, beq_eq_false_iff_ne.mpr hother]

theorem tally_bumps (counts : List (String × Nat)) (values : List String) (other : String)
    (more : Nat) : tally (values.foldl (fun counts value => bump counts value more) counts) other =
      tally counts other + more * values.count other := by
  induction values generalizing counts with
  | nil => simp
  | cons value rest ih =>
    rw [List.foldl_cons, ih, tally_bump, List.count_cons]
    by_cases hother : other = value
    · subst hother
      simp only [if_true, beq_self_eq_true, Nat.mul_add, Nat.mul_one]
      omega
    · have hvalue : (value == other) = false := beq_eq_false_iff_ne.mpr fun heq => hother heq.symm
      simp [hother, hvalue]

/-- The values of a model that are counted. -/
def countedValues (facet : Facet) (m : Model ν) : List String :=
  (m.fields facet).values.filter fun value => ¬ (facet = .modality ∧ value = "Other")

theorem count_countedValues {facet : Facet} {value : String}
    (hvalue : ¬ (facet = .modality ∧ value = "Other")) (m : Model ν) :
    (countedValues facet m).count value = (m.fields facet).values.count value :=
  List.count_filter (p := fun value => ¬ (facet = .modality ∧ value = "Other"))
    (decide_eq_true hvalue)

theorem countModel_eq (state : State π) (facet : Facet) (counts : List (String × Nat))
    (m : Model ν) : countModel engine state facet counts m =
      (countedValues facet m).foldl (fun counts value =>
        bump counts value (if matchesState engine m state (some facet) then 1 else 0)) counts := by
  rw [countModel, countedValues, List.foldl_filter]
  congr 1
  funext counts value
  by_cases hother : facet = .modality ∧ value = "Other" <;> simp [hother]

/-- How often a value is counted for a model. -/
def occurrences (engine : Engine) (state : State π) (facet : Facet) (value : String)
    (m : Model ν) : Nat :=
  if matchesState engine m state (some facet) then (countedValues facet m).count value else 0

theorem tally_countModel (state : State π) (facet : Facet) (counts : List (String × Nat))
    (m : Model ν) (value : String) : tally (countModel engine state facet counts m) value =
      tally counts value + occurrences engine state facet value m := by
  rw [countModel_eq, tally_bumps, occurrences]
  split <;> simp

theorem tally_countModels (models : List (Model ν)) (state : State π) (facet : Facet)
    (counts : List (String × Nat)) (value : String) :
    tally (models.foldl (countModel engine state facet) counts) value =
      tally counts value + (models.map (occurrences engine state facet value)).sum := by
  induction models generalizing counts with
  | nil => simp
  | cons m rest ih =>
    rw [List.foldl_cons, ih, tally_countModel, List.map_cons, List.sum_cons, Nat.add_assoc]

/-- The entries are under keys of their own, none of them a modality that is not counted. -/
structure WellKept (facet : Facet) (counts : List (String × Nat)) : Prop where
  nodup : (counts.map Prod.fst).Nodup
  counted : facet = .modality → "Other" ∉ counts.map Prod.fst

theorem keys_bump (counts : List (String × Nat)) (value : String) (more : Nat) :
    (bump counts value more).map Prod.fst =
      if value ∈ counts.map Prod.fst then counts.map Prod.fst
        else counts.map Prod.fst ++ [value] := by
  have hany : counts.any (·.1 = value) = true ↔ value ∈ counts.map Prod.fst := by
    simp
  unfold bump
  by_cases hmem : value ∈ counts.map Prod.fst
  · rw [if_pos hmem, if_pos (hany.mpr hmem), List.map_map]
    apply List.map_congr_left
    intro entry _
    simp only [Function.comp_apply]
    split
    · rename_i hsame
      exact hsame.symm
    · rfl
  · rw [if_neg hmem, if_neg fun h => hmem (hany.mp h)]
    simp

theorem WellKept.bump {facet : Facet} {counts : List (String × Nat)} (h : WellKept facet counts)
    {value : String} (hvalue : ¬ (facet = .modality ∧ value = "Other")) (more : Nat) :
    WellKept facet (bump counts value more) := by
  constructor
  · rw [keys_bump]
    split
    · exact h.nodup
    · rename_i hnew
      exact List.nodup_append_comm.mp (List.nodup_cons.mpr ⟨hnew, h.nodup⟩)
  · intro hfacet hmem
    rw [keys_bump] at hmem
    split at hmem
    · exact h.counted hfacet hmem
    · rcases List.mem_append.mp hmem with hold | hnew
      · exact h.counted hfacet hold
      · exact hvalue ⟨hfacet, (List.mem_singleton.mp hnew).symm⟩

theorem WellKept.bumps {facet : Facet} {counts : List (String × Nat)} {values : List String}
    (h : WellKept facet counts)
    (hvalues : ∀ value ∈ values, ¬ (facet = .modality ∧ value = "Other")) (more : Nat) :
    WellKept facet (values.foldl (fun counts value => Browse.bump counts value more) counts) := by
  induction values generalizing counts with
  | nil => exact h
  | cons value rest ih =>
    exact ih (h.bump (hvalues value (by simp)) more) fun later hmem => hvalues later (by simp [hmem])

theorem WellKept.countModels {facet : Facet} {counts : List (String × Nat)}
    (h : WellKept facet counts) (models : List (Model ν)) (state : State π) :
    WellKept facet (models.foldl (countModel engine state facet) counts) := by
  induction models generalizing counts with
  | nil => exact h
  | cons m rest ih =>
    refine ih ?_
    rw [countModel_eq]
    exact h.bumps (fun value hmem => of_decide_eq_true (List.mem_filter.mp hmem).2) _

theorem wellKept_fixed (facet : Facet) :
    WellKept facet ((facet.fixed.getD []).map fun value => (value, 0)) := by
  constructor
  · cases facet <;> decide
  · rintro rfl
    decide

theorem facetCounts_wellKept (models : List (Model ν)) (state : State π) (facet : Facet) :
    WellKept facet (facetCounts engine models state facet) :=
  (wellKept_fixed facet).countModels models state

theorem tally_fixed (values : List String) (value : String) :
    tally (values.map fun value => (value, 0)) value = 0 := by
  rw [tally]
  cases hlookup : (values.map fun value => (value, 0)).lookup value with
  | none => rfl
  | some n =>
    obtain ⟨_, _, heq⟩ := List.mem_map.mp (Lookup.mem_of_lookup hlookup)
    cases heq
    rfl

/-- The number beside a value counts it once for each time a model has it. -/
theorem facetCounts_entry {models : List (Model ν)} {state : State π} {facet : Facet}
    {value : String} {n : Nat} (h : (value, n) ∈ facetCounts engine models state facet) :
    n = (models.map fun m => if matchesState engine m state (some facet)
      then (m.fields facet).values.count value else 0).sum := by
  have hkept := @facetCounts_wellKept _ _ engine models state facet
  have htally : tally (facetCounts engine models state facet) value = n := by
    rw [tally, Lookup.lookup_of_mem hkept.nodup h]
    rfl
  have hvalue : ¬ (facet = .modality ∧ value = "Other") := by
    rintro ⟨hfacet, rfl⟩
    exact hkept.counted hfacet (List.mem_map.mpr ⟨_, h, rfl⟩)
  rw [← htally, facetCounts, tally_countModels, tally_fixed, Nat.zero_add]
  congr 1
  apply List.map_congr_left
  intro m _
  rw [occurrences, count_countedValues hvalue]

theorem countP_le_sum {α : Type} (list : List α) (number : α → Nat) (holds : α → Bool)
    (h : ∀ element ∈ list, (holds element = true ↔ 0 < number element)) :
    list.countP holds ≤ (list.map number).sum := by
  induction list with
  | nil => simp
  | cons first rest ih =>
    have hrest := ih fun element hmem => h element (List.mem_cons_of_mem _ hmem)
    have hfirst := (h first List.mem_cons_self).mp
    rw [List.countP_cons, List.map_cons, List.sum_cons]
    split
    · rename_i hholds
      have hone := hfirst hholds
      omega
    · omega

theorem sum_eq_countP_iff {α : Type} (list : List α) (number : α → Nat) (holds : α → Bool)
    (h : ∀ element ∈ list, (holds element = true ↔ 0 < number element)) :
    (list.map number).sum = list.countP holds ↔ ∀ element ∈ list, number element ≤ 1 := by
  induction list with
  | nil => simp
  | cons first rest ih =>
    have hlater : ∀ element ∈ rest, (holds element = true ↔ 0 < number element) :=
      fun element hmem => h element (List.mem_cons_of_mem _ hmem)
    have hfirst := h first List.mem_cons_self
    have hle := countP_le_sum rest number holds hlater
    rw [List.map_cons, List.sum_cons, List.countP_cons, List.forall_mem_cons, ← ih hlater]
    split
    · rename_i hholds
      have hone := hfirst.mp hholds
      omega
    · rename_i hholds
      have hzero : ¬ 0 < number first := fun hpos => hholds (hfirst.mpr hpos)
      omega

/-- No model that all other facets leave has a value of the facet twice. -/
def Unrepeated (engine : Engine) (models : List (Model ν)) (state : State π) (facet : Facet)
    (value : String) : Prop :=
  ∀ m ∈ models, matchesState engine m state (some facet) = true →
    (m.fields facet).values.count value ≤ 1

theorem entry_iff {models : List (Model ν)} {state : State π} {facet : Facet} {value : String}
    {n : Nat} (h : (value, n) ∈ facetCounts engine models state facet) :
    n = (models.filter fun m => matchesState engine m (select state facet [value]) none).length ↔
      Unrepeated engine models state facet value := by
  rw [facetCounts_entry h, ← List.countP_eq_length_filter, sum_eq_countP_iff]
  · constructor
    · intro hnumbers m hm hmatch
      simpa [hmatch] using hnumbers m hm
    · intro honce m hm
      split
      · rename_i hmatch
        exact honce m hm hmatch
      · exact Nat.zero_le 1
  · intro m _
    rw [matchesState_single]
    by_cases hmatch : matchesState engine m state (some facet) = true
    · simp [hmatch, List.count_pos_iff]
    · simp [hmatch]

theorem mem_facetCounts {models : List (Model ν)} {state : State π} {facet : Facet}
    {value : String} (h : 0 < tally (facetCounts engine models state facet) value) :
    ∃ n, 0 < n ∧ (value, n) ∈ facetCounts engine models state facet := by
  cases hlookup : (facetCounts engine models state facet).lookup value with
  | none =>
    rw [tally, hlookup] at h
    exact absurd h (Nat.lt_irrefl 0)
  | some n =>
    rw [tally, hlookup] at h
    exact ⟨n, h, Lookup.mem_of_lookup hlookup⟩

theorem mem_facetValues {sorter : Sorting.Sorter} {models : List (Model ν)} {state : State π} {order : Facet → Bool}
    {facet : Facet} {value : String} {n : Nat} :
    (value, n) ∈ facetValues engine sorter models state order facet ↔
      (value, n) ∈ facetCounts engine models state facet ∧ (0 < n ∨ value ∈ state.f facet) := by
  rw [facetValues, (sorter.perm _ _).mem_iff, List.mem_filter]
  simp

/-- A value that a model has, and that the model is left for by all other facets, is listed. -/
theorem tally_pos {models : List (Model ν)} {state : State π} {facet : Facet} {value : String}
    (hvalue : ¬ (facet = .modality ∧ value = "Other")) {m : Model ν} (hm : m ∈ models)
    (hmatch : matchesState engine m state (some facet) = true)
    (hhas : 0 < (m.fields facet).values.count value) :
    0 < tally (facetCounts engine models state facet) value := by
  have hnumber : 0 < occurrences engine state facet value m := by
    rw [occurrences, if_pos hmatch, count_countedValues hvalue]
    exact hhas
  rw [facetCounts, tally_countModels]
  have hsum : 0 < (models.map (occurrences engine state facet value)).sum :=
    List.sum_pos_iff_exists_pos_nat.mpr ⟨_, List.mem_map_of_mem hm, hnumber⟩
  omega

end Query

section Order
variable {ν π : Type} [LinearOrder ν] {engine : Engine}

/-! ## The order of what is found -/

/-- No number is missing where they differ. -/
def Comparable (number : Model ν → Option ν) (models : List (Model ν)) : Prop :=
  (∀ m ∈ models, number m ≠ none) ∨
    ∀ first ∈ models, ∀ second ∈ models, ∀ left ∈ number first, ∀ right ∈ number second, left = right

/-- The models have the numbers they are sorted by. Dates and sizes have defaults. -/
def Sortable (sort : SortKey) (models : List (Model ν)) : Prop :=
  match sort with
  | .trending => Comparable Model.rank models
  | .downloads => Comparable Model.downloads models
  | .likes => Comparable Model.likes models
  | .newest => True
  | .size => True

theorem difference_swap (left right : Option ν) :
    difference right left = (difference left right).swap := by
  cases left with
  | none => cases right <;> rfl
  | some left =>
    cases right with
    | none => rfl
    | some right =>
      exact (Sorting.Consistent.of_key id [left, right]).swap left (by simp) right (by simp)

theorem difference_consistent_iff (number : Model ν → Option ν) (models : List (Model ν)) :
    Sorting.Consistent (fun left right => difference (number left) (number right)) models ↔
      Comparable number models := by
  constructor
  · intro h
    by_contra hnot
    rw [Comparable, not_or] at hnot
    push Not at hnot
    obtain ⟨⟨missing, hmissing, hnone⟩, first, hfirst, second, hsecond, left, hleft, right, hright,
      hne⟩ := hnot
    have hbelow (other : Model ν) : difference (number other) (number missing) ≠ .gt := by
      cases hother : number other <;> simp [hnone, difference]
    have habove (other : Model ν) : difference (number missing) (number other) ≠ .gt := by
      simp [hnone, difference]
    have hbefore : difference (number first) (number second) ≠ .gt :=
      h.trans first hfirst missing hmissing second hsecond (hbelow first) (habove second)
    have hafter : difference (number second) (number first) ≠ .gt :=
      h.trans second hsecond missing hmissing first hfirst (hbelow second) (habove first)
    rw [Option.mem_def] at hleft hright
    rw [hleft, hright, difference, compare_le_iff_le] at hbefore hafter
    exact hne (le_antisymm hbefore hafter)
  · intro h
    refine ⟨fun left _ right _ => difference_swap _ _, ?_⟩
    intro first hfirst second hsecond third hthird hbefore hafter
    rcases h with hpresent | hsame
    · obtain ⟨low, hlow⟩ := Option.ne_none_iff_exists'.mp (hpresent first hfirst)
      obtain ⟨middle, hmiddle⟩ := Option.ne_none_iff_exists'.mp (hpresent second hsecond)
      obtain ⟨high, hhigh⟩ := Option.ne_none_iff_exists'.mp (hpresent third hthird)
      rw [hlow, hmiddle, difference, compare_le_iff_le] at hbefore
      rw [hmiddle, hhigh, difference, compare_le_iff_le] at hafter
      rw [hlow, hhigh, difference, compare_le_iff_le]
      exact hbefore.trans hafter
    · cases hlow : number first with
      | none => simp [difference]
      | some low =>
        cases hhigh : number third with
        | none => simp [difference]
        | some high =>
          rw [difference, compare_le_iff_le, hsame first hfirst third hthird low hlow high hhigh]

variable [Zero ν]

theorem compareBy_consistent_iff (sort : SortKey) (models : List (Model ν)) :
    Sorting.Consistent (compareBy engine sort) models ↔ Sortable sort models := by
  cases sort with
  | trending => exact difference_consistent_iff Model.rank models
  | downloads =>
    rw [Sortable, ← difference_consistent_iff]
    exact ⟨Sorting.Consistent.reverse, Sorting.Consistent.reverse⟩
  | likes =>
    rw [Sortable, ← difference_consistent_iff]
    exact ⟨Sorting.Consistent.reverse, Sorting.Consistent.reverse⟩
  | newest =>
    have hlocale := engine.locale (models.map fun m => m.created.getD "")
    simp only [Sortable, iff_true]
    apply Sorting.Consistent.reverse
    constructor
    · intro left hleft right hright
      exact hlocale.swap _ (List.mem_map_of_mem hleft) _ (List.mem_map_of_mem hright)
    · intro first hfirst second hsecond third hthird
      exact hlocale.trans _ (List.mem_map_of_mem hfirst) _ (List.mem_map_of_mem hsecond) _
        (List.mem_map_of_mem hthird)
  | size =>
    simp only [Sortable, iff_true]
    exact (Sorting.Consistent.of_key (fun m : Model ν => m.params.getD 0) models).reverse

theorem compareBy_swap (sort : SortKey) (left right : Model ν) :
    compareBy engine sort right left = (compareBy engine sort left right).swap := by
  cases sort with
  | trending => exact difference_swap left.rank right.rank
  | downloads => exact difference_swap right.downloads left.downloads
  | likes => exact difference_swap right.likes left.likes
  | newest =>
    have hlocale := engine.locale [right.created.getD "", left.created.getD ""]
    exact hlocale.swap (right.created.getD "") (by simp) (left.created.getD "") (by simp)
  | size => exact difference_swap (some (right.params.getD 0)) (some (left.params.getD 0))

theorem results_ordered_iff (models : List (Model ν)) (state : State π) :
    (∀ sorter, (results engine sorter models state).Pairwise fun left right =>
      compareBy engine state.sort left right ≠ .gt) ↔
        Sortable state.sort (models.filter fun m => Satisfies engine state m) := by
  rw [← compareBy_consistent_iff, ← filter_satisfies]
  exact Sorting.ordered_iff fun left _ right _ => compareBy_swap state.sort left right

end Order

section Faithful
variable {ν : Type} [LinearOrder ν] [Zero ν] {engine : Engine} {sorter : Sorting.Sorter}

/-! ## The pages -/

theorem slices_join {α : Type} (list : List α) (size pages : Nat) :
    ((List.range pages).flatMap fun i => (list.take ((i + 1) * size)).drop (i * size)) =
      list.take (pages * size) := by
  induction pages with
  | zero => simp
  | succ pages ih =>
    have hle : pages * size ≤ (pages + 1) * size := Nat.mul_le_mul_right size (Nat.le_succ pages)
    have hfront : list.take (pages * size) = (list.take ((pages + 1) * size)).take (pages * size) := by
      rw [List.take_take, Nat.min_eq_left hle]
    rw [List.range_succ, List.flatMap_append, ih, List.flatMap_singleton, hfront,
      List.take_append_drop]

theorem le_pagesOf (count : Nat) : count ≤ pagesOf count * pageSize := by
  unfold pagesOf pageSize
  omega

/-- The slices of the pages that there are. -/
def slices (engine : Engine) (sorter : Sorting.Sorter) (models : List (Model ν)) (state : State Nat)
    (order : Facet → Bool) : List (List (Model ν)) :=
  (List.range (query engine sorter models state order).pages).map fun i =>
    (query engine sorter models { state with page := i + 1 } order).slice

theorem slices_results (models : List (Model ν)) (state : State Nat) (order : Facet → Bool) :
    (slices engine sorter models state order).flatten =
      (query engine sorter models state order).results := by
  have hslice : ∀ i ∈ List.range (query engine sorter models state order).pages,
      (query engine sorter models { state with page := i + 1 } order).slice =
        ((results engine sorter models state).take ((i + 1) * pageSize)).drop (i * pageSize) := by
    intro i hi
    have hpage : min (i + 1) (pagesOf (results engine sorter models state).length) = i + 1 :=
      Nat.min_eq_left (List.mem_range.mp hi)
    have hsame : results engine sorter models { state with page := i + 1 } =
        results engine sorter models state := rfl
    simp only [query, hsame, hpage, Nat.add_sub_cancel]
  rw [slices, List.map_congr_left hslice, ← List.flatMap_def, slices_join]
  exact List.take_of_length_le (le_pagesOf _)

/-! ## The query as a whole -/

/-- What is promised of a query. -/
structure Faithful (engine : Engine) (sorter : Sorting.Sorter) (models : List (Model ν))
    (state : State Nat) (order : Facet → Bool) : Prop where
  found : (query engine sorter models state order).results.Perm
    (models.filter fun m => Satisfies engine state m)
  ordered : (query engine sorter models state order).results.Pairwise fun left right =>
    compareBy engine state.sort left right ≠ .gt
  counted : ∀ facet values, (facet, values) ∈ (query engine sorter models state order).facets →
    ∀ value n, (value, n) ∈ values →
      n = (query engine sorter models (select state facet [value]) order).results.length
  paged : (slices engine sorter models state order).flatten =
    (query engine sorter models state order).results

/-- No model has a value twice that is counted. -/
def Distinct (engine : Engine) (models : List (Model ν)) (state : State Nat) : Prop :=
  ∀ facet value, ¬ (facet = .modality ∧ value = "Other") →
    Unrepeated engine models state facet value

theorem results_perm (models : List (Model ν)) (state : State Nat) :
    (results engine sorter models state).Perm
      (models.filter fun m => matchesState engine m state none) := sorter.perm _ _

theorem mem_facets {models : List (Model ν)} {state : State Nat} {order : Facet → Bool}
    {facet : Facet} {values : List (String × Nat)}
    (h : (facet, values) ∈ (query engine sorter models state order).facets) :
    values = facetValues engine sorter models state order facet := by
  obtain ⟨_, _, heq⟩ := List.mem_map.mp h
  cases heq
  rfl

theorem counted_iff (models : List (Model ν)) (state : State Nat) (order : Facet → Bool) :
    (∀ facet values, (facet, values) ∈ (query engine sorter models state order).facets →
      ∀ value n, (value, n) ∈ values →
        n = (query engine sorter models (select state facet [value]) order).results.length) ↔
      Distinct engine models state := by
  have hlength (facet : Facet) (value : String) :
      (query engine sorter models (select state facet [value]) order).results.length =
        (models.filter fun m => matchesState engine m (select state facet [value]) none).length :=
    (results_perm models _).length_eq
  constructor
  · intro hcounted facet value hvalue m hm hmatch
    by_contra hmore
    have hpos := tally_pos hvalue hm hmatch (by omega)
    obtain ⟨n, hn, hentry⟩ := mem_facetCounts hpos
    have hequal := hcounted facet _ (List.mem_map.mpr ⟨facet, Facet.mem_all facet, rfl⟩) value n
      (mem_facetValues.mpr ⟨hentry, .inl hn⟩)
    rw [hlength, entry_iff hentry] at hequal
    exact hmore (hequal m hm hmatch)
  · intro hdistinct facet values hvalues value n hmem
    rw [mem_facets hvalues] at hmem
    obtain ⟨hentry, -⟩ := mem_facetValues.mp hmem
    rw [hlength, entry_iff hentry]
    have hkept := @facetCounts_wellKept _ _ engine models state facet
    refine hdistinct facet value ?_
    rintro ⟨hfacet, rfl⟩
    exact hkept.counted hfacet (List.mem_map.mpr ⟨_, hentry, rfl⟩)

/-- However it is sorted, a query keeps what is promised just where what it finds has the numbers
it is sorted by, and no model has a value twice. -/
theorem query_faithful_iff (models : List (Model ν)) (state : State Nat) (order : Facet → Bool) :
    (∀ sorter, Faithful engine sorter models state order) ↔
      Sortable state.sort (models.filter fun m => Satisfies engine state m) ∧
        Distinct engine models state := by
  constructor
  · intro hfaithful
    refine ⟨(results_ordered_iff models state).mp fun sorter => (hfaithful sorter).ordered, ?_⟩
    exact (counted_iff models state order).mp (hfaithful .insertion).counted
  · rintro ⟨hsortable, hdistinct⟩ sorter
    refine ⟨?_, (results_ordered_iff models state).mpr hsortable sorter,
      (counted_iff models state order).mpr hdistinct, slices_results models state order⟩
    rw [← filter_satisfies]
    exact results_perm models state

end Faithful

/-- A model with a language that is given twice. -/
def english : Model Nat where
  id := "org/model"
  state := some "addressed"
  fields facet := if facet = .languages then .many ["en", "en"] else .missing
  rank := some 1
  downloads := some 0
  likes := some 0
  params := none
  created := none

/-- The page as it is opened. -/
def opened : State Nat where
  q := ""
  sort := .trending
  page := 1
  tab := .main
  f _ := []

theorem english_counted_twice : ¬ Faithful .codePoints .insertion
    (prepare .codePoints "2025-01-01" [english]) opened (fun _ => false) := by
  intro h
  have hequal := h.counted .languages _ (List.mem_map.mpr ⟨.languages, Facet.mem_all _, rfl⟩) "en" 2
    (by decide)
  revert hequal
  decide

end HologramLive.Browse
