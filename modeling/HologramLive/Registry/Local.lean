import HologramLive.Lib.Paging
import HologramLive.Store

namespace HologramLive.Registry.Local
open Lib.Paging

/-- The built-in provider: content lives in the local store. -/
structure LocalRegistryProvider where
  store : ObjectStore

def byId (left right : ObjectMetadata) : Prop := left.id ≤ right.id

instance : DecidableRel byId := fun left right => inferInstanceAs (Decidable (left.id ≤ right.id))

/-- The page loop over the id-ordered records. The flag stays true when the
records run out before a match beyond the limit is seen. -/
def scan (query : ObjectQuery) : List ObjectMetadata → List ObjectMetadata →
    List ObjectMetadata × Bool
  | [], objects => (objects, true)
  | metadata :: rest, objects =>
    if query.cursor.any fun cursor => metadata.id ≤ cursor then scan query rest objects
    else if !query.matches metadata then scan query rest objects
    else if objects.length = query.effectiveLimit then (objects, false)
    else scan query rest (objects ++ [metadata])

def LocalRegistryProvider.search (provider : LocalRegistryProvider) (query : ObjectQuery) :
    Except LiveError ObjectPage :=
  let all := (provider.store.list none).insertionSort byId
  let (objects, exhausted) := scan query all []
  let nextCursor := if exhausted then none else objects.getLast?.map (·.id)
  .ok { objects, nextCursor, truncated := false }

/-- Re-issue a query with each returned cursor. -/
def searchAll (provider : LocalRegistryProvider) (query : ObjectQuery) (fuel : Nat) :
    Except LiveError (Option (List ObjectPage)) :=
  walk (fun cursor => provider.search { query with cursor }) ObjectPage.nextCursor fuel none

/-- What the walk is meant to deliver: the matching records in id order. -/
def results (provider : LocalRegistryProvider) (query : ObjectQuery) : List ObjectMetadata :=
  ((provider.store.list none).insertionSort byId).filter query.matches

theorem mem_results {provider : LocalRegistryProvider} :
    metadata ∈ results provider query ↔
      metadata ∈ provider.store.records.map Prod.snd ∧ query.matches metadata = true := by
  simp only [results, List.mem_filter, List.mem_insertionSort, ObjectStore.mem_list_all]

theorem results_ascending {provider : LocalRegistryProvider}
    (hids : (provider.store.records.map fun record => record.2.id).Nodup) (query : ObjectQuery) :
    Ascending ObjectMetadata.id (results provider query) := by
  apply Ascending.filter
  have : Std.Total byId := ⟨fun a b => le_total a.id b.id⟩
  have : IsTrans ObjectMetadata byId := ⟨fun _ _ _ => le_trans⟩
  have hsorted := List.pairwise_insertionSort byId (provider.store.list none)
  have hperm : (((provider.store.list none).insertionSort byId).map (·.id)).Perm
      (provider.store.records.map fun record => record.2.id) := by
    have h := (List.perm_insertionSort byId (provider.store.list none)).map (·.id)
    have h' := (List.perm_insertionSort ObjectStore.newestFirst
      (provider.store.records.map Prod.snd)).map (·.id)
    simp only [ObjectStore.list, Option.all_none, List.filter_true, List.map_map] at h h' ⊢
    exact h.trans h'
  have hnodup := List.pairwise_map.mp (hperm.nodup_iff.mpr hids)
  exact (hsorted.and hnodup).imp fun h => lt_of_le_of_ne h.1 h.2

/-- The matches a query still has to deliver after its cursor. -/
def remaining (query : ObjectQuery) (records : List ObjectMetadata) : List ObjectMetadata :=
  beyond ObjectMetadata.id query.cursor (records.filter query.matches)

theorem remaining_skip (query : ObjectQuery) (rest : List ObjectMetadata)
    (h : query.matches metadata = false) : remaining query (metadata :: rest) = remaining query rest := by
  simp [remaining, h]

theorem remaining_passed {query : ObjectQuery} (rest : List ObjectMetadata)
    (hc : query.cursor = some cursor) (h : metadata.id ≤ cursor) :
    remaining query (metadata :: rest) = remaining query rest := by
  cases hm : query.matches metadata with
  | false => exact remaining_skip query rest hm
  | true =>
    simp only [remaining, hc, List.filter_cons_of_pos hm]
    exact beyond_cons_passed h _

theorem remaining_take {query : ObjectQuery} (rest : List ObjectMetadata)
    (h : query.matches metadata = true)
    (hc : ∀ cursor, query.cursor = some cursor → cursor < metadata.id) :
    remaining query (metadata :: rest) = metadata :: remaining query rest := by
  simp only [remaining, List.filter_cons_of_pos h]
  exact beyond_cons_ahead hc _

/-- The loop delivers the remaining matches up to the limit and reports whether
that was all of them. -/
theorem scan_eq (query : ObjectQuery) (records objects : List ObjectMetadata)
    (hfit : objects.length ≤ query.effectiveLimit) :
    scan query records objects =
      (objects ++ (remaining query records).take (query.effectiveLimit - objects.length),
        decide (objects.length + (remaining query records).length ≤ query.effectiveLimit)) := by
  induction records generalizing objects with
  | nil => simp [scan, remaining, beyond, hfit]
  | cons metadata rest ih =>
    rw [scan]
    split
    · rename_i hpassed
      obtain ⟨cursor, hc, hle⟩ := (Option.any_eq_true _ _).mp hpassed
      rw [remaining_passed rest hc (of_decide_eq_true hle)]
      exact ih objects hfit
    · rename_i hahead
      split
      · rename_i hskip
        rw [remaining_skip query rest (by simpa using hskip)]
        exact ih objects hfit
      · rename_i hmatch
        rw [remaining_take rest (by simpa using hmatch) (by
          intro cursor hc
          simpa [hc] using hahead)]
        split
        · rename_i hfull
          simp [hfull]
        · have hlength : (objects ++ [metadata]).length = objects.length + 1 := by simp
          have hroom : query.effectiveLimit - objects.length =
              query.effectiveLimit - (objects.length + 1) + 1 := by omega
          rw [ih _ (by omega), hlength, hroom]
          simp only [List.append_assoc, List.singleton_append, List.length_cons,
            List.take_succ_cons, Prod.mk.injEq, decide_eq_decide, true_and]
          omega

/-- A page as the remaining results decide it. The cursor a query carries plays
no part in what matches or in the limit. -/
def pageAfter (provider : LocalRegistryProvider) (query : ObjectQuery) (after : Option String) :
    ObjectPage :=
  let rest := beyond ObjectMetadata.id after (results provider query)
  { objects := rest.take query.effectiveLimit
    nextCursor :=
      if rest.length ≤ query.effectiveLimit then none
      else (rest.take query.effectiveLimit).getLast?.map (·.id)
    truncated := false }

theorem search_eq (provider : LocalRegistryProvider) (query : ObjectQuery) :
    provider.search query = .ok (pageAfter provider query query.cursor) := by
  simp only [LocalRegistryProvider.search, scan_eq query _ [] (Nat.zero_le _)]
  simp only [remaining, results, pageAfter, List.nil_append, List.length_nil, Nat.sub_zero,
    Nat.zero_add, decide_eq_true_eq]
  congr

theorem search_at (provider : LocalRegistryProvider) (query : ObjectQuery)
    (after : Option String) :
    provider.search { query with cursor := after } = .ok (pageAfter provider query after) :=
  search_eq provider { query with cursor := after }

theorem pageAfter_fits (provider : LocalRegistryProvider) (query : ObjectQuery)
    (after : Option String) :
    (pageAfter provider query after).objects.length ≤ query.effectiveLimit :=
  List.length_take_le _ _

theorem pageAfter_fills {provider : LocalRegistryProvider}
    (hn : (pageAfter provider query after).nextCursor = some next) :
    (pageAfter provider query after).objects.length = query.effectiveLimit := by
  simp only [pageAfter] at hn ⊢
  split at hn
  · cases hn
  · rw [List.length_take]
    omega

theorem pageAfter_faithful {provider : LocalRegistryProvider}
    (hids : (provider.store.records.map fun record => record.2.id).Nodup)
    (query : ObjectQuery) (after : Option String) :
    Faithful (fun cursor => beyond ObjectMetadata.id cursor (results provider query))
      ObjectPage.objects ObjectPage.nextCursor after (pageAfter provider query after) := by
  refine ⟨?_, ?_⟩
  · intro hlast
    simp only [pageAfter] at hlast ⊢
    split at hlast
    · rename_i hfit
      exact List.take_of_length_le hfit
    · rename_i hover
      have hpos := query.effectiveLimit_pos
      simp only [Option.map_eq_none_iff, List.getLast?_eq_none_iff, List.take_eq_nil_iff] at hlast
      rcases hlast with hzero | hnil
      · omega
      · simp [hnil] at hover
  · intro cursor hmore
    simp only [pageAfter] at hmore ⊢
    split at hmore
    · cases hmore
    · obtain ⟨x, hx, rfl⟩ := Option.map_eq_some_iff.mp hmore
      refine ⟨by intro hnil; simp [hnil] at hx, ?_⟩
      have hsplit := (List.take_append_drop query.effectiveLimit
        (beyond ObjectMetadata.id after (results provider query))).symm
      exact hsplit.trans (congrArg _
        (beyond_resume (results_ascending hids query) hsplit hx).symm)

/-- Local pagination delivers exactly the matching records, each once, in
ascending id order; every page respects the limit and only the last may be
short, so an exact multiple of the limit ends without a further cursor. -/
theorem local_search_paginates (provider : LocalRegistryProvider)
    (hids : (provider.store.records.map fun record => record.2.id).Nodup) (query : ObjectQuery)
    (fuel : Nat) (hfuel : provider.store.records.length < fuel) :
    ∃ pages, searchAll provider query fuel = .ok (some pages) ∧
      Ascending ObjectMetadata.id (pages.flatMap ObjectPage.objects) ∧
      (∀ metadata, metadata ∈ pages.flatMap ObjectPage.objects ↔
        metadata ∈ provider.store.records.map Prod.snd ∧ query.matches metadata = true) ∧
      (∀ page ∈ pages, page.objects.length ≤ query.effectiveLimit) ∧
      (∀ page ∈ pages.dropLast, page.objects.length = query.effectiveLimit) ∧
      (∀ page ∈ pages.getLast?, page.nextCursor = none) := by
  have hlength : (results provider query).length ≤ provider.store.records.length := by
    have := List.length_filter_le query.matches ((provider.store.list none).insertionSort byId)
    have := List.length_filter_le (fun _ => true) (provider.store.records.map Prod.snd)
    simp only [results, ObjectStore.list, Option.all_none, List.length_insertionSort,
      List.length_map] at *
    omega
  obtain ⟨pages, hwalk, hitems⟩ : ∃ pages, searchAll provider query fuel = .ok (some pages) ∧
      pages.flatMap ObjectPage.objects =
        beyond ObjectMetadata.id none (results provider query) := by
    refine walk_complete (fun cursor => beyond ObjectMetadata.id cursor (results provider query))
      (fun _ => True) (fun after _ => ?_) trivial ?_
    · exact ⟨_, search_at provider query after, pageAfter_faithful hids query after,
        fun _ _ => trivial⟩
    · rw [beyond_none]
      omega
  rw [beyond_none] at hitems
  have hpages : ∀ page ∈ pages, ∃ after, page = pageAfter provider query after := by
    intro page hp
    obtain ⟨after, _, hfetch⟩ :=
      walk_fetched (fun _ => True) (fun _ _ _ _ _ _ => trivial) trivial hwalk page hp
    rw [search_at] at hfetch
    exact ⟨after, (Except.ok.inj hfetch).symm⟩
  refine ⟨pages, hwalk, ?_, ?_, ?_, ?_, walk_final hwalk⟩
  · rw [hitems]
    exact results_ascending hids query
  · intro metadata
    rw [hitems]
    exact mem_results
  · intro page hp
    obtain ⟨after, rfl⟩ := hpages page hp
    exact pageAfter_fits provider query after
  · intro page hp
    obtain ⟨after, rfl⟩ := hpages page (List.mem_of_mem_dropLast hp)
    obtain ⟨next, hn⟩ := walk_nonfinal hwalk _ hp
    exact pageAfter_fills hn

/-- Three records, two of them matching and one match to a page. -/
def sampleStore : ObjectStore where
  records :=
    [("b", ⟨"blake3:b", "blob", "text/plain", some "b.txt", 2, 20⟩),
      ("c", ⟨"blake3:c", "blob", "text/plain", none, 3, 30⟩),
      ("a", ⟨"blake3:a", "note", "text/plain", none, 1, 10⟩)]

theorem local_search_paginates_sample :
    ∃ pages, searchAll ⟨sampleStore⟩ { kind := some "blob", limit := 1 } 4 = .ok (some pages) ∧
      Ascending ObjectMetadata.id (pages.flatMap ObjectPage.objects) ∧
      (∀ metadata, metadata ∈ pages.flatMap ObjectPage.objects ↔
        metadata ∈ sampleStore.records.map Prod.snd ∧
          ObjectQuery.matches { kind := some "blob", limit := 1 } metadata = true) ∧
      (∀ page ∈ pages, page.objects.length ≤ 1) ∧
      (∀ page ∈ pages.dropLast, page.objects.length = 1) ∧
      (∀ page ∈ pages.getLast?, page.nextCursor = none) :=
  local_search_paginates ⟨sampleStore⟩ (by decide) { kind := some "blob", limit := 1 } 4 (by decide)

end HologramLive.Registry.Local
