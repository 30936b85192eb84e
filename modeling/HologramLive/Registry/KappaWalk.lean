import HologramLive.Registry.KappaScan

namespace HologramLive.Registry.KappaWalk
open Lib.Paging Lib.Result KappaClient Kappa KappaScan

/-- The tags a query still has ahead of a cursor. -/
def ahead (ns : Namespace) (after : Option String) : List Entry :=
  beyond Prod.fst (after.map tagFor) ns.entries

/-- The matches a query still has to deliver after a cursor. -/
def remaining (ns : Namespace) (query : ObjectQuery) (after : Option String) :
    List ObjectMetadata :=
  hits query (ahead ns after)

/-- The tags one call reads. -/
def window (provider : KappaRegistryProvider) : Nat :=
  provider.maxScanPages * ObjectQuery.maxLimit

def pageAfter (provider : KappaRegistryProvider) (ns : Namespace) (query : ObjectQuery)
    (after : Option String) : ObjectPage :=
  pageOf query [] provider.maxScanPages (ahead ns after)

/-- A full window of tags follows the cursor and none of them is a match. -/
def Stalled (provider : KappaRegistryProvider) (ns : Namespace) (query : ObjectQuery)
    (after : Option String) : Prop :=
  window provider ≤ (ahead ns after).length ∧
    hits query ((ahead ns after).take (window provider)) = []

theorem search_eq {provider : KappaRegistryProvider} {ns : Namespace}
    (hserves : Serves provider ns) (query : ObjectQuery) (after : Option String)
    (hcache : Mirrors ns cache) :
    ∃ cache', provider.search { query with cursor := after } cache =
      .ok (pageAfter provider ns query after, cache') ∧ Mirrors ns cache' := by
  obtain ⟨cache', hcache', h⟩ := scanPages_eq hserves hcache { query with cursor := after }
    provider.maxScanPages (after.map tagFor) [] (Nat.zero_le _)
  exact ⟨cache', h, hcache'⟩

theorem lastId_concat (objects : List ObjectMetadata) (metadata : ObjectMetadata) :
    KappaRegistryProvider.lastId (objects ++ [metadata]) = some metadata.id := by
  simp [KappaRegistryProvider.lastId]

/-- A delivered match is a cursor that leaves exactly the matches after it. -/
theorem remaining_resume {ns : Namespace}
    (h : remaining ns query after = front ++ metadata :: back) :
    ∃ before tag after', ahead ns after = before ++ (tag, some metadata) :: after' ∧
      hits query before = front ∧ hits query after' = back ∧
      ahead ns (some metadata.id) = after' := by
  obtain ⟨before, rest, hsplit, hbefore, hrest⟩ := List.filterMap_eq_append_iff.mp h
  obtain ⟨skipped, entry, after', rfl, hskipped, hentry, hafter⟩ := List.filterMap_eq_cons_iff.mp hrest
  obtain ⟨tag, found⟩ := entry
  obtain ⟨hfound, _⟩ := Option.filter_eq_some_iff.mp hentry
  dsimp only at hfound
  subst hfound
  have hmem : (tag, some metadata) ∈ ns.entries := by
    have : (tag, some metadata) ∈ ahead ns after := by simp [hsplit]
    exact (mem_beyond.mp this).1
  have htag : tagFor metadata.id = tag := tagFor_kappaFor (ns.ours _ hmem)
  have hnone : hits query skipped = [] := List.filterMap_eq_nil_iff.mpr hskipped
  refine ⟨before ++ skipped, tag, after', by simp [hsplit], ?_, hafter, ?_⟩
  · rw [hits_append, hnone, List.append_nil]
    exact hbefore
  · have hahead : beyond Prod.fst (after.map tagFor) ns.entries =
        (before ++ skipped ++ [(tag, some metadata)]) ++ after' := by
      simpa [ahead] using hsplit
    have hresume := beyond_resume ns.ascending hahead List.getLast?_concat
    simpa only [ahead, Option.map_some, htag] using hresume

theorem remaining_after {ns : Namespace}
    (h : remaining ns query after = front ++ metadata :: back) :
    remaining ns query (some metadata.id) = back := by
  obtain ⟨_, _, _, _, _, hback, hahead⟩ := remaining_resume h
  rw [remaining, hahead, hback]

/-- The three ways a page ends. -/
theorem pageAfter_cases (provider : KappaRegistryProvider) (ns : Namespace) (query : ObjectQuery)
    (after : Option String) :
    ∃ found back, remaining ns query after = found ++ back ∧
      hits query ((ahead ns after).take (window provider)) = found ∧
      ((∃ init, ∃ metadata : ObjectMetadata, ∃ rest, found = init ++ metadata :: rest ∧
          pageAfter provider ns query after = ⟨init ++ [metadata], some metadata.id, false⟩) ∨
        (window provider ≤ (ahead ns after).length ∧
          pageAfter provider ns query after =
            ⟨found, KappaRegistryProvider.lastId found, true⟩) ∨
        ((ahead ns after).length < window provider ∧ back = [] ∧
          pageAfter provider ns query after = ⟨found, none, false⟩)) := by
  refine ⟨hits query ((ahead ns after).take (window provider)),
    hits query ((ahead ns after).drop (window provider)), ?_, rfl, ?_⟩
  · rw [remaining, ← hits_append, List.take_append_drop]
  · generalize hfound : hits query ((ahead ns after).take (window provider)) = found
    have hpage : pageAfter provider ns query after =
        if query.effectiveLimit < found.length then
          ⟨found.take query.effectiveLimit,
            KappaRegistryProvider.lastId (found.take query.effectiveLimit), false⟩
        else if window provider ≤ (ahead ns after).length then
          ⟨found, KappaRegistryProvider.lastId found, true⟩
        else ⟨found, none, false⟩ := by
      simp only [pageAfter, pageOf, List.nil_append, ← hfound, window]
    rw [hpage]
    by_cases hover : query.effectiveLimit < found.length
    · left
      have hpos := query.effectiveLimit_pos
      have hne : found.take query.effectiveLimit ≠ [] := by
        intro hnil
        have := congrArg List.length hnil
        simp only [List.length_take, List.length_nil] at this
        omega
      refine ⟨(found.take query.effectiveLimit).dropLast,
        (found.take query.effectiveLimit).getLast hne, found.drop query.effectiveLimit, ?_, ?_⟩
      · rw [List.append_cons, List.dropLast_concat_getLast, List.take_append_drop]
      · rw [if_pos hover, KappaRegistryProvider.lastId, List.getLast?_eq_some_getLast hne,
          List.dropLast_concat_getLast, Option.map_some]
    · rw [if_neg hover]
      by_cases hwindow : window provider ≤ (ahead ns after).length
      · exact .inr (.inl ⟨hwindow, if_pos hwindow⟩)
      · refine .inr (.inr ⟨not_le.mp hwindow, ?_, if_neg hwindow⟩)
        rw [List.drop_of_length_le (by omega)]
        rfl

theorem pageAfter_faithful {provider : KappaRegistryProvider} {ns : Namespace}
    (h : ¬Stalled provider ns query after) :
    Faithful (remaining ns query) ObjectPage.objects ObjectPage.nextCursor after
      (pageAfter provider ns query after) := by
  obtain ⟨found, back, hremaining, hfound, hcases⟩ := pageAfter_cases provider ns query after
  rcases hcases with ⟨init, metadata, rest, rfl, hpage⟩ | ⟨hwindow, hpage⟩ | ⟨_, rfl, hpage⟩
  · rw [hpage]
    refine ⟨by simp, fun cursor hmore => ⟨by simp, ?_⟩⟩
    cases hmore
    have hsplit : remaining ns query after = init ++ metadata :: (rest ++ back) := by
      simpa using hremaining
    rw [remaining_after hsplit, hsplit]
    simp
  · have hne : found ≠ [] := fun hnil => h ⟨hwindow, hfound.trans hnil⟩
    obtain ⟨init, metadata, rfl⟩ := List.eq_nil_or_concat' found |>.resolve_left hne
    rw [hpage, lastId_concat]
    refine ⟨by simp, fun cursor hmore => ⟨by simp, ?_⟩⟩
    cases hmore
    have hsplit : remaining ns query after = init ++ metadata :: back := by
      simpa using hremaining
    rw [remaining_after hsplit, hsplit]
    simp
  · rw [hpage]
    exact ⟨fun _ => by simpa using hremaining.symm, by simp⟩

/-- A page fetched before a stalled position does not pass it: it stalls itself,
or its cursor is a match at or before that position. -/
theorem page_before_stall {provider : KappaRegistryProvider} {ns : Namespace}
    {metadata : ObjectMetadata}
    (hremaining : remaining ns query after = front ++ metadata :: back)
    (hstalled : Stalled provider ns query (some metadata.id)) :
    ((pageAfter provider ns query after).truncated = true ∧
        (pageAfter provider ns query after).nextCursor = none) ∨
      ∃ next, (pageAfter provider ns query after).nextCursor = some next ∧
        (next = metadata.id ∨
          ∃ between, remaining ns query (some next) = between ++ metadata :: back) := by
  obtain ⟨before, tag, after', hahead, hbefore, _, hrest⟩ := remaining_resume hremaining
  obtain ⟨hwindow, hempty⟩ := hstalled
  rw [hrest] at hwindow hempty
  -- Everything one call reads from here lies within the stalled window.
  have hreach : window provider ≤ (ahead ns after).length := by
    rw [hahead, List.length_append, List.length_cons]
    omega
  have hwithin : hits query ((ahead ns after).take (window provider)) <+: front ++ [metadata] := by
    have hextend : (ahead ns after).take (before.length + (window provider + 1)) =
        before ++ (tag, some metadata) :: after'.take (window provider) := by
      rw [hahead, List.take_length_add_append, List.take_succ_cons]
    have hstarts : (ahead ns after).take (window provider) <+:
        (ahead ns after).take (before.length + (window provider + 1)) :=
      List.take_prefix_take_left (by omega)
    rw [hextend] at hstarts
    have hhits : hits query (before ++ (tag, some metadata) :: after'.take (window provider)) =
        front ++ [metadata] := by
      have hmatch : query.matches metadata = true := by
        have : metadata ∈ remaining ns query after := by simp [hremaining]
        exact (mem_hits.mp this).2
      rw [hits_append, hbefore]
      simpa [hits, Option.filter, hmatch] using hempty
    exact hhits ▸ hstarts.filterMap _
  have hadvance : ∀ init (last : ObjectMetadata) rest, front ++ [metadata] = init ++ last :: rest →
      last.id = metadata.id ∨
        ∃ between, remaining ns query (some last.id) = between ++ metadata :: back := by
    intro init last rest hsplit
    rcases List.eq_nil_or_concat' rest with rfl | ⟨between, final, rfl⟩
    · have := List.append_inj_right' hsplit rfl
      simp only [List.cons.injEq, and_true] at this
      exact .inl (by rw [this])
    · rw [← List.cons_append, ← List.append_assoc] at hsplit
      obtain ⟨hfront, hfinal⟩ := List.append_inj' hsplit rfl
      obtain rfl := (List.cons.inj hfinal).1
      have hlast : remaining ns query after = init ++ last :: (between ++ metadata :: back) := by
        rw [hremaining, hfront]
        simp
      exact .inr ⟨between, remaining_after hlast⟩
  obtain ⟨found, rest, _, hfound, hcases⟩ := pageAfter_cases provider ns query after
  rw [hfound] at hwithin
  obtain ⟨beyond, hbeyond⟩ := hwithin
  rcases hcases with ⟨init, last, further, rfl, hpage⟩ | ⟨_, hpage⟩ | ⟨hshort, _⟩
  · rw [hpage]
    exact .inr ⟨last.id, rfl, hadvance init last (further ++ beyond) (by simp [← hbeyond])⟩
  · rw [hpage]
    rcases List.eq_nil_or_concat' found with rfl | ⟨init, last, rfl⟩
    · exact .inl ⟨rfl, rfl⟩
    · exact .inr ⟨last.id, lastId_concat init last, hadvance init last beyond (by simp [← hbeyond])⟩
  · omega

/-- Re-issue a query with each returned cursor, from the one it carries. -/
def searchAll (provider : KappaRegistryProvider) (query : ObjectQuery) (fuel : Nat)
    (cache : Cache) :
    Except LiveError (Option (List (Option String × ObjectPage)) × Cache) :=
  visit (fun cursor cache => provider.search { query with cursor } cache) ObjectPage.nextCursor
    fuel query.cursor cache

/-- An object the namespace holds beyond a cursor. -/
def Beyond (ns : Namespace) (after : Option String) (metadata : ObjectMetadata) : Prop :=
  (∃ tag, (tag, some metadata) ∈ ns.entries) ∧ ∀ cursor, after = some cursor → cursor < metadata.id

/-- A cursor this provider could have issued: the id of an object tag. -/
def Issued (after : Option String) : Prop :=
  ∀ cursor, after = some cursor → ∃ tag, kappaFor tag = some cursor

/-- What a page owes its reader: a truncated page says where to continue, and a
page that is neither truncated nor continued left nothing behind. -/
structure Honest (ns : Namespace) (query : ObjectQuery) (after : Option String)
    (page : ObjectPage) : Prop where
  progress : page.truncated = true → ∃ next, page.nextCursor = some next ∧
    ∀ cursor, after = some cursor → cursor < next
  complete : page.nextCursor = none → page.truncated = false → ∀ metadata,
    Beyond ns after metadata → query.matches metadata = true → metadata ∈ page.objects

/-- Following the cursors ends, having delivered the matching objects beyond the
query's cursor, each once and in ascending id order, through honest pages. -/
def Delivers (provider : KappaRegistryProvider) (ns : Namespace) (query : ObjectQuery)
    (cache : Cache) : Prop :=
  ∃ fuel pages cache', searchAll provider query fuel cache = .ok (some pages, cache') ∧
    Ascending ObjectMetadata.id (pages.flatMap fun v => v.2.objects) ∧
    (∀ metadata, metadata ∈ pages.flatMap (fun v => v.2.objects) ↔
      Beyond ns query.cursor metadata ∧ query.matches metadata = true) ∧
    ∀ v ∈ pages, Honest ns query v.1 v.2

theorem mem_remaining {ns : Namespace} (hissued : Issued after) :
    metadata ∈ remaining ns query after ↔
      Beyond ns after metadata ∧ query.matches metadata = true := by
  have hmem : ∀ tag, (tag, some metadata) ∈ ahead ns after ↔
      (tag, some metadata) ∈ ns.entries ∧ ∀ cursor, after = some cursor → cursor < metadata.id := by
    intro tag
    rw [ahead, mem_beyond]
    refine and_congr_right fun htag => ?_
    have hours := ns.ours _ htag
    cases after with
    | none => simp
    | some cursor =>
      obtain ⟨tag', hcursor⟩ := hissued cursor rfl
      simp only [Option.map_some, Option.some.injEq, forall_eq', tagFor_kappaFor hcursor]
      exact kappaFor_lt hcursor hours
  rw [remaining, mem_hits]
  simp only [hmem, Beyond]
  constructor
  · rintro ⟨⟨tag, htag, hbeyond⟩, hmatch⟩
    exact ⟨⟨⟨tag, htag⟩, hbeyond⟩, hmatch⟩
  · rintro ⟨⟨⟨tag, htag⟩, hbeyond⟩, hmatch⟩
    exact ⟨⟨tag, htag, hbeyond⟩, hmatch⟩

theorem remaining_ascending (ns : Namespace) (query : ObjectQuery) (after : Option String) :
    Ascending ObjectMetadata.id (remaining ns query after) := by
  have hahead := ns.ascending.beyond (after.map tagFor)
  refine List.Pairwise.filterMap _ ?_ (List.Pairwise.and_mem.mp hahead)
  rintro ⟨tag, found⟩ ⟨tag', found'⟩ ⟨hleft, hright, hlt⟩ left hl right hr
  obtain ⟨rfl, _⟩ := Option.filter_eq_some_iff.mp hl
  obtain ⟨rfl, _⟩ := Option.filter_eq_some_iff.mp hr
  exact (kappaFor_lt (ns.ours _ (mem_beyond.mp hleft).1) (ns.ours _ (mem_beyond.mp hright).1)).mp hlt

theorem mem_remaining_issued {ns : Namespace} (h : metadata ∈ remaining ns query after) :
    Issued (some metadata.id) := by
  obtain ⟨⟨tag, htag⟩, _⟩ := mem_hits.mp h
  rintro _ ⟨⟩
  exact ⟨tag, ns.ours _ (mem_beyond.mp htag).1⟩

theorem pageAfter_stalled {provider : KappaRegistryProvider} {ns : Namespace}
    (h : Stalled provider ns query after) :
    pageAfter provider ns query after = ⟨[], none, true⟩ := by
  obtain ⟨found, back, _, hfound, hcases⟩ := pageAfter_cases provider ns query after
  obtain rfl := hfound.symm.trans h.2
  rcases hcases with ⟨init, metadata, rest, hnil, _⟩ | ⟨_, hpage⟩ | ⟨hshort, _⟩
  · simp at hnil
  · exact hpage
  · exact absurd h.1 (not_le.mpr hshort)

theorem pageAfter_next {provider : KappaRegistryProvider} {ns : Namespace}
    (h : (pageAfter provider ns query after).nextCursor = some cursor) :
    ∃ front, ∃ metadata : ObjectMetadata, ∃ back,
      remaining ns query after = front ++ metadata :: back ∧ cursor = metadata.id := by
  obtain ⟨found, back, hremaining, _, hcases⟩ := pageAfter_cases provider ns query after
  rcases hcases with ⟨init, metadata, rest, rfl, hpage⟩ | ⟨_, hpage⟩ | ⟨_, _, hpage⟩
  · rw [hpage] at h
    cases h
    exact ⟨init, metadata, rest ++ back, by simpa using hremaining, rfl⟩
  · rw [hpage] at h
    rcases List.eq_nil_or_concat' found with rfl | ⟨init, metadata, rfl⟩
    · cases h
    · rw [lastId_concat] at h
      cases h
      exact ⟨init, metadata, back, by simpa using hremaining, rfl⟩
  · rw [hpage] at h
    cases h

/-- A truncated page that does not stall carries a cursor. -/
theorem pageAfter_truncated {provider : KappaRegistryProvider} {ns : Namespace}
    (h : ¬Stalled provider ns query after)
    (ht : (pageAfter provider ns query after).truncated = true) :
    ∃ cursor, (pageAfter provider ns query after).nextCursor = some cursor := by
  obtain ⟨found, back, _, hfound, hcases⟩ := pageAfter_cases provider ns query after
  rcases hcases with ⟨_, _, _, _, hpage⟩ | ⟨hwindow, hpage⟩ | ⟨_, _, hpage⟩
  · simp [hpage] at ht
  · have hne : found ≠ [] := fun hnil => h ⟨hwindow, hfound.trans hnil⟩
    obtain ⟨init, metadata, rfl⟩ := (List.eq_nil_or_concat' found).resolve_left hne
    exact ⟨metadata.id, by rw [hpage, lastId_concat]⟩
  · simp [hpage] at ht

def fetchPure (provider : KappaRegistryProvider) (ns : Namespace) (query : ObjectQuery)
    (after : Option String) : Except LiveError (Option String × ObjectPage) :=
  .ok (after, pageAfter provider ns query after)

/-- A walk that reaches a stalled position meets a page it cannot continue from. -/
theorem walk_stalls {provider : KappaRegistryProvider} {ns : Namespace}
    (hstalled : Stalled provider ns query position)
    (hreach : position = after ∨ ∃ front, ∃ metadata : ObjectMetadata, ∃ back,
      position = some metadata.id ∧ remaining ns query after = front ++ metadata :: back)
    (h : walk (fetchPure provider ns query) (fun v => v.2.nextCursor) fuel after =
      .ok (some pages)) :
    ∃ v ∈ pages, v.2.truncated = true ∧ v.2.nextCursor = none := by
  induction fuel generalizing after pages with
  | zero => simp [walk] at h
  | succ fuel ih =>
    obtain ⟨v, hfetch, hend⟩ := walk_cases h
    obtain rfl : (after, pageAfter provider ns query after) = v := Except.ok.inj hfetch
    have hhere : (pageAfter provider ns query after).truncated = true ∧
        (pageAfter provider ns query after).nextCursor = none →
        ∃ v ∈ pages, v.2.truncated = true ∧ v.2.nextCursor = none := by
      intro hstop
      rcases hend with ⟨_, rfl⟩ | ⟨_, _, _, _, rfl⟩
      · exact ⟨_, List.mem_singleton_self _, hstop⟩
      · exact ⟨_, List.mem_cons_self, hstop⟩
    rcases hreach with rfl | ⟨front, metadata, back, rfl, hremaining⟩
    · exact hhere (by simp [pageAfter_stalled hstalled])
    · rcases page_before_stall hremaining hstalled with hstop | ⟨next, hnext, hbefore⟩
      · exact hhere hstop
      · rcases hend with ⟨hnone, _⟩ | ⟨cursor, rest, hcursor, hwalk, rfl⟩
        · exact absurd (hnone.symm.trans hnext) (by simp)
        · obtain rfl := Option.some.inj (hcursor.symm.trans hnext)
          have hreach' : some metadata.id = some cursor ∨ ∃ front, ∃ last : ObjectMetadata, ∃ back,
              some metadata.id = some last.id ∧
                remaining ns query (some cursor) = front ++ last :: back := by
            rcases hbefore with rfl | ⟨between, hrest⟩
            · exact .inl rfl
            · exact .inr ⟨between, metadata, back, rfl, hrest⟩
          obtain ⟨v, hv, hstop⟩ := ih hreach' hwalk
          exact ⟨v, List.mem_cons_of_mem _ hv, hstop⟩

/-- Neither this position nor any later match of the walk stalls. -/
structure Clear (provider : KappaRegistryProvider) (ns : Namespace) (query : ObjectQuery)
    (after : Option String) : Prop where
  issued : Issued after
  here : ¬Stalled provider ns query after
  later : ∀ metadata ∈ remaining ns query after, ¬Stalled provider ns query (some metadata.id)

theorem Clear.next {provider : KappaRegistryProvider} {ns : Namespace}
    (h : Clear provider ns query after)
    (hn : (pageAfter provider ns query after).nextCursor = some cursor) :
    Clear provider ns query (some cursor) := by
  obtain ⟨front, metadata, back, hremaining, rfl⟩ := pageAfter_next hn
  have hmem : metadata ∈ remaining ns query after := by simp [hremaining]
  refine ⟨mem_remaining_issued hmem, h.later metadata hmem, fun m hm => h.later m ?_⟩
  rw [remaining_after hremaining] at hm
  simp [hremaining, hm]

theorem Clear.honest {provider : KappaRegistryProvider} {ns : Namespace}
    (h : Clear provider ns query after) :
    Honest ns query after (pageAfter provider ns query after) := by
  refine ⟨fun ht => ?_, fun hnone _ metadata hbeyond hmatch => ?_⟩
  · obtain ⟨cursor, hcursor⟩ := pageAfter_truncated h.here ht
    obtain ⟨front, metadata, back, hremaining, rfl⟩ := pageAfter_next hcursor
    have hmem : metadata ∈ remaining ns query after := by simp [hremaining]
    exact ⟨_, hcursor, ((mem_remaining h.issued).mp hmem).1.2⟩
  · rw [(pageAfter_faithful h.here).last hnone]
    exact (mem_remaining h.issued).mpr ⟨hbeyond, hmatch⟩

theorem visited {provider : KappaRegistryProvider} {ns : Namespace} (query : ObjectQuery)
    (hserves : Serves provider ns) (hcache : Mirrors ns cache) (fuel : Nat) :
    ∃ pages cache', searchAll provider query fuel cache = .ok (pages, cache') ∧
      walk (fetchPure provider ns query) (fun v => v.2.nextCursor) fuel query.cursor = .ok pages := by
  obtain ⟨pages, cache', hvisit, _, hwalk⟩ := visit_eq ObjectPage.nextCursor (Mirrors ns)
    (pageAfter provider ns query) (fun after _ hcache => search_eq hserves query after hcache)
    hcache fuel query.cursor
  exact ⟨pages, cache', hvisit, hwalk⟩

/-- A walk that delivers never reaches a stalled position. -/
theorem Delivers.clear {provider : KappaRegistryProvider} {ns : Namespace}
    (h : Delivers provider ns query cache) (hserves : Serves provider ns)
    (hcache : Mirrors ns cache)
    (hreach : position = query.cursor ∨ ∃ front, ∃ metadata : ObjectMetadata, ∃ back,
      position = some metadata.id ∧ remaining ns query query.cursor = front ++ metadata :: back) :
    ¬Stalled provider ns query position := by
  intro hstalled
  obtain ⟨fuel, pages, cache', hall, _, _, hhonest⟩ := h
  obtain ⟨found, state', hfound, hwalk⟩ := visited query hserves hcache fuel
  obtain rfl : found = some pages := by
    have := hfound.symm.trans hall
    simp only [Except.ok.injEq, Prod.mk.injEq] at this
    exact this.1
  obtain ⟨v, hv, ht, hn⟩ := walk_stalls hstalled hreach hwalk
  obtain ⟨next, hnext, _⟩ := (hhonest v hv).progress ht
  exact absurd (hn.symm.trans hnext) (by simp)

theorem Clear.delivers {provider : KappaRegistryProvider} {ns : Namespace}
    (h : Clear provider ns query query.cursor) (hserves : Serves provider ns)
    (hcache : Mirrors ns cache) : Delivers provider ns query cache := by
  obtain ⟨pages, hwalk, hitems⟩ : ∃ pages,
      walk (fetchPure provider ns query) (fun v => v.2.nextCursor)
        ((remaining ns query query.cursor).length + 1) query.cursor = .ok (some pages) ∧
      pages.flatMap (fun v => v.2.objects) = remaining ns query query.cursor := by
    refine walk_complete (remaining ns query) (Clear provider ns query) (fun after hclear => ?_)
      h (Nat.lt_succ_self _)
    have hfaith := pageAfter_faithful hclear.here
    exact ⟨_, rfl, ⟨hfaith.last, hfaith.more⟩, fun cursor hn => hclear.next hn⟩
  obtain ⟨found, cache', hfound, hsame⟩ :=
    visited query hserves hcache ((remaining ns query query.cursor).length + 1)
  obtain rfl : found = some pages := Except.ok.inj (hsame.symm.trans hwalk)
  refine ⟨_, pages, cache', hfound, ?_, fun metadata => ?_, fun v hv => ?_⟩
  · rw [hitems]
    exact remaining_ascending ns query query.cursor
  · rw [hitems]
    exact mem_remaining h.issued
  · obtain ⟨after, hclear, hfetch⟩ := walk_fetched (Clear provider ns query)
      (fun after v hclear hfetch cursor hn => by
        obtain rfl : (after, pageAfter provider ns query after) = v := Except.ok.inj hfetch
        exact hclear.next hn) h hwalk v hv
    obtain rfl : (after, pageAfter provider ns query after) = v := Except.ok.inj hfetch
    exact hclear.honest

/-- Remote search delivers everything exactly when no full scan window that
starts at the query's cursor, or right after a match beyond it, lacks a match. -/
theorem remote_search_delivers (provider : KappaRegistryProvider) (ns : Namespace)
    (hserves : Serves provider ns) (query : ObjectQuery) (hissued : Issued query.cursor)
    (cache : Cache) (hcache : Coherent ns cache) :
    Delivers provider ns query cache ↔
      ¬Stalled provider ns query query.cursor ∧
      ∀ metadata, Beyond ns query.cursor metadata → query.matches metadata = true →
        ¬Stalled provider ns query (some metadata.id) := by
  constructor
  · intro h
    refine ⟨h.clear hserves hcache.mirrors (.inl rfl), fun metadata hbeyond hmatch => ?_⟩
    have hmem := (mem_remaining hissued).mpr ⟨hbeyond, hmatch⟩
    obtain ⟨front, back, hsplit⟩ := List.append_of_mem hmem
    exact h.clear hserves hcache.mirrors (.inr ⟨front, metadata, back, rfl, hsplit⟩)
  · rintro ⟨hhere, hlater⟩
    have hclear : Clear provider ns query query.cursor := by
      refine ⟨hissued, hhere, fun metadata hmem => ?_⟩
      obtain ⟨hbeyond, hmatch⟩ := (mem_remaining hissued).mp hmem
      exact hlater metadata hbeyond hmatch
    exact hclear.delivers hserves hcache.mirrors

/-- A registry that answers from a namespace. -/
def registryOf (ns : Namespace) (codec : JsonCodec) : Transport where
  tagsList := fun n last =>
    .answer ⟨200, "200 OK"⟩ "" (.ok (((beyond Prod.fst last ns.entries).take n).map Prod.fst))
  manifest := fun tag =>
    match ns.entries.lookup tag with
    | some (some metadata) => .answer ⟨200, "200 OK"⟩ "" (.ok (encodeManifest codec metadata))
    | _ => .answer ⟨notFound, "404 Not Found"⟩ "" (.error "no manifest")

theorem registryOf_serves (ns : Namespace) (codec : JsonCodec) (clock : Nat → Nat) (pages : Nat)
    (hcodec : ∀ tag metadata, (tag, some metadata) ∈ ns.entries →
      codec.Keeps (manifestDocument metadata)) :
    Serves ⟨registryOf ns codec, codec, clock, pages⟩ ns := by
  refine ⟨fun last => ⟨_, _, _, rfl, .inl ⟨⟨by decide, by decide⟩, rfl⟩⟩, ?_, hcodec⟩
  intro tag metadata h
  refine ⟨⟨200, "200 OK"⟩, "", ⟨by decide, by decide⟩, ?_⟩
  obtain ⟨before, after, hsplit⟩ := List.append_of_mem h
  have hlookup : ns.entries.lookup tag = some (some metadata) := by
    refine List.lookup_eq_some_iff.mpr ⟨before, after, hsplit, fun entry hentry => ?_⟩
    have hascending := ns.ascending
    rw [hsplit, Ascending, List.pairwise_append] at hascending
    have hlt := hascending.2.2 entry hentry (tag, some metadata) List.mem_cons_self
    simpa using (ne_of_lt hlt).symm
  simp [registryOf, hlookup]

def objectTag : String :=
  "blake3_0000000000000000000000000000000000000000000000000000000000000000"

def sampleObject : ObjectMetadata where
  id := "blake3:0000000000000000000000000000000000000000000000000000000000000000"
  kind := "file"
  mediaType := "text/plain"
  filename := none
  size := 3
  createdAtMillis := 7

def sampleText : Bytes :=
  ("\x7b\"annotations\":\x7b\"dev.hologram.created-at-millis\":\"7\"," ++
    "\"dev.hologram.kind\":\"file\"\x7d," ++
    "\"artifactType\":\"application/vnd.hologram.object.v1+json\"," ++
    "\"config\":\x7b\"digest\":\"" ++ sampleObject.id ++
    "\",\"mediaType\":\"application/vnd.oci.empty.v1+json\",\"size\":3\x7d," ++
    "\"layers\":[\x7b\"digest\":\"" ++ sampleObject.id ++
    "\",\"mediaType\":\"text/plain\",\"size\":3\x7d]," ++
    "\"mediaType\":\"application/vnd.oci.image.manifest.v1+json\",\"schemaVersion\":2," ++
    "\"subject\":\x7b\"digest\":\"" ++ sampleObject.id ++
    "\",\"mediaType\":\"text/plain\",\"size\":3\x7d\x7d").toByteArray.data.toList

/-- The serializer on the one document the samples hold. -/
def sampleCodec : JsonCodec where
  toVec := fun _ => sampleText
  fromSlice := fun bytes =>
    if bytes = sampleText then .ok (manifestDocument sampleObject) else .error "not the sample"

theorem sampleCodec_keeps : sampleCodec.Keeps (manifestDocument sampleObject) := by
  simp [JsonCodec.Keeps, sampleCodec]

theorem sample_keeps {entries : List Entry}
    (h : ∀ entry ∈ entries, entry.2 = none ∨ entry.2 = some sampleObject) (tag : String)
    (metadata : ObjectMetadata) (hmem : (tag, some metadata) ∈ entries) :
    sampleCodec.Keeps (manifestDocument metadata) := by
  rcases h _ hmem with hnone | hsome
  · cases hnone
  · cases hsome
    exact sampleCodec_keeps

def sampleNamespace : Namespace where
  entries := [(objectTag, some sampleObject), ("latest", none)]
  ascending := by
    rw [Ascending, List.pairwise_pair]
    decide
  ours := by
    have hobject : kappaFor objectTag = some sampleObject.id := by decide
    have hother : kappaFor "latest" = none := by decide
    simp [hobject, hother]
  wide := by
    have hwide : sampleObject.size < 2 ^ 64 ∧ sampleObject.createdAtMillis < 2 ^ 64 := by decide
    simpa using hwide

theorem remote_search_delivers_sample :
    Delivers ⟨registryOf sampleNamespace sampleCodec, sampleCodec, id, 20⟩ sampleNamespace {} {} := by
  have hobjects := sample_keeps (show ∀ entry ∈ sampleNamespace.entries, _ by
    simp [sampleNamespace])
  have hroomy : ∀ after, ¬Stalled ⟨registryOf sampleNamespace sampleCodec, sampleCodec, id, 20⟩
      sampleNamespace {} after := by
    intro after hstalled
    have hshort : (ahead sampleNamespace after).length ≤ 2 := List.length_filter_le _ _
    have := hstalled.1
    simp only [window, ObjectQuery.maxLimit] at this
    omega
  exact (remote_search_delivers _ sampleNamespace (registryOf_serves _ _ _ _ hobjects) {}
    (by simp [Issued]) {} (empty_coherent _)).mpr ⟨hroomy _, fun _ _ _ => hroomy _⟩

/-- A thousand tags that are not ours, all before the one that is. -/
def otherTags : List Entry :=
  (List.range 1000).map fun n => (String.ofList (List.replicate (n + 1) 'a'), none)

theorem otherTag_not_ours (n : Nat) : kappaFor (String.ofList (List.replicate (n + 1) 'a')) = none := by
  simp [kappaFor, digestOf, List.replicate_succ]

theorem otherTag_lt (h : n < m) :
    String.ofList (List.replicate (n + 1) 'a') < String.ofList (List.replicate (m + 1) 'a') := by
  obtain ⟨k, rfl⟩ := Nat.exists_eq_add_of_lt h
  have hsplit : List.replicate (n + k + 1 + 1) 'a' =
      List.replicate (n + 1) 'a' ++ List.replicate (k + 1) 'a' := by
    rw [List.replicate_append_replicate]
    congr 1
    omega
  rw [String.lt_iff, String.toList_ofList, String.toList_ofList, hsplit]
  have hlonger : List.replicate (n + 1) 'a' ++ [] <
      List.replicate (n + 1) 'a' ++ List.replicate (k + 1) 'a' :=
    List.append_left_lt (by simp [List.replicate_succ])
  simpa using hlonger

theorem otherTag_lt_object (n : Nat) :
    String.ofList (List.replicate (n + 1) 'a') < objectTag := by
  rw [String.lt_iff, String.toList_ofList, List.replicate_succ]
  exact List.Lex.rel (by decide)

theorem mem_otherTags : entry ∈ otherTags →
    ∃ n, entry = (String.ofList (List.replicate (n + 1) 'a'), none) := by
  intro h
  obtain ⟨n, _, rfl⟩ := List.mem_map.mp h
  exact ⟨n, rfl⟩

def gapNamespace : Namespace where
  entries := otherTags ++ [(objectTag, some sampleObject)]
  ascending := by
    rw [Ascending, List.pairwise_append, otherTags, List.pairwise_map]
    refine ⟨List.pairwise_lt_range.imp otherTag_lt, List.pairwise_singleton _ _, ?_⟩
    intro entry hentry last hlast
    obtain ⟨n, rfl⟩ := mem_otherTags hentry
    rw [List.mem_singleton.mp hlast]
    exact otherTag_lt_object n
  ours := by
    intro entry hentry
    rcases List.mem_append.mp hentry with hother | hobject
    · obtain ⟨n, rfl⟩ := mem_otherTags hother
      exact otherTag_not_ours n
    · rw [List.mem_singleton.mp hobject]
      decide
  wide := by
    intro entry hentry metadata hmetadata
    rcases List.mem_append.mp hentry with hother | hobject
    · obtain ⟨n, rfl⟩ := mem_otherTags hother
      cases hmetadata
    · rw [List.mem_singleton.mp hobject] at hmetadata
      cases hmetadata
      decide

def gapProvider : KappaRegistryProvider :=
  ⟨registryOf gapNamespace sampleCodec, sampleCodec, id, 1⟩

/-- One scan page, a thousand foreign tags and a stored object behind them: the
search reports truncation, offers no cursor and never reaches the object. -/
theorem remote_search_stalls :
    Serves gapProvider gapNamespace ∧ 1 ≤ gapProvider.maxScanPages ∧
      (∃ cache, gapProvider.search {} {} = .ok (⟨[], none, true⟩, cache)) ∧
      Beyond gapNamespace none sampleObject ∧ ¬Delivers gapProvider gapNamespace {} {} := by
  have hserves : Serves gapProvider gapNamespace := by
    refine registryOf_serves _ _ _ _ (sample_keeps fun entry hentry => ?_)
    rcases List.mem_append.mp hentry with hother | hobject
    · obtain ⟨n, rfl⟩ := mem_otherTags hother
      exact .inl rfl
    · rw [List.mem_singleton.mp hobject]
      exact .inr rfl
  have hstalled : Stalled gapProvider gapNamespace {} none := by
    have hahead : ahead gapNamespace none = otherTags ++ [(objectTag, some sampleObject)] :=
      beyond_none _ _
    have hlength : otherTags.length = 1000 := by simp [otherTags]
    have hwindow : window gapProvider = otherTags.length := hlength.symm
    refine ⟨by simp [hahead, hwindow], ?_⟩
    rw [hahead, hwindow, List.take_left]
    apply List.filterMap_eq_nil_iff.mpr
    intro entry hentry
    obtain ⟨n, rfl⟩ := mem_otherTags hentry
    rfl
  obtain ⟨cache, hsearch, _⟩ := search_eq hserves {} none (empty_coherent gapNamespace).mirrors
  refine ⟨hserves, le_rfl, ⟨cache, ?_⟩, ⟨⟨objectTag, by simp [gapNamespace]⟩, by simp⟩, fun h => ?_⟩
  · rw [pageAfter_stalled hstalled] at hsearch
    exact hsearch
  · exact h.clear hserves (empty_coherent gapNamespace).mirrors (.inl rfl) hstalled

end HologramLive.Registry.KappaWalk
