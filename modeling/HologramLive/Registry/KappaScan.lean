import HologramLive.Lib.Paging
import HologramLive.Registry.Kappa

namespace HologramLive.Registry.KappaScan
open Lib.Paging Lib.Result KappaClient Kappa

theorem kappaFor_parts (h : kappaFor tag = some kappa) :
    ∃ digest : List Char, digest.all isLowerHex = true ∧
      tag = String.ofList ("blake3_".toList ++ digest) ∧
      kappa = String.ofList ("blake3:".toList ++ digest) := by
  unfold kappaFor digestOf at h
  split at h
  · cases h
  · rename_i digest hdigest
    split at hdigest
    · rename_i hstarts
      obtain ⟨suffix, hsuffix⟩ := hstarts
      cases hdigest
      split at h
      · cases h
      · split at h
        · cases h
        · rename_i hhex
          cases h
          have hdrop : tag.toList.drop 7 = suffix := by
            rw [← hsuffix]
            rfl
          refine ⟨tag.toList.drop 7, by simpa using hhex, ?_, rfl⟩
          rw [hdrop, hsuffix, String.ofList_toList]
    · cases hdigest

theorem tagFor_kappaFor (h : kappaFor tag = some kappa) : tagFor kappa = tag := by
  obtain ⟨digest, hhex, rfl, rfl⟩ := kappaFor_parts h
  have hkeep : digest.map (fun c => if c = ':' then '_' else c) = digest := by
    refine (List.map_congr_left fun c hc => ?_).trans (List.map_id _)
    have hlower := List.all_eq_true.mp hhex c hc
    split
    · rename_i hcolon
      subst hcolon
      exact absurd hlower (by decide)
    · rfl
  rw [tagFor, String.toList_ofList, List.map_append, hkeep]
  rfl

/-- Tags and the ids they carry order alike. -/
theorem kappaFor_lt (h : kappaFor tag = some kappa) (h' : kappaFor tag' = some kappa') :
    tag < tag' ↔ kappa < kappa' := by
  obtain ⟨digest, _, rfl, rfl⟩ := kappaFor_parts h
  obtain ⟨digest', _, rfl, rfl⟩ := kappaFor_parts h'
  have hsame : ∀ front : List Char, String.ofList (front ++ digest) < String.ofList (front ++ digest') ↔
      digest < digest' := by
    intro front
    rw [String.lt_iff, String.toList_ofList, String.toList_ofList]
    refine ⟨fun hlt => ?_, List.append_left_lt⟩
    rcases lt_trichotomy digest digest' with hd | rfl | hd
    · exact hd
    · exact absurd hlt (lt_irrefl _)
    · exact absurd (List.append_left_lt hd) (lt_asymm hlt)
  rw [hsame, hsame]

/-- A registry namespace: every tag in order, with the object it describes if it
is one of ours. -/
structure Namespace where
  entries : List (String × Option ObjectMetadata)
  ascending : Ascending Prod.fst entries
  ours : ∀ entry ∈ entries, kappaFor entry.1 = entry.2.map (·.id)
  wide : ∀ entry ∈ entries, ∀ metadata, entry.2 = some metadata →
    metadata.size < 2 ^ 64 ∧ metadata.createdAtMillis < 2 ^ 64

def Success (status : Status) : Prop := 200 ≤ status.code ∧ status.code < 300

/-- The registry lists the namespace faithfully, holds the manifest of each of
its objects, and those manifests survive the serializer. -/
structure Serves (provider : KappaRegistryProvider) (ns : Namespace) : Prop where
  listing : ∀ last, ∃ status detail body,
    provider.transport.tagsList ObjectQuery.maxLimit last = .answer status detail body ∧
    (Success status ∧
        body = .ok (((beyond Prod.fst last ns.entries).take ObjectQuery.maxLimit).map Prod.fst) ∨
      status.code = notFound ∧ ns.entries = [])
  manifests : ∀ tag metadata, (tag, some metadata) ∈ ns.entries → ∃ status detail,
    Success status ∧ provider.transport.manifest tag =
      .answer status detail (.ok (encodeManifest provider.codec metadata))
  codec : ∀ tag metadata, (tag, some metadata) ∈ ns.entries →
    provider.codec.Keeps (manifestDocument metadata)

/-- Every cached record is the one the registry holds under its tag. -/
def Coherent (ns : Namespace) (cache : Cache) : Prop :=
  ∀ entry ∈ cache.entries, (entry.1, some entry.2.1) ∈ ns.entries

/-- The cached records are the ones the registry holds, as far as their tags are ours. -/
def Mirrors (ns : Namespace) (cache : Cache) : Prop :=
  ∀ entry ∈ cache.entries, (kappaFor entry.1).isSome → (entry.1, some entry.2.1) ∈ ns.entries

theorem empty_coherent (ns : Namespace) : Coherent ns {} := by
  simp [Coherent]

theorem Coherent.mirrors (h : Coherent ns cache) : Mirrors ns cache :=
  fun entry hentry _ => h entry hentry

theorem entry_unique {ns : Namespace} (h : (tag, left) ∈ ns.entries)
    (h' : (tag, right) ∈ ns.entries) : left = right :=
  (Prod.mk.inj (ns.ascending.key_inj h h' rfl)).2

theorem statusToResult_success (h : Success status) (detail context : String) :
    statusToResult status detail context = .ok () := by
  unfold statusToResult
  exact if_pos h

theorem success_found (h : Success status) : status.code ≠ notFound := by
  have := h.2
  unfold notFound
  omega

theorem get_kind (metadata : ObjectMetadata) :
    (Json.object (annotations metadata)).get annotationKind = some (.string metadata.kind) := by
  unfold annotations
  cases metadata.filename <;> rfl

theorem get_filename (metadata : ObjectMetadata) :
    ((Json.object (annotations metadata)).get annotationFilename).bind Json.asStr =
      metadata.filename := by
  unfold annotations
  cases metadata.filename <;> rfl

theorem get_created (metadata : ObjectMetadata) :
    (Json.object (annotations metadata)).get annotationCreated =
      some (.string (toString metadata.createdAtMillis)) := rfl

theorem decodeManifest_encodeManifest (hkeeps : codec.Keeps (manifestDocument metadata))
    (hsize : metadata.size < 2 ^ 64) (hcreated : metadata.createdAtMillis < 2 ^ 64) :
    decodeManifest codec (encodeManifest codec metadata) = .ok metadata := by
  have hannotations : (manifestDocument metadata).get "annotations" =
      some (.object (annotations metadata)) := rfl
  have hsubject : (manifestDocument metadata).get "subject" = some (descriptor metadata) := rfl
  have hdigest : (descriptor metadata).get "digest" = some (.string metadata.id) := rfl
  have hmedia : (descriptor metadata).get "mediaType" = some (.string metadata.mediaType) := rfl
  have hlength : (descriptor metadata).get "size" = some (.number metadata.size) := rfl
  rw [decodeManifest, encodeManifest, hkeeps]
  simp only [hannotations, hsubject, hdigest, hmedia, hlength, get_kind, get_filename, get_created,
    Option.bind_some, Json.asStr, Json.asU64, hsize, if_true, parseU64_toString hcreated, required,
    ok_bind, Option.getD_some]

theorem lookup_mem {entries : List (String × ObjectMetadata × Nat)}
    (h : entries.lookup tag = some record) : (tag, record) ∈ entries := by
  obtain ⟨before, after, rfl, _⟩ := List.lookup_eq_some_iff.mp h
  simp

/-- What is cached after a record was remembered. -/
theorem mem_remember {provider : KappaRegistryProvider} {entry : String × ObjectMetadata × Nat}
    (h : entry ∈ (provider.remember tag metadata cache).entries) :
    (entry.1 = tag ∧ entry.2.1 = metadata) ∨ (entry.1 ≠ tag ∧ entry ∈ cache.entries) := by
  rcases List.mem_cons.mp h with rfl | hkept
  · exact .inl ⟨rfl, rfl⟩
  · obtain ⟨hmem, hother⟩ := List.mem_filter.mp hkept
    refine .inr ⟨of_decide_eq_true hother, ?_⟩
    split at hmem
    · dsimp only at hmem
      split at hmem
      · cases hmem
      · exact (List.mem_filter.mp hmem).1
    · exact hmem

theorem remember_mirrors {provider : KappaRegistryProvider} {ns : Namespace}
    (hcache : Mirrors ns cache) (h : (tag, some metadata) ∈ ns.entries) :
    Mirrors ns (provider.remember tag metadata cache) := by
  intro entry hentry hours
  rcases mem_remember hentry with ⟨htag, hmetadata⟩ | ⟨_, hkept⟩
  · rw [htag, hmetadata]
    exact h
  · exact hcache entry hkept hours

/-- Reading an object by its tag gives the object stored there, whether or not
the cache still holds it. -/
theorem metadataByTag_stored {provider : KappaRegistryProvider} {ns : Namespace}
    (hserves : Serves provider ns) (hcache : Mirrors ns cache)
    (h : (tag, some metadata) ∈ ns.entries) :
    ∃ cache', provider.metadataByTag tag cache = .ok (some metadata, cache') ∧
      Mirrors ns cache' := by
  have hread : ∃ body, getManifest provider.transport tag = .ok (some body) ∧
      decodeManifest provider.codec body = .ok metadata := by
    obtain ⟨status, detail, hsuccess, hmanifest⟩ := hserves.manifests tag metadata h
    obtain ⟨hsize, hcreated⟩ := ns.wide _ h metadata rfl
    refine ⟨_, ?_, decodeManifest_encodeManifest (hserves.codec tag metadata h) hsize hcreated⟩
    simp only [getManifest, hmanifest, if_neg (success_found hsuccess),
      statusToResult_success hsuccess, ok_bind]
  obtain ⟨body, hbody, hdecode⟩ := hread
  unfold KappaRegistryProvider.metadataByTag KappaRegistryProvider.cached
  rw [hbody]
  simp only [ok_bind, hdecode]
  cases hlookup : cache.entries.lookup tag with
  | none => exact ⟨_, rfl, remember_mirrors hcache h⟩
  | some record =>
    obtain ⟨found, stored⟩ := record
    have hsame : found = metadata := by
      have hours : (kappaFor tag).isSome := by simp [ns.ours _ h]
      have hmem := hcache _ (lookup_mem hlookup) hours
      simpa using entry_unique hmem h
    have hcache' : Mirrors ns { cache with readings := cache.readings + 1 } := hcache
    dsimp only
    split
    · rename_i heq
      split at heq
      · simp only [Prod.mk.injEq, Option.some.injEq] at heq
        obtain ⟨rfl, rfl⟩ := heq
        exact ⟨_, by rw [hsame], hcache'⟩
      · cases heq
    · rename_i heq
      split at heq
      · cases heq
      · simp only [Prod.mk.injEq, true_and] at heq
        subst heq
        exact ⟨_, rfl, remember_mirrors hcache' h⟩

abbrev Entry := String × Option ObjectMetadata

/-- The matching objects among the entries of a namespace. -/
def hits (query : ObjectQuery) (entries : List Entry) : List ObjectMetadata :=
  entries.filterMap fun entry => entry.2.filter query.matches

@[simp] theorem hits_append (query : ObjectQuery) (front back : List Entry) :
    hits query (front ++ back) = hits query front ++ hits query back := by
  simp [hits]

theorem mem_hits : metadata ∈ hits query entries ↔
    (∃ tag, (tag, some metadata) ∈ entries) ∧ query.matches metadata = true := by
  simp only [hits, List.mem_filterMap, Option.filter_eq_some_iff, Prod.exists]
  constructor
  · rintro ⟨tag, _, hmem, rfl, hmatch⟩
    exact ⟨⟨tag, hmem⟩, hmatch⟩
  · rintro ⟨⟨tag, hmem⟩, hmatch⟩
    exact ⟨tag, _, hmem, rfl, hmatch⟩

theorem scanTags_eq {provider : KappaRegistryProvider} {ns : Namespace}
    (hserves : Serves provider ns) (hcache : Mirrors ns cache) (query : ObjectQuery)
    (entries : List Entry) (hsub : ∀ entry ∈ entries, entry ∈ ns.entries)
    (objects : List ObjectMetadata) (hfit : objects.length ≤ query.effectiveLimit) :
    ∃ cache', Mirrors ns cache' ∧
      provider.scanTags query (entries.map Prod.fst) objects cache = .ok
        (if query.effectiveLimit < (objects ++ hits query entries).length then
          .full ((objects ++ hits query entries).take query.effectiveLimit)
        else .through (objects ++ hits query entries), cache') := by
  induction entries generalizing objects cache with
  | nil =>
    refine ⟨cache, hcache, ?_⟩
    simp [KappaRegistryProvider.scanTags, hits, not_lt.mpr hfit]
  | cons entry rest ih =>
    obtain ⟨tag, found⟩ := entry
    have hrest : ∀ entry ∈ rest, entry ∈ ns.entries := fun e he => hsub e (List.mem_cons_of_mem _ he)
    have hours := ns.ours _ (hsub (tag, found) List.mem_cons_self)
    cases found with
    | none =>
      have hskip : (kappaFor tag).isNone = true := by simp [hours]
      rw [List.map_cons, KappaRegistryProvider.scanTags, if_pos hskip]
      simpa [hits] using ih hcache hrest objects hfit
    | some metadata =>
      have hkeep : ¬(kappaFor tag).isNone = true := by simp [hours]
      obtain ⟨cache₁, hread, hcache₁⟩ :=
        metadataByTag_stored hserves hcache (hsub (tag, some metadata) List.mem_cons_self)
      rw [List.map_cons, KappaRegistryProvider.scanTags, if_neg hkeep, hread, ok_bind]
      dsimp only
      by_cases hmatch : query.matches metadata = true
      · have hhits : hits query ((tag, some metadata) :: rest) = metadata :: hits query rest := by
          simp [hits, Option.filter, hmatch]
        rw [if_neg (by simp [hmatch]), hhits]
        by_cases hfull : objects.length = query.effectiveLimit
        · refine ⟨cache₁, hcache₁, ?_⟩
          rw [if_pos hfull, if_pos (by simp; omega), ← hfull, List.take_left]
        · rw [if_neg hfull]
          have hmore : objects ++ metadata :: hits query rest =
              objects ++ [metadata] ++ hits query rest := by simp
          rw [hmore]
          exact ih hcache₁ hrest (objects ++ [metadata]) (by simp; omega)
      · have hhits : hits query ((tag, some metadata) :: rest) = hits query rest := by
          simp [hits, Option.filter, hmatch]
        rw [if_pos (by simp [hmatch]), hhits]
        exact ih hcache₁ hrest objects hfit

/-- A page as the entries still ahead and the scan bound decide it. -/
def pageOf (query : ObjectQuery) (objects : List ObjectMetadata) (left : Nat)
    (ahead : List Entry) : ObjectPage :=
  let found := objects ++ hits query (ahead.take (left * ObjectQuery.maxLimit))
  if query.effectiveLimit < found.length then
    { objects := found.take query.effectiveLimit
      nextCursor := KappaRegistryProvider.lastId (found.take query.effectiveLimit)
      truncated := false }
  else if left * ObjectQuery.maxLimit ≤ ahead.length then
    { objects := found, nextCursor := KappaRegistryProvider.lastId found, truncated := true }
  else { objects := found, nextCursor := none, truncated := false }

/-- A full page of tags moves the window on by one page. -/
theorem pageOf_succ (query : ObjectQuery) (objects : List ObjectMetadata) (left : Nat)
    {ahead : List Entry} (hfull : ObjectQuery.maxLimit ≤ ahead.length) :
    pageOf query (objects ++ hits query (ahead.take ObjectQuery.maxLimit)) left
        (ahead.drop ObjectQuery.maxLimit) =
      pageOf query objects (left + 1) ahead := by
  have hwindow : (left + 1) * ObjectQuery.maxLimit =
      ObjectQuery.maxLimit + left * ObjectQuery.maxLimit := by ring
  have hrest : left * ObjectQuery.maxLimit ≤ (ahead.drop ObjectQuery.maxLimit).length ↔
      (left + 1) * ObjectQuery.maxLimit ≤ ahead.length := by
    rw [List.length_drop]
    omega
  simp only [pageOf, hrest, hwindow, List.take_add, hits_append, List.append_assoc]

theorem listTags_eq {provider : KappaRegistryProvider} {ns : Namespace}
    (hserves : Serves provider ns) (last : Option String) :
    listTags provider.transport ObjectQuery.maxLimit last =
      .ok { tags := ((beyond Prod.fst last ns.entries).take ObjectQuery.maxLimit).map Prod.fst
            next :=
              if ObjectQuery.maxLimit ≤ (beyond Prod.fst last ns.entries).length then
                ((beyond Prod.fst last ns.entries).take ObjectQuery.maxLimit).getLast?.map Prod.fst
              else none } := by
  obtain ⟨status, detail, body, hanswer, hanswered⟩ := hserves.listing last
  rcases hanswered with ⟨hsuccess, rfl⟩ | ⟨hmissing, hempty⟩
  · have hsmall : ((beyond Prod.fst last ns.entries).take ObjectQuery.maxLimit).length < 2 ^ 32 := by
      rw [List.length_take]
      simp only [ObjectQuery.maxLimit]
      omega
    have hfull : ObjectQuery.maxLimit ≤
        ((beyond Prod.fst last ns.entries).take ObjectQuery.maxLimit).length ↔
          ObjectQuery.maxLimit ≤ (beyond Prod.fst last ns.entries).length := by
      rw [List.length_take]
      omega
    simp only [listTags, hanswer, if_neg (success_found hsuccess),
      statusToResult_success hsuccess, ok_bind, List.length_map, hsmall, hfull, true_and,
      List.getLast?_map]
  · rw [listTags, hanswer]
    simp [hmissing, hempty, beyond, ObjectQuery.maxLimit]

/-- The page loop computes `pageOf` over what lies beyond its cursor. -/
theorem scanPages_eq {provider : KappaRegistryProvider} {ns : Namespace}
    (hserves : Serves provider ns) (hcache : Mirrors ns cache) (query : ObjectQuery) (left : Nat)
    (after : Option String) (objects : List ObjectMetadata)
    (hfit : objects.length ≤ query.effectiveLimit) :
    ∃ cache', Mirrors ns cache' ∧ provider.scanPages query left after objects cache =
      .ok (pageOf query objects left (beyond Prod.fst after ns.entries), cache') := by
  induction left generalizing after objects cache with
  | zero =>
    refine ⟨cache, hcache, ?_⟩
    simp [KappaRegistryProvider.scanPages, pageOf, hits, not_lt.mpr hfit]
  | succ left ih =>
    have hwindow : (left + 1) * ObjectQuery.maxLimit =
        ObjectQuery.maxLimit + left * ObjectQuery.maxLimit := by ring
    rw [KappaRegistryProvider.scanPages, listTags_eq hserves, ok_bind]
    dsimp only
    have hahead : ∀ entry ∈ (beyond Prod.fst after ns.entries).take ObjectQuery.maxLimit,
        entry ∈ ns.entries := fun entry he => (mem_beyond.mp (List.mem_of_mem_take he)).1
    generalize hT : beyond Prod.fst after ns.entries = ahead at hahead ⊢
    obtain ⟨cache₁, hcache₁, hscan⟩ := scanTags_eq hserves hcache query
      (ahead.take ObjectQuery.maxLimit) hahead objects hfit
    by_cases hempty : ahead = []
    · refine ⟨cache, hcache, ?_⟩
      simp [hempty, pageOf, hits, not_lt.mpr hfit, ObjectQuery.maxLimit]
    · have hpage : ¬(ahead.take ObjectQuery.maxLimit).map Prod.fst = [] := by
        simp [hempty, ObjectQuery.maxLimit]
      rw [if_neg hpage, hscan, ok_bind]
      dsimp only
      by_cases hover : query.effectiveLimit <
          (objects ++ hits query (ahead.take ObjectQuery.maxLimit)).length
      · refine ⟨cache₁, hcache₁, ?_⟩
        have hsplit : objects ++ hits query (ahead.take ((left + 1) * ObjectQuery.maxLimit)) =
            objects ++ hits query (ahead.take ObjectQuery.maxLimit) ++
              hits query ((ahead.drop ObjectQuery.maxLimit).take (left * ObjectQuery.maxLimit)) := by
          rw [hwindow, List.take_add, hits_append, List.append_assoc]
        have hlonger : query.effectiveLimit <
            (objects ++ hits query (ahead.take ((left + 1) * ObjectQuery.maxLimit))).length := by
          rw [hsplit, List.length_append]
          omega
        have htake : (objects ++ hits query
            (ahead.take ((left + 1) * ObjectQuery.maxLimit))).take query.effectiveLimit =
              (objects ++ hits query (ahead.take ObjectQuery.maxLimit)).take query.effectiveLimit := by
          rw [hsplit, List.take_append_of_le_length (le_of_lt hover)]
        rw [if_pos hover]
        simp only [pageOf, if_pos hlonger, htake]
      · rw [if_neg hover]
        dsimp only
        by_cases hfull : ObjectQuery.maxLimit ≤ ahead.length
        · rw [if_pos hfull]
          obtain ⟨last, hlast⟩ : ∃ last, (ahead.take ObjectQuery.maxLimit).getLast? = some last := by
            cases h : (ahead.take ObjectQuery.maxLimit).getLast? with
            | some last => exact ⟨last, rfl⟩
            | none =>
              rw [List.getLast?_eq_none_iff] at h
              simp [h] at hpage
          rw [hlast, Option.map_some]
          dsimp only
          have hresume : beyond Prod.fst (some last.1) ns.entries = ahead.drop ObjectQuery.maxLimit :=
            beyond_resume ns.ascending (hT.trans (List.take_append_drop _ _).symm) hlast
          obtain ⟨cache', hcache', hpages⟩ := ih hcache₁ (some last.1)
            (objects ++ hits query (ahead.take ObjectQuery.maxLimit)) (not_lt.mp hover)
          refine ⟨cache', hcache', ?_⟩
          rw [hpages, hresume, pageOf_succ query objects left hfull]
        · refine ⟨cache₁, hcache₁, ?_⟩
          have hall : ahead.take ((left + 1) * ObjectQuery.maxLimit) =
              ahead.take ObjectQuery.maxLimit := by
            rw [List.take_of_length_le (by omega), List.take_of_length_le (by omega)]
          have hshort : ¬(left + 1) * ObjectQuery.maxLimit ≤ ahead.length := by omega
          rw [if_neg hfull]
          simp only [pageOf, hall, if_neg hover, if_neg hshort]

end HologramLive.Registry.KappaScan
