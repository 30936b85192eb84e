import HologramLive.Registry.KappaFresh
import HologramLive.Store.Integrity

/-! One provider's calls, interleaved: what its cache and its callers see. -/

namespace HologramLive.Registry.KappaSteps
open Lib Lib.Interleaving Lib.Paging KappaClient Kappa KappaScan Store

section Log
variable {log : List (String × Bytes)}

theorem current_none (h : Shared.current log tag = none) (place : Nat) (body : Bytes) :
    log[place]? ≠ some (tag, body) := by
  induction log generalizing place with
  | nil => simp
  | cons entry rest ih =>
    rw [Shared.current] at h
    split at h
    · cases h
    · rename_i hnone
      split at h
      · cases h
      · rename_i htag
        cases place with
        | zero =>
          intro heq
          simp only [List.getElem?_cons_zero, Option.some.injEq] at heq
          exact htag (congrArg Prod.fst heq)
        | succ place => simpa using ih hnone place

theorem current_some (h : Shared.current log tag = some place) :
    (∃ body, log[place]? = some (tag, body)) ∧
      ∀ later body, log[later]? = some (tag, body) → later ≤ place := by
  induction log generalizing place with
  | nil => cases h
  | cons entry rest ih =>
    rw [Shared.current] at h
    split at h
    · rename_i found hfound
      obtain rfl := Option.some.inj h
      obtain ⟨hhere, hlast⟩ := ih hfound
      refine ⟨by simpa using hhere, fun later body hlater => ?_⟩
      cases later with
      | zero => omega
      | succ later =>
        have := hlast later body (by simpa using hlater)
        omega
    · rename_i hnone
      split at h
      · rename_i htag
        obtain rfl := Option.some.inj h
        refine ⟨⟨entry.2, by simp [← htag]⟩, fun later body hlater => ?_⟩
        cases later with
        | zero => exact le_rfl
        | succ later => exact absurd (by simpa using hlater) (current_none hnone later body)
      · cases h

theorem mem_tags : tag ∈ Shared.tags log ↔ ∃ body, (tag, body) ∈ log := by
  simp [Shared.tags]

theorem tags_ascending : (Shared.tags log).Pairwise (· < ·) :=
  (Finset.sortedLT_sort _).pairwise

end Log

/-- A sorted listing from a position on, cut off at a limit, is a window. -/
theorem window_listed {known : String → Prop} {tags : List String}
    (hascending : tags.Pairwise (· < ·)) (hknown : ∀ tag, known tag → tag ∈ tags)
    (last : Option String) {limit : Nat} (hlimit : 0 < limit) :
    Window known last
      ⟨(beyond id last tags).take limit,
        if limit ≤ ((beyond id last tags).take limit).length then
          ((beyond id last tags).take limit).getLast? else none⟩ := by
  have hsorted : (beyond id last tags).Pairwise (· < ·) :=
    hascending.sublist List.filter_sublist
  have hsplit := hsorted
  rw [← List.take_append_drop limit (beyond id last tags), List.pairwise_append] at hsplit
  obtain ⟨htaken, _, hbefore⟩ := hsplit
  constructor
  · exact htaken
  · rintro tag htag ⟨cursor, hcursor, hle⟩
    have := (mem_beyond.mp (List.mem_of_mem_take htag)).2 cursor hcursor
    exact absurd this (not_lt_of_ge hle)
  · intro tag htag hahead
    have hmem : tag ∈ beyond id last tags :=
      mem_beyond.mpr ⟨hknown tag htag, fun cursor hcursor => not_passed hahead hcursor⟩
    rw [← List.take_append_drop limit (beyond id last tags)] at hmem
    rcases List.mem_append.mp hmem with hfirst | hrest
    · exact .inl hfirst
    · have hlength := List.length_pos_of_mem hrest
      rw [List.length_drop] at hlength
      have htake : ((beyond id last tags).take limit).length = limit := by
        rw [List.length_take]
        omega
      obtain ⟨next, hnext⟩ : ∃ next, ((beyond id last tags).take limit).getLast? = some next := by
        rw [← Option.isSome_iff_exists, List.getLast?_isSome, ← List.length_pos_iff]
        omega
      refine .inr ⟨next, ?_, hbefore next (List.mem_of_getLast? hnext) tag hrest⟩
      rw [if_pos (le_of_eq htake.symm), hnext]
  · intro next hnext
    dsimp only at hnext
    split at hnext
    · obtain ⟨init, hinit⟩ := List.getLast?_eq_some_iff.mp hnext
      constructor
      · intro tag htag
        dsimp only at htag
        rw [hinit] at htag htaken
        rcases List.mem_append.mp htag with hfirst | hlast
        · exact le_of_lt ((List.pairwise_append.mp htaken).2.2 tag hfirst next
            List.mem_cons_self)
        · exact le_of_eq (List.mem_singleton.mp hlast)
      · intro cursor hcursor
        have hmem := List.mem_of_mem_take (List.mem_of_getLast? hnext)
        exact le_of_lt ((mem_beyond.mp hmem).2 cursor hcursor)
    · cases hnext

/-- A record that one of the tag's manifests shows, no older than the count `base` says. -/
def Newer (codec : JsonCodec) (log : List (String × Bytes)) (base : String → Nat) (tag : String)
    (metadata : ObjectMetadata) : Prop :=
  ∃ place body, log[place]? = some (tag, body) ∧ base tag ≤ place + 1 ∧
    decodeManifest codec body = .ok metadata

def Known (base : String → Nat) (tag : String) : Prop := 0 < base tag

/-- Every manifest in the log is one of ours, under the tag of the object it describes. -/
def Ours (codec : JsonCodec) (log : List (String × Bytes)) : Prop :=
  ∀ entry ∈ log, ∃ metadata, decodeManifest codec entry.2 = .ok metadata ∧
    tagFor metadata.id = entry.1

section Newer
variable {codec : JsonCodec} {log : List (String × Bytes)} {base base' : String → Nat}

theorem Newer.grow (h : Newer codec log base tag metadata) (more : List (String × Bytes)) :
    Newer codec (log ++ more) base tag metadata := by
  obtain ⟨place, body, hplace, hbase, hdecode⟩ := h
  have hlt : place < log.length := (List.getElem?_eq_some_iff.mp hplace).1
  exact ⟨place, body, by rw [List.getElem?_append_left hlt, hplace], hbase, hdecode⟩

theorem Newer.mono (h : Newer codec log base tag metadata) (hle : base' tag ≤ base tag) :
    Newer codec log base' tag metadata := by
  obtain ⟨place, body, hplace, hbase, hdecode⟩ := h
  exact ⟨place, body, hplace, hle.trans hbase, hdecode⟩

theorem required_ok {field : Option α} {message : String}
    (h : required field message = .ok value) : field = some value := by
  cases field with
  | none => cases h
  | some _ => exact congrArg some (Except.ok.inj h)

theorem asU64_lt {document : Json} (h : document.asU64 = some value) : value < 2 ^ 64 := by
  unfold Json.asU64 at h
  split at h
  · split at h
    · rename_i hlt
      exact Option.some.inj h ▸ hlt
    · cases h
  · cases h

theorem parseU64_lt (h : parseU64 text = some value) : value < 2 ^ 64 := by
  unfold parseU64 at h
  dsimp only at h
  split at h
  all_goals
    split at h
    · cases h
    · split at h
      · rename_i hlt
        exact Option.some.inj h ▸ hlt
      · cases h

/-- The numbers of a decoded record fit. -/
theorem decodeManifest_fits {body : Bytes} {metadata : ObjectMetadata}
    (h : decodeManifest codec body = .ok metadata) :
    metadata.size < 2 ^ 64 ∧ metadata.createdAtMillis < 2 ^ 64 := by
  unfold decodeManifest at h
  split at h
  · cases h
  · obtain ⟨subject, _, h⟩ := Lib.Result.bind_ok.mp h
    obtain ⟨_, _, h⟩ := Lib.Result.bind_ok.mp h
    obtain ⟨_, _, h⟩ := Lib.Result.bind_ok.mp h
    obtain ⟨created, hcreated, h⟩ := Lib.Result.bind_ok.mp h
    obtain rfl := Except.ok.inj h
    obtain ⟨text, _, hparse⟩ := Option.bind_eq_some_iff.mp (required_ok hcreated)
    refine ⟨?_, parseU64_lt hparse⟩
    dsimp only
    cases hsize : (subject.get "size").bind Json.asU64 with
    | none => simp
    | some size =>
      obtain ⟨_, _, hsize⟩ := Option.bind_eq_some_iff.mp hsize
      exact asU64_lt hsize

theorem Ours.proper (h : Ours codec log) (base : String → Nat) : Proper (Newer codec log base) := by
  rintro tag metadata ⟨place, body, hplace, _, hdecode⟩
  obtain ⟨shown, hshown, htag⟩ := h _ (List.mem_of_getElem? hplace)
  obtain rfl : metadata = shown := Except.ok.inj (hdecode.symm.trans hshown)
  exact ⟨htag, decodeManifest_fits hdecode⟩

end Newer

/-- What the log, the cache and the acknowledgements have to do with each other. -/
structure Sound (setting : Setting) (shared : Shared) (acknowledged : String → Nat) : Prop where
  ours : Ours setting.provider.codec shared.log
  newest : ∀ tag, 0 < acknowledged tag →
    ∃ body, shared.log[acknowledged tag - 1]? = some (tag, body)
  cache : ∀ entry ∈ shared.cache.entries,
    Newer setting.provider.codec shared.log acknowledged entry.1 entry.2.1

section Sound
variable {setting : Setting} {shared : Shared} {acknowledged base : String → Nat}

/-- The current manifest of a tag is no older than what was acknowledged. -/
theorem Sound.current (h : Sound setting shared acknowledged)
    (hcurrent : Shared.current shared.log tag = some place) :
    ∃ body metadata, shared.log[place]? = some (tag, body) ∧ acknowledged tag ≤ place + 1 ∧
      decodeManifest setting.provider.codec body = .ok metadata := by
  obtain ⟨⟨body, hplace⟩, hlast⟩ := current_some hcurrent
  obtain ⟨metadata, hdecode, _⟩ := h.ours _ (List.mem_of_getElem? hplace)
  refine ⟨body, metadata, hplace, ?_, hdecode⟩
  by_cases hknown : 0 < acknowledged tag
  · obtain ⟨newest, hnewest⟩ := h.newest tag hknown
    have := hlast _ _ hnewest
    omega
  · omega

theorem Sound.absent (h : Sound setting shared acknowledged)
    (hnone : Shared.current shared.log tag = none) : acknowledged tag = 0 := by
  by_contra hknown
  obtain ⟨body, hplace⟩ := h.newest tag (by omega)
  exact current_none hnone _ body hplace

theorem statusToResult_notFound {context message : String}
    (h : statusToResult status detail context = .error (.notFound message)) :
    status.code = notFound ∧ ∃ rest, message = context ++ rest := by
  unfold statusToResult at h
  split at h
  · cases h
  · dsimp only at h
    have herror := Except.error.inj h
    split at herror
    · rename_i hcode
      refine ⟨hcode, ?_⟩
      have hmessage := LiveError.notFound.inj herror
      split at hmessage
      · exact ⟨_, hmessage.symm.trans (String.append_assoc ..)⟩
      · refine ⟨": HTTP " ++ (status.text ++ (": " ++ detail)), hmessage.symm.trans ?_⟩
        simp only [String.append_assoc]
        rfl
    · repeat' split at herror
      all_goals cases herror

theorem cached_entries (provider : KappaRegistryProvider) (tag : String) (cache : Cache) :
    (provider.cached tag cache).2.entries = cache.entries := by
  unfold KappaRegistryProvider.cached
  split <;> rfl

theorem cached_mem {provider : KappaRegistryProvider} {cache : Cache}
    (h : (provider.cached tag cache).1 = some metadata) :
    ∃ stored, (tag, metadata, stored) ∈ cache.entries := by
  unfold KappaRegistryProvider.cached at h
  split at h
  · cases h
  · rename_i found stored hlookup
    dsimp only at h
    split at h
    · obtain rfl := Option.some.inj h
      exact ⟨stored, lookup_mem hlookup⟩
    · cases h

theorem acknowledged_notFound {trouble : Option Trouble} {context message : String}
    (h : KappaSteps.acknowledged context trouble = .error (.notFound message)) :
    ∃ rest, message = context ++ rest := by
  unfold KappaSteps.acknowledged at h
  split at h
  · cases h
  · cases h
  · exact (statusToResult_notFound h).2
  · cases h

theorem getBlob_notFound {kappa message : String} {reply : Reply Bytes}
    (h : getBlob kappa reply = .error (.notFound message)) :
    ∃ rest, message = s!"get blob {kappa}" ++ rest := by
  unfold getBlob at h
  split at h
  · cases h
  · split at h
    · rename_i hstatus
      obtain rfl := Except.error.inj h
      exact (statusToResult_notFound hstatus).2
    · split at h <;> cases h

/-- A manifest that is asked for is refused otherwise than as missing, missing, or the
current one. -/
theorem getManifest_cases (shared : Shared) (addressed : String → String)
    (trouble : Option Trouble) (tag : String) :
    (∃ error, KappaClient.getManifest (shared.transport addressed trouble) tag = .error error ∧
        ∀ message, error ≠ .notFound message) ∨
      KappaClient.getManifest (shared.transport addressed trouble) tag =
        .ok (shared.manifest (addressed tag)) := by
  cases trouble with
  | none =>
    right
    cases hmanifest : shared.manifest (addressed tag) with
    | none => simp [KappaClient.getManifest, Shared.transport, hmanifest]
    | some body =>
      simp [KappaClient.getManifest, Shared.transport, hmanifest, Shared.ok, notFound,
        statusToResult]
  | some trouble =>
    left
    cases trouble with
    | unreachable error => exact ⟨_, rfl, fun _ h => by cases h⟩
    | unreadable error =>
      refine ⟨.transport s!"read manifest {tag}: {error}", ?_, fun _ h => by cases h⟩
      simp [KappaClient.getManifest, Shared.transport, Trouble.reply, notFound, statusToResult]
    | refused status detail refusal =>
      have hfails : ∃ error, statusToResult status detail s!"get manifest {tag}" = .error error := by
        unfold statusToResult
        rw [if_neg refusal.1]
        exact ⟨_, rfl⟩
      obtain ⟨error, herror⟩ := hfails
      refine ⟨error, ?_, fun message hmessage => ?_⟩
      · simp only [KappaClient.getManifest, Shared.transport, Trouble.reply, refusal.2, ↓reduceIte,
          herror]
        rfl
      · subst hmessage
        exact refusal.2 (statusToResult_notFound herror).1

theorem listTags_cases (shared : Shared) (addressed : String → String) (trouble : Option Trouble)
    (last : Option String) :
    (∃ error, KappaClient.listTags (shared.transport addressed trouble) ObjectQuery.maxLimit last =
        .error error) ∨
      KappaClient.listTags (shared.transport addressed trouble) ObjectQuery.maxLimit last =
        .ok ⟨(beyond id last (Shared.tags shared.log)).take ObjectQuery.maxLimit,
          if ObjectQuery.maxLimit ≤
              ((beyond id last (Shared.tags shared.log)).take ObjectQuery.maxLimit).length then
            ((beyond id last (Shared.tags shared.log)).take ObjectQuery.maxLimit).getLast?
          else none⟩ := by
  cases trouble with
  | none =>
    right
    have hshort : ((beyond id last (Shared.tags shared.log)).take ObjectQuery.maxLimit).length <
        2 ^ 32 := by
      have := List.length_take_le ObjectQuery.maxLimit (beyond id last (Shared.tags shared.log))
      unfold ObjectQuery.maxLimit at *
      omega
    simp only [KappaClient.listTags, Shared.transport, Shared.ok, hshort, true_and]
    simp [statusToResult, notFound]
  | some trouble =>
    left
    cases trouble with
    | unreachable error => exact ⟨_, rfl⟩
    | unreadable error =>
      refine ⟨.protocol s!"decode tag list: {error}", ?_⟩
      simp [KappaClient.listTags, Shared.transport, Trouble.reply, notFound, statusToResult]
    | refused status detail refusal =>
      simp only [KappaClient.listTags, Shared.transport, Trouble.reply, refusal.2, ↓reduceIte,
        statusToResult, refusal.1]
      exact ⟨_, rfl⟩

/-- Every reply is fresh for a call that began when no more than this was acknowledged. -/
theorem serve_fresh (h : Sound setting shared acknowledged)
    (hbase : ∀ tag, base tag ≤ acknowledged tag) {operation : ProviderCall β}
    {obtained : Option (String × Bytes)} (howed : Owed setting operation obtained)
    (verdict : Verdict) :
    Fresh setting (Newer setting.provider.codec shared.log base) (Known base) operation
      (serve setting operation verdict shared).1 := by
  cases operation with
  | cached tag =>
    intro metadata hfound
    obtain ⟨stored, hmem⟩ := cached_mem hfound
    exact (h.cache _ hmem).mono (hbase tag)
  | remember tag metadata => trivial
  | putBlob kappa mediaType bytes => trivial
  | nowMillis => trivial
  | putManifest tag body => exact fun _ hfails => acknowledged_notFound hfails
  | getBlob kappa => exact fun _ hfails => getBlob_notFound hfails
  | getManifest tag =>
    have haddressed : setting.addressed tag = tag := howed
    rcases getManifest_cases shared setting.addressed verdict.trouble tag with
      ⟨error, hreply, herror⟩ | hreply
    all_goals
      rw [serve]
      dsimp only
      rw [hreply]
    · refine ⟨fun _ hok => (nomatch hok), fun hok => (nomatch hok), fun message hmessage => ?_⟩
      exact herror message (Except.error.inj hmessage)
    · rw [haddressed]
      cases hcurrent : Shared.current shared.log tag with
      | none =>
        have hnone : shared.manifest tag = none := by simp [Shared.manifest, hcurrent]
        rw [hnone]
        refine ⟨fun _ hok => (nomatch hok), fun _ hknown => ?_, fun _ hok => (nomatch hok)⟩
        have := hbase tag
        rw [h.absent hcurrent] at this
        exact absurd hknown (by unfold Known; omega)
      | some place =>
        obtain ⟨body, metadata, hplace, hnewest, hdecode⟩ := h.current hcurrent
        have hbody : shared.manifest tag = some body := by
          simp [Shared.manifest, hcurrent, hplace]
        rw [hbody]
        refine ⟨fun shown hshown => ?_, fun hok => (nomatch hok), fun _ hok => (nomatch hok)⟩
        obtain rfl := Option.some.inj (Except.ok.inj hshown)
        exact ⟨metadata, hdecode, place, body, hplace, (hbase tag).trans hnewest, hdecode⟩
  | listTags limit last =>
    obtain rfl : limit = ObjectQuery.maxLimit := howed
    rcases listTags_cases shared setting.addressed verdict.trouble last with ⟨error, hreply⟩ | hreply
    all_goals
      rw [serve]
      dsimp only
      rw [hreply]
    · exact fun _ hok => by cases hok
    · intro page hpage
      obtain rfl := Except.ok.inj hpage
      constructor
      · refine window_listed tags_ascending (fun tag hknown => ?_) last (by decide)
        have hacknowledged : 0 < acknowledged tag := lt_of_lt_of_le hknown (hbase tag)
        obtain ⟨body, hbody⟩ := h.newest tag hacknowledged
        exact mem_tags.mpr ⟨body, List.mem_of_getElem? hbody⟩
      · intro hnil
        dsimp only at hnil ⊢
        rw [hnil]
        rfl

end Sound

section Sealed

/-- A writer returns a record only right after having remembered one. -/
def Sealed : ProviderProgram Outcome → Prop
  | .done outcome => ∀ metadata, outcome ≠ .wrote metadata
  | .fail _ => True
  | .call (.remember _ _) next => (∃ outcome, next () = .done outcome) ∨ Sealed (next ())
  | .call (.cached _) next => ∀ reply, Sealed (next reply)
  | .call (.getManifest _) next => ∀ reply, Sealed (next reply)
  | .call (.putManifest _ _) next => ∀ reply, Sealed (next reply)
  | .call (.getBlob _) next => ∀ reply, Sealed (next reply)
  | .call (.putBlob _ _ _) next => ∀ reply, Sealed (next reply)
  | .call (.listTags _ _) next => ∀ reply, Sealed (next reply)
  | .call .nowMillis next => ∀ reply, Sealed (next reply)

theorem Sealed.bind (program : ProviderProgram α) {rest : α → ProviderProgram Outcome}
    (h : ∀ value, Sealed (rest value)) : Sealed (program >>= rest) := by
  induction program with
  | done value => exact h value
  | fail error => trivial
  | call operation next ih =>
    cases operation with
    | remember tag metadata => exact .inr (ih ())
    | cached _ | getManifest _ | putManifest _ _ | getBlob _ | putBlob _ _ _ | listTags _ _ |
      nowMillis => exact ih

theorem Sealed.step {operation : ProviderCall β} {next : β → ProviderProgram Outcome}
    (h : Sealed (.call operation next)) (reply : β) :
    Sealed (next reply) ∨ ∃ tag, remembers (.call operation next) = some tag := by
  cases operation with
  | remember tag metadata => exact .inr ⟨tag, rfl⟩
  | cached _ | getManifest _ | putManifest _ _ | getBlob _ | putBlob _ _ _ | listTags _ _ |
    nowMillis => exact .inl (h reply)

theorem publish_sealed (codec : JsonCodec) (tag : String) (metadata : ObjectMetadata) :
    Sealed (publish codec tag metadata >>= fun metadata => .done (.wrote metadata)) := by
  intro reply
  cases reply with
  | error error => trivial
  | ok _ => exact .inl ⟨_, rfl⟩

theorem program_sealed (setting : Setting) (call : Call) : Sealed (call.program setting) := by
  cases call with
  | get id => exact Sealed.bind _ fun _ _ h => by cases h
  | search query => exact Sealed.bind _ fun _ _ h => by cases h
  | rename id filename =>
    simp only [Call.program, renameFile, Program.bind_assoc]
    apply Sealed.bind
    intro found
    cases found with
    | none => trivial
    | some metadata =>
      dsimp only
      split
      · trivial
      · exact publish_sealed ..
  | put kind mediaType filename bytes =>
    simp only [Call.program, putObject, Program.bind_assoc]
    apply Sealed.bind
    intro existing
    apply Sealed.bind
    intro createdAtMillis reply
    cases reply with
    | error error => trivial
    | ok _ => exact publish_sealed ..

end Sealed

section Step
variable {setting : Setting} {shared : Shared} {acknowledged base : String → Nat}

/-- The manifest a call obtained or put last stands in the log where its source says. -/
structure Sourced (log : List (String × Bytes)) (source : Option (String × Nat))
    (obtained : Option (String × Bytes)) : Prop where
  valid : ∀ tag place, source = some (tag, place) → ∃ body, log[place]? = some (tag, body)
  matching : ∀ tag body, obtained = some (tag, body) →
    ∃ place, source = some (tag, place) ∧ log[place]? = some (tag, body)

theorem getElem?_grow {log : List (String × Bytes)} {place : Nat} {entry : String × Bytes}
    (h : log[place]? = some entry) (more : List (String × Bytes)) :
    (log ++ more)[place]? = some entry := by
  rw [List.getElem?_append_left (List.getElem?_eq_some_iff.mp h).1, h]

theorem Sourced.grow {log : List (String × Bytes)} {source : Option (String × Nat)}
    {obtained : Option (String × Bytes)} (h : Sourced log source obtained)
    (more : List (String × Bytes)) : Sourced (log ++ more) source obtained := by
  constructor
  · intro tag place hsource
    obtain ⟨body, hplace⟩ := h.valid tag place hsource
    exact ⟨body, getElem?_grow hplace more⟩
  · intro tag body hobtained
    obtain ⟨place, hsource, hplace⟩ := h.matching tag body hobtained
    exact ⟨place, hsource, getElem?_grow hplace more⟩

theorem serve_log (operation : ProviderCall β) (verdict : Verdict) :
    ∃ more, (serve setting operation verdict shared).2.log = shared.log ++ more := by
  cases operation with
  | putManifest tag body =>
    dsimp only [serve]
    split
    · exact ⟨_, rfl⟩
    · exact ⟨[], (List.append_nil _).symm⟩
  | cached _ | remember _ _ | getManifest _ | getBlob _ | putBlob _ _ _ | listTags _ _ | nowMillis =>
    exact ⟨[], (List.append_nil _).symm⟩

theorem serve_sourced {operation : ProviderCall β} {before : Option (String × Nat)}
    {obtained : Option (String × Bytes)} (h : Sourced shared.log before obtained)
    (howed : Owed setting operation obtained) (verdict : Verdict) :
    Sourced (serve setting operation verdict shared).2.log
      (source setting verdict shared operation before)
      (obtains operation (serve setting operation verdict shared).1 obtained) := by
  cases operation with
  | cached _ | remember _ _ | getBlob _ | putBlob _ _ _ | listTags _ _ | nowMillis => exact h
  | getManifest tag =>
    have haddressed : setting.addressed tag = tag := howed
    constructor
    · intro tag' place hsource
      obtain ⟨found, hcurrent, hpair⟩ := Option.map_eq_some_iff.mp hsource
      obtain ⟨rfl, rfl⟩ := Prod.mk.inj hpair
      rw [haddressed] at hcurrent
      exact (current_some hcurrent).1
    · intro tag' body hobtained
      rcases getManifest_cases shared setting.addressed verdict.trouble tag with
        ⟨error, hreply, _⟩ | hreply
      all_goals
        rw [serve] at hobtained
        dsimp only at hobtained
        rw [hreply] at hobtained
      · cases hobtained
      · rw [haddressed] at hobtained
        cases hcurrent : Shared.current shared.log tag with
        | none =>
          rw [Shared.manifest, hcurrent] at hobtained
          cases hobtained
        | some place =>
          obtain ⟨⟨found, hplace⟩, _⟩ := current_some hcurrent
          rw [Shared.manifest, hcurrent, Option.bind_some, hplace] at hobtained
          cases hobtained
          exact ⟨place, by simp [source, haddressed, hcurrent], hplace⟩
  | putManifest tag body =>
    obtain ⟨haddressed, _⟩ := howed
    have hnew : (shared.log ++ [(setting.addressed tag, body)])[shared.log.length]? =
        some (tag, body) := by simp [haddressed]
    dsimp only [serve, source]
    cases hreply : KappaSteps.acknowledged s!"put manifest {tag}" verdict.trouble with
    | ok _ =>
      have hlands : lands verdict s!"put manifest {tag}" = true := by rw [lands, hreply]
      rw [hlands, if_pos rfl, if_pos rfl]
      constructor
      · rintro tag' place ⟨⟩
        exact ⟨body, hnew⟩
      · rintro tag' body' ⟨⟩
        exact ⟨_, rfl, hnew⟩
    | error error =>
      constructor
      · intro tag' place hsource
        split at hsource
        · rename_i hlands
          cases hsource
          rw [hlands, if_pos rfl]
          exact ⟨body, hnew⟩
        · rename_i hlands
          rw [if_neg hlands]
          exact h.valid tag' place hsource
      · intro tag' body' hobtained
        cases hobtained

theorem serve_sound (h : Sound setting shared acknowledged) {operation : ProviderCall β}
    {next : β → ProviderProgram Outcome} {before : Option (String × Nat)}
    {obtained : Option (String × Bytes)} (hsourced : Sourced shared.log before obtained)
    (howed : Owed setting operation obtained)
    (htimely : ∀ tag place, remembers (.call operation next) = some tag →
      before = some (tag, place) → acknowledged tag ≤ place + 1) (verdict : Verdict) :
    Sound setting (serve setting operation verdict shared).2 acknowledged := by
  cases operation with
  | getManifest _ | getBlob _ | putBlob _ _ _ | listTags _ _ | nowMillis => exact h
  | cached tag =>
    refine ⟨h.ours, h.newest, fun entry hentry => h.cache entry ?_⟩
    exact cached_entries setting.provider tag shared.cache ▸ hentry
  | remember tag metadata =>
    obtain ⟨body, hobtained, hdecode⟩ := howed
    obtain ⟨place, hsource, hplace⟩ := hsourced.matching tag body hobtained
    refine ⟨h.ours, h.newest, fun entry hentry => ?_⟩
    rcases mem_remember hentry with ⟨htag, hmetadata⟩ | ⟨_, hkept⟩
    · rw [htag, hmetadata]
      exact ⟨place, body, hplace, htimely tag place rfl hsource, hdecode⟩
    · exact h.cache entry hkept
  | putManifest tag body =>
    obtain ⟨haddressed, metadata, hdecode, htag⟩ := howed
    dsimp only [serve]
    split
    · constructor
      · intro entry hentry
        rcases List.mem_append.mp hentry with hbefore | hnew
        · exact h.ours entry hbefore
        · obtain rfl := List.mem_singleton.mp hnew
          exact ⟨metadata, hdecode, htag.trans haddressed.symm⟩
      · intro tag' hknown
        obtain ⟨newest, hnewest⟩ := h.newest tag' hknown
        exact ⟨newest, getElem?_grow hnewest _⟩
      · exact fun entry hentry => (h.cache entry hentry).grow _
    · exact h

/-- A writer that has just remembered its record and returns acknowledges it. -/
theorem remember_sound (h : Sound setting shared acknowledged)
    (hplace : shared.log[place]? = some (tag, body))
    (hdecode : decodeManifest setting.provider.codec body = .ok metadata)
    (htimely : acknowledged tag ≤ place + 1) :
    Sound setting { shared with cache := setting.provider.remember tag metadata shared.cache }
      (Function.update acknowledged tag (max (acknowledged tag) (place + 1))) := by
  rw [max_eq_right htimely]
  refine ⟨h.ours, fun tag' hknown => ?_, fun entry hentry => ?_⟩
  · by_cases htag : tag' = tag
    · subst htag
      exact ⟨body, by simpa using hplace⟩
    · rw [Function.update_of_ne htag] at hknown ⊢
      exact h.newest tag' hknown
  · rcases mem_remember hentry with ⟨htag, hmetadata⟩ | ⟨hne, hkept⟩
    · rw [htag, hmetadata]
      exact ⟨place, body, hplace, by simp, hdecode⟩
    · obtain ⟨place', body', hplace', hnewer, hshows⟩ := h.cache entry hkept
      exact ⟨place', body', hplace', by rw [Function.update_of_ne hne]; exact hnewer, hshows⟩

theorem acknowledge_le (program : ProviderProgram Outcome) (source : Option (String × Nat))
    (acknowledged : String → Nat) (tag : String) :
    acknowledged tag ≤ acknowledge program source acknowledged tag := by
  unfold acknowledge
  split
  · rename_i tag' place
    by_cases htag : tag = tag'
    · subst htag
      simp
    · rw [Function.update_of_ne htag]
  · exact le_rfl

/-- A call on its way: it owes what is left of its answer for whatever counts as recent,
as long as that includes everything since it began. -/
structure OnTrack (setting : Setting) (shared : Shared) (acknowledged : String → Nat)
    (running : Running) (obtained : Option (String × Bytes)) : Prop where
  base : ∀ tag, running.base tag ≤ acknowledged tag
  sourced : Sourced shared.log running.source obtained
  sealed : Sealed running.program ∨ ∃ outcome, running.program = .done outcome
  follows : ∀ sees, Proper sees →
    (∀ tag metadata, Newer setting.provider.codec shared.log running.base tag metadata →
      sees tag metadata) →
    Follows setting sees (Known running.base) (Answered sees (Known running.base) running.call)
      running.program obtained

/-- Nothing the other calls do takes a call off its track. -/
theorem OnTrack.grow {running : Running} {obtained : Option (String × Bytes)}
    (h : OnTrack setting shared acknowledged running obtained)
    (hlog : log = shared.log ++ more) (hle : ∀ tag, acknowledged tag ≤ later tag) :
    OnTrack setting ⟨log, cache⟩ later running obtained := by
  subst hlog
  exact ⟨fun tag => (h.base tag).trans (hle tag), h.sourced.grow _, h.sealed,
    fun sees hproper hsees => h.follows sees hproper fun _ _ hnewer => hsees _ _ (hnewer.grow _)⟩

structure Steady (setting : Setting) (traffic : Traffic) : Prop where
  sound : Sound setting traffic.shared traffic.acknowledged
  calls : ∀ running ∈ traffic.calls,
    ∃ obtained, OnTrack setting traffic.shared traffic.acknowledged running obtained

variable {traffic : Traffic}

theorem Steady.begin (h : Steady setting traffic) (hcodec : KeepsManifests setting.provider.codec)
    {call : Call} (hplain : Plain setting call) :
    Steady setting { traffic with
      calls := traffic.calls ++
        [{ call, program := call.program setting, base := traffic.acknowledged }] } := by
  refine ⟨h.sound, fun running hrunning => ?_⟩
  rcases List.mem_append.mp hrunning with hbefore | hnew
  · exact h.calls running hbefore
  · obtain rfl := List.mem_singleton.mp hnew
    exact ⟨none, fun _ => le_rfl, ⟨nofun, nofun⟩, .inl (program_sealed setting call),
      fun sees hproper _ => program_follows hcodec hproper call hplain⟩

/-- What the step does to the log, the cache and the acknowledgements. -/
theorem move_sound (h : Sound setting shared acknowledged) {operation : ProviderCall β}
    {next : β → ProviderProgram Outcome} {before : Option (String × Nat)}
    {obtained : Option (String × Bytes)} (hsourced : Sourced shared.log before obtained)
    (howed : Owed setting operation obtained) (hsealed : Sealed (.call operation next))
    (htimely : ∀ tag place, remembers (.call operation next) = some tag →
      before = some (tag, place) → acknowledged tag ≤ place + 1) (verdict : Verdict) :
    Sound setting (serve setting operation verdict shared).2
      (acknowledge (next (serve setting operation verdict shared).1)
        (source setting verdict shared operation before) acknowledged) := by
  have hserved := serve_sound h hsourced howed htimely verdict
  unfold acknowledge
  split
  · rename_i metadata tag place hdone hsource
    rcases hsealed.step (serve setting operation verdict shared).1 with hnext | ⟨tag', hremembers⟩
    · rw [hdone] at hnext
      exact absurd rfl (hnext metadata)
    · cases operation with
      | remember _ record =>
        obtain ⟨body, hobtained, hdecode⟩ := howed
        obtain ⟨place', hsource', hplace⟩ := hsourced.matching _ body hobtained
        obtain ⟨rfl, rfl⟩ := Prod.mk.inj (Option.some.inj (hsource'.symm.trans hsource))
        exact remember_sound h hplace hdecode (htimely _ _ rfl hsource')
      | cached _ | getManifest _ | putManifest _ _ | getBlob _ | putBlob _ _ _ | listTags _ _ |
        nowMillis => cases hremembers
  · exact hserved

theorem Steady.move (h : Steady setting traffic)
    (hplace : traffic.calls[place]? = some running)
    {operation : ProviderCall β} {next : β → ProviderProgram Outcome}
    (hprogram : running.program = .call operation next)
    (htimely : ∀ tag place', remembers running.program = some tag →
      running.source = some (tag, place') → traffic.acknowledged tag ≤ place' + 1)
    (verdict : Verdict) :
    Steady setting
      { shared := (serve setting operation verdict traffic.shared).2
        acknowledged := acknowledge (next (serve setting operation verdict traffic.shared).1)
          (source setting verdict traffic.shared operation running.source) traffic.acknowledged
        calls := traffic.calls.set place
          { running with
            program := next (serve setting operation verdict traffic.shared).1
            source := source setting verdict traffic.shared operation running.source } } := by
  obtain ⟨obtained, htrack⟩ := h.calls running (List.mem_of_getElem? hplace)
  obtain ⟨hbase, hsourced, hsealed, hfollows⟩ := htrack
  rw [hprogram] at hsealed hfollows htimely
  have hsealed : Sealed (.call operation next) := hsealed.resolve_right fun ⟨_, h⟩ => by cases h
  have hproper := h.sound.ours.proper running.base
  have howed := (hfollows _ hproper fun _ _ hnewer => hnewer).1
  obtain ⟨more, hmore⟩ := @serve_log setting traffic.shared _ operation verdict
  refine ⟨move_sound h.sound hsourced howed hsealed htimely verdict, fun other hother => ?_⟩
  rcases mem_set_cases hother with rfl | ⟨_, _, hother⟩
  · refine ⟨_, fun tag => (hbase tag).trans (acknowledge_le ..),
      serve_sourced hsourced howed verdict, ?_, fun sees hsees hnewer => ?_⟩
    · rcases hsealed.step (serve setting operation verdict traffic.shared).1 with hnext | ⟨tag, hremembers⟩
      · exact .inl hnext
      · cases operation with
        | remember _ _ => exact hsealed.symm
        | cached _ | getManifest _ | putManifest _ _ | getBlob _ | putBlob _ _ _ | listTags _ _ |
          nowMillis => cases hremembers
    · have hgrown : ∀ tag metadata,
          Newer setting.provider.codec traffic.shared.log running.base tag metadata →
            sees tag metadata := fun tag metadata hold => hnewer _ _ (by
        dsimp only
        rw [hmore]
        exact hold.grow more)
      exact (hfollows sees hsees hgrown).2 _
        ((serve_fresh h.sound hbase howed verdict).mono hgrown)
  · obtain ⟨obtained, htrack⟩ := h.calls other (List.mem_of_getElem? hother)
    exact ⟨obtained, htrack.grow hmore fun tag => acknowledge_le ..⟩

theorem Steady.step (hcodec : KeepsManifests setting.provider.codec) (h : Steady setting traffic)
    (htimely : Timely setting traffic event)
    (hstep : traffic.step setting event = some next) : Steady setting next := by
  cases event with
  | begin call =>
    obtain rfl := Option.some.inj hstep
    exact h.begin hcodec htimely
  | move place verdict =>
    dsimp only [Traffic.step] at hstep
    split at hstep
    · cases hstep
    · rename_i running hplace
      split at hstep
      · cases hstep
      · cases hstep
      · rename_i operation rest hprogram
        obtain rfl := Option.some.inj hstep
        exact h.move hplace hprogram
          (fun tag place' => htimely running tag place' hplace) verdict

end Step

/-- In a run whose records are remembered in time, every call that has ended saw, of each
object, a record no older than what was acknowledged when the call began. -/
theorem later_calls_see_newer {setting : Setting} (hcodec : KeepsManifests setting.provider.codec)
    {log : List (String × Bytes)} (hours : Ours setting.provider.codec log) {traffic : Traffic}
    (h : Reaches (Traffic.step setting) (Timely setting) { shared := ⟨log, {}⟩ } traffic)
    {running : Running} (hrunning : running ∈ traffic.calls)
    {result : Except LiveError Outcome} (hresult : running.program.outcome = some result) :
    Answered (Newer setting.provider.codec traffic.shared.log running.base) (Known running.base)
      running.call result := by
  have hstart : Steady setting { shared := ⟨log, {}⟩ } :=
    ⟨⟨hours, fun _ hknown => absurd hknown (lt_irrefl _), fun _ hentry => absurd hentry List.not_mem_nil⟩,
      fun _ hcall => absurd hcall List.not_mem_nil⟩
  have hsteady : Steady setting traffic :=
    h.invariant hstart fun _ _ _ hbefore hallowed hstep => hbefore.step hcodec hallowed hstep
  obtain ⟨obtained, htrack⟩ := hsteady.calls running hrunning
  have hfollows := htrack.follows _ (hsteady.sound.ours.proper _) fun _ _ hnewer => hnewer
  cases hprogram : running.program with
  | done value =>
    rw [hprogram] at hfollows hresult
    exact Option.some.inj hresult ▸ hfollows
  | fail error =>
    rw [hprogram] at hfollows hresult
    exact Option.some.inj hresult ▸ hfollows
  | call operation next =>
    rw [hprogram] at hresult
    cases hresult

/-! A serializer that spells the manifests it is given as they are spelled. -/

def objectOf (document : Json) : Option ObjectMetadata :=
  (decodeManifest ⟨fun _ => [], fun _ => .ok document⟩ []).toOption

def listedCodec (known : List (ObjectMetadata × Bytes)) : JsonCodec where
  toVec json :=
    match objectOf json with
    | none => []
    | some metadata => match known.lookup metadata with
      | some text => text
      | none => List.replicate (Encodable.encode metadata) 0
  fromSlice bytes :=
    match known.find? fun entry => entry.2 = bytes with
    | some entry => .ok (manifestDocument entry.1)
    | none => match Encodable.decode bytes.length with
      | some metadata => .ok (manifestDocument metadata)
      | none => .error "expected value at line 1 column 1"

theorem listedCodec_keeps {known : List (ObjectMetadata × Bytes)}
    (hdistinct : ∀ entry ∈ known, known.find? (fun other => other.2 = entry.2) = some entry)
    (htext : ∀ entry ∈ known, ∃ byte ∈ entry.2, byte ≠ 0) : KeepsManifests (listedCodec known) := by
  intro metadata hsize hcreated
  have hobject : objectOf (manifestDocument metadata) = some metadata := by
    have hdecode : decodeManifest ⟨fun _ => [], fun _ => .ok (manifestDocument metadata)⟩ [] =
        .ok metadata :=
      @decodeManifest_encodeManifest ⟨fun _ => [], fun _ => .ok (manifestDocument metadata)⟩ metadata
        rfl hsize hcreated
    rw [objectOf, hdecode]
    rfl
  simp only [JsonCodec.Keeps, listedCodec, hobject]
  cases hknown : known.lookup metadata with
  | some text =>
    obtain ⟨first, last, hsplit, _⟩ := List.lookup_eq_some_iff.mp hknown
    simp only [hdistinct (metadata, text) (by simp [hsplit])]
  | none =>
    have hnone : known.find? (fun entry =>
        entry.2 = List.replicate (Encodable.encode metadata) (0 : UInt8)) = none := by
      rw [List.find?_eq_none]
      intro entry hentry heq
      obtain ⟨byte, hbyte, hne⟩ := htext entry hentry
      rw [of_decide_eq_true heq] at hbyte
      exact hne (List.eq_of_mem_replicate hbyte)
    simp only [hnone, List.length_replicate, Encodable.encodek]

open DiskStore (emptyHash emptyFile)

def emptyId : String := emptyFile.id

def manifestText (filename : String) : Bytes := Utf8.encode <|
  "\x7b\"annotations\":\x7b\"dev.hologram.created-at-millis\":\"5\"," ++
  "\"dev.hologram.filename\":\"" ++ filename ++ "\",\"dev.hologram.kind\":\"file\"\x7d," ++
  "\"artifactType\":\"application/vnd.hologram.object.v1+json\"," ++
  "\"config\":\x7b\"digest\":\"" ++ emptyId ++
  "\",\"mediaType\":\"application/vnd.oci.empty.v1+json\",\"size\":0\x7d," ++
  "\"layers\":[\x7b\"digest\":\"" ++ emptyId ++ "\",\"mediaType\":\"text/plain\",\"size\":0\x7d]," ++
  "\"mediaType\":\"application/vnd.oci.image.manifest.v1+json\",\"schemaVersion\":2," ++
  "\"subject\":\x7b\"digest\":\"" ++ emptyId ++
  "\",\"mediaType\":\"text/plain\",\"size\":0\x7d\x7d"

def renamedFile : ObjectMetadata := { emptyFile with filename := some "new.txt" }

def sampleCodec : JsonCodec :=
  listedCodec [(emptyFile, manifestText "empty.txt"), (renamedFile, manifestText "new.txt")]

/-- A provider before a registry that reaches every tag under its own name. -/
def sampleSetting : Setting where
  provider :=
    ⟨⟨fun _ _ => .unreachable "", fun _ => .unreachable ""⟩, sampleCodec, fun reading => reading, 20⟩
  blake3 _ := emptyHash
  addressed tag := tag
  legal _ _ := rfl

def stored : Traffic := { shared := ⟨[(tagFor emptyId, manifestText "empty.txt")], {}⟩ }

def moves (place steps : Nat) : List Event :=
  List.replicate steps (.move place { content := .answer ⟨200, "200 OK"⟩ "" (.ok []) })

/-- The first reader fetches the record, the rename comes and goes, and then the reader
stores what it fetched. -/
def overtaken : List Event :=
  [Event.begin (.get emptyId)] ++ moves 0 2 ++ [Event.begin (.rename emptyId "new.txt")] ++
    moves 1 5 ++ moves 0 1 ++ [Event.begin (.get emptyId)] ++ moves 2 2

theorem sampleCodec_reads :
    decodeManifest sampleCodec (manifestText "empty.txt") = .ok emptyFile ∧
      decodeManifest sampleCodec (manifestText "new.txt") = .ok renamedFile := by
  decide +kernel

theorem sampleCodec_keeps : KeepsManifests sampleCodec := by
  apply listedCodec_keeps
  · decide +kernel
  · have hbrace : ∀ entry ∈ [(emptyFile, manifestText "empty.txt"),
        (renamedFile, manifestText "new.txt")], (0x7b : UInt8) ∈ entry.2 := by decide
    exact fun entry hentry => ⟨0x7b, hbrace entry hentry, by decide⟩

theorem stored_ours : Ours sampleCodec stored.shared.log := by
  intro entry hentry
  obtain rfl := List.mem_singleton.mp hentry
  exact ⟨emptyFile, sampleCodec_reads.1, rfl⟩

theorem outcome_of_toOption {outcome : Option (Except LiveError Outcome)}
    (h : outcome.bind Except.toOption = some value) : outcome = some (.ok value) := by
  obtain ⟨result, rfl, hresult⟩ := Option.bind_eq_some_iff.mp h
  cases result with
  | error error => cases hresult
  | ok found => rw [Option.some.inj hresult]

/-- The last reader begins after the rename has returned and is shown the old name. -/
theorem rename_overtaken :
    ∃ traffic, ∃ running : Running,
      Reaches (Traffic.step sampleSetting) (fun _ _ => True) stored traffic ∧
      traffic.calls[2]? = some running ∧ running.call = .get emptyId ∧
      running.base (tagFor emptyId) = 2 ∧
      running.program.outcome = some (.ok (.got ⟨emptyFile, []⟩)) ∧
      ¬ Newer sampleCodec traffic.shared.log running.base (tagFor emptyId) emptyFile := by
  have hends : (run (Traffic.step sampleSetting) overtaken stored).map
      (fun traffic => (traffic.shared.log, traffic.calls[2]?.map fun running : Running =>
        (running.call, running.base (tagFor emptyId),
          running.program.outcome.bind Except.toOption))) =
      some ([(tagFor emptyId, manifestText "empty.txt"), (tagFor emptyId, manifestText "new.txt")],
        some (.get emptyId, 2, some (.got ⟨emptyFile, []⟩))) := by decide +kernel
  obtain ⟨traffic, hrun, hlast⟩ := Option.map_eq_some_iff.mp hends
  obtain ⟨hlog, hcall⟩ := Prod.mk.inj hlast
  obtain ⟨running, hrunning, hfacts⟩ := Option.map_eq_some_iff.mp hcall
  obtain ⟨hget, hbase, houtcome⟩ : running.call = .get emptyId ∧
      running.base (tagFor emptyId) = 2 ∧
        running.program.outcome.bind Except.toOption = some (.got ⟨emptyFile, []⟩) := by
    simpa using hfacts
  refine ⟨traffic, running, Reaches.start.run hrun, hrunning, hget, hbase,
    outcome_of_toOption houtcome, ?_⟩
  rintro ⟨place, body, hplace, hnewer, hdecode⟩
  rw [hbase] at hnewer
  rw [hlog] at hplace
  obtain rfl : place = 1 := by
    have := (List.getElem?_eq_some_iff.mp hplace).1
    simp only [List.length_cons, List.length_nil] at this
    omega
  simp only [List.getElem?_cons_succ, List.getElem?_cons_zero, Option.some.injEq,
    Prod.mk.injEq, true_and] at hplace
  rw [← hplace, sampleCodec_reads.2] at hdecode
  exact absurd (Except.ok.inj hdecode) (by decide)

/-- The same calls, one after the other. -/
def orderly : List Event :=
  [Event.begin (.get emptyId)] ++ moves 0 4 ++ [Event.begin (.rename emptyId "new.txt")] ++
    moves 1 3 ++ [Event.begin (.get emptyId)] ++ moves 2 2

def inTime (traffic : Traffic) : Event → Bool
  | .begin _ => true
  | .move place _ =>
    match traffic.calls[place]? with
    | none => true
    | some running =>
      match remembers running.program, running.source with
      | some _, some (tag, place') => traffic.acknowledged tag ≤ place' + 1
      | _, _ => true

theorem inTime_timely (traffic : Traffic) (event : Event) (h : inTime traffic event = true) :
    Timely sampleSetting traffic event := by
  cases event with
  | begin call =>
    cases call with
    | get id => exact rfl
    | rename id filename => exact rfl
    | put kind mediaType filename bytes => trivial
    | search query => trivial
  | move place verdict =>
    intro running tag place' hplace hremembers hsource
    simpa [inTime, hplace, hremembers, hsource] using h

theorem later_calls_see_newer_orderly :
    ∃ (traffic : Traffic) (running : Running), traffic.calls[2]? = some running ∧
      running.base (tagFor emptyId) = 2 ∧
      Answered (Newer sampleCodec traffic.shared.log running.base) (Known running.base)
        running.call (.ok (.got ⟨renamedFile, []⟩)) := by
  have hends : (checked (Traffic.step sampleSetting) inTime orderly stored).map
      (fun traffic => traffic.calls[2]?.map fun running : Running =>
        (running.base (tagFor emptyId), running.program.outcome.bind Except.toOption)) =
      some (some (2, some (.got ⟨renamedFile, []⟩))) := by decide +kernel
  obtain ⟨traffic, hrun, hcall⟩ := Option.map_eq_some_iff.mp hends
  obtain ⟨running, hrunning, hfacts⟩ := Option.map_eq_some_iff.mp hcall
  obtain ⟨hbase, houtcome⟩ := Prod.mk.inj hfacts
  have hreaches : Reaches (Traffic.step sampleSetting) (Timely sampleSetting)
      { shared := ⟨[(tagFor emptyId, manifestText "empty.txt")], {}⟩ } traffic :=
    Reaches.start.checked inTime_timely hrun
  exact ⟨traffic, running, hrunning, hbase, later_calls_see_newer sampleCodec_keeps stored_ours
    hreaches (List.mem_of_getElem? hrunning) (outcome_of_toOption houtcome)⟩

end HologramLive.Registry.KappaSteps
