import HologramLive.Lib.Sequence
import HologramLive.Registry.KappaCoherence
import HologramLive.Registry.Provider

/-! The creation times a registry has on record, and what one provider's calls make of
them. -/

namespace HologramLive.Registry.KappaSteps
open Lib Lib.Sequence KappaClient Kappa KappaScan Store

/-- The time on record under a tag. -/
def timeOf (setting : Setting) (shared : Shared) (tag : String) : Option Nat :=
  (shared.manifest tag).bind fun body =>
    (decodeManifest setting.provider.codec body).toOption.map ObjectMetadata.createdAtMillis

/-- A record as the registry holds it, for a tag whose URL reaches its manifest. -/
structure Held (setting : Setting) (shared : Shared) (tag : String) (metadata : ObjectMetadata) :
    Prop where
  place : setting.addressed tag = tagFor metadata.id
  ours : kappaFor (tagFor metadata.id) = some metadata.id
  time : timeOf setting shared (tagFor metadata.id) = some metadata.createdAtMillis
  size : metadata.size < 2 ^ 64
  millis : metadata.createdAtMillis < 2 ^ 64

/-- Every manifest is under the tag of the object it describes, and the cache holds
records with the times they have on record. -/
structure Filed (setting : Setting) (shared : Shared) : Prop where
  manifests : ∀ tag body metadata, shared.manifest tag = some body →
    decodeManifest setting.provider.codec body = .ok metadata → kappaFor tag = some metadata.id
  cached : ∀ entry ∈ shared.cache.entries, Held setting shared entry.1 entry.2.1

section Log
variable {log : List (String × Bytes)} {shared : Shared} {setting : Setting}

theorem current_push (log : List (String × Bytes)) (pushed tag : String) (body : Bytes) :
    Shared.current (log ++ [(pushed, body)]) tag =
      if tag = pushed then some log.length else Shared.current log tag := by
  induction log with
  | nil =>
    by_cases htag : tag = pushed
    · simp [Shared.current, htag]
    · simp [Shared.current, htag, Ne.symm htag]
  | cons entry rest ih =>
    rw [List.cons_append, Shared.current, ih, Shared.current]
    by_cases htag : tag = pushed <;> simp [htag]

/-- The manifest that was put last is the current one of its tag. -/
theorem manifest_push (shared : Shared) (pushed tag : String) (body : Bytes) :
    Shared.manifest { shared with log := shared.log ++ [(pushed, body)] } tag =
      if tag = pushed then some body else shared.manifest tag := by
  rw [Shared.manifest, current_push]
  by_cases htag : tag = pushed
  · simp [htag]
  · rw [if_neg htag, if_neg htag, Shared.manifest]
    cases hcurrent : Shared.current shared.log tag with
    | none => rfl
    | some place =>
      obtain ⟨⟨found, hfound⟩, _⟩ := current_some hcurrent
      have hlt := (List.getElem?_eq_some_iff.mp hfound).1
      rw [Option.bind_some, Option.bind_some, List.getElem?_append_left hlt]

theorem timeOf_congr {shared' : Shared} (h : shared'.log = shared.log) (tag : String) :
    timeOf setting shared' tag = timeOf setting shared tag := by
  rw [timeOf, timeOf, Shared.manifest, Shared.manifest, h]

theorem Held.congr {shared' : Shared} (h : Held setting shared tag metadata)
    (hlog : shared'.log = shared.log) : Held setting shared' tag metadata :=
  ⟨h.place, h.ours, (timeOf_congr hlog _).trans h.time, h.size, h.millis⟩

theorem Filed.withCache (h : Filed setting shared) {cache : Cache}
    (hcache : ∀ entry ∈ cache.entries, Held setting shared entry.1 entry.2.1) :
    Filed setting { shared with cache } where
  manifests := h.manifests
  cached entry hentry := (hcache entry hentry).congr rfl

/-- What is read of a manifest is held. -/
theorem Filed.read {body : Bytes} {metadata : ObjectMetadata} (h : Filed setting shared)
    (hmanifest : shared.manifest (setting.addressed tag) = some body)
    (hdecode : decodeManifest setting.provider.codec body = .ok metadata) :
    Held setting shared tag metadata := by
  have hours := h.manifests _ body metadata hmanifest hdecode
  have htag := tagFor_kappaFor hours
  obtain ⟨hsize, hmillis⟩ := decodeManifest_fits hdecode
  refine ⟨htag.symm, by rw [htag, hours], ?_, hsize, hmillis⟩
  rw [htag, timeOf, hmanifest, Option.bind_some, hdecode]
  rfl

theorem Filed.remember (h : Filed setting shared) (hheld : Held setting shared tag metadata) :
    Filed setting
      { shared with cache := setting.provider.remember tag metadata shared.cache } := by
  refine h.withCache fun entry hentry => ?_
  rcases mem_remember hentry with ⟨htag, hmetadata⟩ | ⟨_, hkept⟩
  · rw [htag, hmetadata]
    exact hheld
  · exact h.cached entry hkept

/-- A tag of ours whose record is that of another id there is. -/
theorem Held.id_eq {id : String} (h : Held setting shared (tagFor id) metadata)
    (hours : kappaFor (tagFor id) = some id) : metadata.id = id := by
  have hplace := setting.legal (tagFor id) (by simp [hours])
  have htag : tagFor id = tagFor metadata.id := hplace.symm.trans h.place
  have := h.ours
  rw [← htag, hours] at this
  exact (Option.some.inj this).symm

/-- Where a record is put under its own tag with the time on record, all others stay. -/
theorem Filed.push {metadata : ObjectMetadata} {body : Bytes} (h : Filed setting shared)
    (hdecode : decodeManifest setting.provider.codec body = .ok metadata)
    (hours : kappaFor (tagFor metadata.id) = some metadata.id)
    (htime : ∀ time, timeOf setting shared (tagFor metadata.id) = some time →
      metadata.createdAtMillis = time) :
    let after : Shared := { shared with log := shared.log ++ [(tagFor metadata.id, body)] }
    Filed setting after ∧
      timeOf setting after (tagFor metadata.id) = some metadata.createdAtMillis ∧
      ∀ tag time, timeOf setting shared tag = some time → timeOf setting after tag = some time := by
  intro after
  have hnew : timeOf setting after (tagFor metadata.id) = some metadata.createdAtMillis := by
    rw [timeOf, manifest_push, if_pos rfl, Option.bind_some, hdecode]
    rfl
  have hkeeps : ∀ tag time, timeOf setting shared tag = some time →
      timeOf setting after tag = some time := by
    intro tag time hold
    by_cases htag : tag = tagFor metadata.id
    · subst htag
      rw [hnew, htime time hold]
    · rw [timeOf, manifest_push, if_neg htag]
      exact hold
  refine ⟨⟨fun tag found record hmanifest hrecord => ?_, fun entry hentry => ?_⟩, hnew, hkeeps⟩
  · rw [manifest_push] at hmanifest
    split at hmanifest
    · rename_i htag
      obtain rfl := Option.some.inj hmanifest
      obtain rfl : metadata = record := Except.ok.inj (hdecode.symm.trans hrecord)
      rw [htag, hours]
    · exact h.manifests tag found record hmanifest hrecord
  · have hheld := h.cached entry hentry
    exact ⟨hheld.place, hheld.ours, hkeeps _ _ hheld.time, hheld.size, hheld.millis⟩

end Log

/-- The clock reading that a put takes for its object's creation time is the time on record,
if there is one. -/
def Dated (setting : Setting) (request : Request) (base : Shared) :
    ∀ {β : Type}, ProviderCall β → Verdict → Shared → Prop
  | _, .nowMillis, verdict, _ =>
    match request with
    | .putObject _ _ _ bytes => ∀ time,
      timeOf setting base (tagFor (address setting.blake3 bytes)) = some time →
        verdict.millis.toNat = time
    | _ => True
  | _, _, _, _ => True

section Calls
variable {setting : Setting} {request : Request} {base shared : Shared}

/-- The registry's manifests are as they were. -/
structure Reads (setting : Setting) (before after : Shared) : Prop where
  filed : Filed setting after
  log : after.log = before.log

theorem Reads.timeOf_eq (h : Reads setting base shared) (tag : String) :
    timeOf setting shared tag = timeOf setting base tag := timeOf_congr h.log tag

/-- What was not there to read has no time on record. -/
theorem metadataByTag_meets (h : Reads setting base shared) (tag : String) :
    (metadataByTag setting.provider.codec tag).Meets (serve setting) (Dated setting request base)
      (fun result after => Reads setting base after ∧
        ∀ metadata, result = .ok (some metadata) → Held setting after tag metadata) shared := by
  unfold metadataByTag
  intro verdict _
  have hfiled : Filed setting { shared with cache := (setting.provider.cached tag shared.cache).2 } := by
    refine h.filed.withCache fun entry hentry => ?_
    rw [cached_entries] at hentry
    exact h.filed.cached entry hentry
  have hreads := Reads.mk hfiled h.log
  simp only [serve]
  cases hcached : (setting.provider.cached tag shared.cache).1 with
  | some metadata =>
    refine ⟨hreads, fun found hfound => ?_⟩
    obtain rfl := Option.some.inj (Except.ok.inj hfound)
    obtain ⟨stored, hmem⟩ := cached_mem hcached
    exact (h.filed.cached _ hmem).congr rfl
  | none =>
    intro verdict _
    simp only [serve]
    rcases getManifest_cases
        { shared with cache := (setting.provider.cached tag shared.cache).2 }
        setting.addressed verdict.trouble tag with ⟨error, hreply, _⟩ | hreply
    · rw [hreply]
      exact ⟨hreads, fun _ hfound => by cases hfound⟩
    · rw [hreply]
      cases hmanifest : Shared.manifest
          { shared with cache := (setting.provider.cached tag shared.cache).2 }
          (setting.addressed tag) with
      | none => exact ⟨hreads, fun _ hfound => by cases hfound⟩
      | some body =>
        dsimp only
        cases hdecode : decodeManifest setting.provider.codec body with
        | error error => exact ⟨hreads, fun _ hfound => by cases hfound⟩
        | ok metadata =>
          intro verdict _
          have hheld := hfiled.read hmanifest hdecode
          refine ⟨⟨hfiled.remember hheld, h.log⟩, fun found hfound => ?_⟩
          obtain rfl := Option.some.inj (Except.ok.inj hfound)
          exact hheld.congr rfl

/-- A record that goes under its own tag with the time on record. -/
structure Stored (setting : Setting) (base : Shared) (tag : String) (metadata : ObjectMetadata) :
    Prop where
  place : setting.addressed tag = tagFor metadata.id
  ours : kappaFor (tagFor metadata.id) = some metadata.id
  time : ∀ time, timeOf setting base (tagFor metadata.id) = some time →
    metadata.createdAtMillis = time
  size : metadata.size < 2 ^ 64
  millis : metadata.createdAtMillis < 2 ^ 64

/-- The times on record stay, those of the objects shown among them. -/
abbrev KeepsTimes (setting : Setting) (base : Shared) : Except LiveError Answer → Shared → Prop :=
  Keeps Answer.times (fun shared id => timeOf setting shared (tagFor id)) (Filed setting) base

theorem Reads.keeps (h : Reads setting base shared) {result : Except LiveError Answer}
    (hshown : ∀ answer, result = .ok answer → ∀ metadata ∈ answer.objects,
      timeOf setting shared (tagFor metadata.id) = some metadata.createdAtMillis) :
    KeepsTimes setting base result shared := by
  refine ⟨h.filed, fun id time hold => (h.timeOf_eq _).trans hold, ?_⟩
  intro answer hanswer shown hmem
  obtain ⟨metadata, hmetadata, rfl⟩ := List.mem_map.mp hmem
  exact hshown answer hanswer metadata hmetadata

theorem Reads.fails (h : Reads setting base shared) (error : LiveError) :
    KeepsTimes setting base (.error error) shared :=
  h.keeps fun _ hanswer => by cases hanswer

theorem publish_meets (hcodec : KeepsManifests setting.provider.codec)
    (h : Reads setting base shared) {tag : String} {metadata : ObjectMetadata}
    (hstored : Stored setting base tag metadata) :
    (publish setting.provider.codec tag metadata >>= fun metadata =>
      .done (.wrote metadata)).Meets (serve setting) (Dated setting request base)
        (KeepsTimes setting base) shared := by
  have hdecode := decodeManifest_encodeManifest
    (hcodec metadata hstored.size hstored.millis) hstored.size hstored.millis
  obtain ⟨hfiled, hnew, hkeeps⟩ := h.filed.push hdecode hstored.ours fun time htime =>
    hstored.time time ((h.timeOf_eq _).symm.trans htime)
  unfold publish
  intro verdict _
  simp only [serve]
  cases hreply : acknowledged s!"put manifest {tag}" verdict.trouble with
  | error error =>
    -- A manifest that was not acknowledged may have landed all the same.
    by_cases hlands : lands verdict s!"put manifest {tag}" = true
    · rw [if_pos hlands, hstored.place]
      refine ⟨hfiled, fun id time hold => hkeeps _ _ ((h.timeOf_eq _).trans hold), ?_⟩
      intro _ hanswer
      cases hanswer
    · rw [if_neg hlands]
      exact h.fails error
  | ok _ =>
    have hlands : lands verdict s!"put manifest {tag}" = true := by
      rw [lands, hreply]
    rw [if_pos hlands, hstored.place]
    intro verdict _
    have hheld : Held setting
        { shared with log := shared.log ++
          [(tagFor metadata.id, encodeManifest setting.provider.codec metadata)] } tag metadata :=
      ⟨hstored.place, hstored.ours, hnew, hstored.size, hstored.millis⟩
    refine ⟨hfiled.remember hheld, fun id time hold => ?_, fun answer hanswer shown hshown => ?_⟩
    · exact hkeeps _ _ ((h.timeOf_eq _).trans hold)
    · obtain rfl := Except.ok.inj hanswer
      obtain rfl := List.mem_singleton.mp hshown
      exact hnew

/-- The time a put goes by: the one on record where there is one. -/
theorem createdAt_meets {kind mediaType : String} {filename : Option String} {bytes : Bytes}
    (h : Reads setting base shared) {existing : Except LiveError (Option ObjectMetadata)}
    (hexisting : ∀ metadata, existing = .ok (some metadata) →
      Held setting shared (tagFor (address setting.blake3 bytes)) metadata) :
    (createdAt existing).Meets (serve setting)
      (Dated setting (.putObject kind mediaType filename bytes) base)
      (fun result after => Reads setting base after ∧ ∃ created, result = .ok created ∧
        created < 2 ^ 64 ∧ ∀ time,
          timeOf setting base (tagFor (address setting.blake3 bytes)) = some time →
            created = time) shared := by
  have hclock : (Program.call .nowMillis fun now => .done now.toNat :
      ProviderProgram Nat).Meets (serve setting)
      (Dated setting (.putObject kind mediaType filename bytes) base)
      (fun result after => Reads setting base after ∧ ∃ created, result = .ok created ∧
        created < 2 ^ 64 ∧ ∀ time,
          timeOf setting base (tagFor (address setting.blake3 bytes)) = some time →
            created = time) shared :=
    fun verdict hdated => ⟨h, _, rfl, verdict.millis.toNat_lt, hdated⟩
  unfold createdAt
  split
  · rename_i metadata
    have hheld := hexisting metadata rfl
    have hours := kappaFor_address setting.blake3 bytes
    refine ⟨h, _, rfl, hheld.millis, fun time htime => ?_⟩
    have hrecord := hheld.time
    rw [hheld.id_eq hours, h.timeOf_eq, htime] at hrecord
    exact (Option.some.inj hrecord).symm
  · exact hclock

theorem putObject_meets (hcodec : KeepsManifests setting.provider.codec)
    (h : Filed setting base) (kind mediaType : String) (filename : Option String)
    (bytes : Bytes) :
    (answer setting (.putObject kind mediaType filename bytes)).Meets (serve setting)
      (Dated setting (.putObject kind mediaType filename bytes) base) (KeepsTimes setting base)
      base := by
  have hours := kappaFor_address setting.blake3 bytes
  rw [answer, putObject, Program.bind_assoc]
  refine Program.Meets.bind _ (metadataByTag_meets ⟨h, rfl⟩ _).attempt ?_ ?_
  · rintro existing state ⟨_, ⟨⟩, hreads, hexisting⟩
    rw [Program.bind_assoc]
    refine Program.Meets.bind _ (createdAt_meets hreads hexisting) ?_ ?_
    · rintro created after ⟨hafter, _, ⟨⟩, hmillis, htime⟩
      intro verdict _
      simp only [serve]
      cases acknowledged s!"put blob {address setting.blake3 bytes}" verdict.trouble with
      | error error => exact hafter.fails error
      | ok _ =>
        refine publish_meets hcodec hafter ⟨?_, hours, htime, ?_, hmillis⟩
        · exact setting.legal _ (by simp [hours])
        · dsimp only
          omega
    · rintro error after ⟨_, _, ⟨⟩, _⟩
  · rintro error state ⟨_, ⟨⟩, _⟩

theorem renameFile_meets (hcodec : KeepsManifests setting.provider.codec)
    (h : Filed setting base) (id filename : String) :
    (answer setting (.renameFile id filename)).Meets (serve setting) (Dated setting request base)
      (KeepsTimes setting base) base := by
  rw [answer, renameFile, Program.bind_assoc]
  refine Program.Meets.bind _ (metadataByTag_meets ⟨h, rfl⟩ _) ?_ ?_
  · rintro found state ⟨hreads, hheld⟩
    cases found with
    | none => exact hreads.fails _
    | some metadata =>
      have hheld := hheld metadata rfl
      dsimp only
      split
      · exact hreads.fails _
      · refine publish_meets hcodec hreads
          ⟨hheld.place, hheld.ours, fun time htime => ?_, hheld.size, hheld.millis⟩
        have hrecord := hheld.time
        rw [hreads.timeOf_eq, htime] at hrecord
        exact (Option.some.inj hrecord).symm
  · rintro error state ⟨hreads, _⟩
    exact hreads.fails error

theorem getObject_meets (h : Filed setting base) (id : String) :
    (answer setting (.getObject id)).Meets (serve setting) (Dated setting request base)
      (KeepsTimes setting base) base := by
  rw [answer, getObject, Program.bind_assoc]
  refine Program.Meets.bind _ (metadataByTag_meets ⟨h, rfl⟩ _) ?_ ?_
  · rintro found state ⟨hreads, hheld⟩
    cases found with
    | none => exact hreads.fails _
    | some metadata =>
      intro verdict _
      simp only [serve]
      cases getBlob id verdict.content with
      | error error => exact hreads.fails error
      | ok bytes =>
        dsimp only
        cases verifyContent setting.blake3 id bytes with
        | error error => exact hreads.fails error
        | ok _ =>
          refine hreads.keeps fun answer hanswer shown hshown => ?_
          obtain rfl := Except.ok.inj hanswer
          obtain rfl := List.mem_singleton.mp hshown
          exact (hheld shown rfl).time
  · rintro error state ⟨hreads, _⟩
    exact hreads.fails error

/-- Objects that are each shown with the time on record. -/
def Dating (setting : Setting) (shared : Shared) (objects : List ObjectMetadata) : Prop :=
  ∀ metadata ∈ objects, timeOf setting shared (tagFor metadata.id) = some metadata.createdAtMillis

theorem Dating.congr {shared' : Shared} {objects : List ObjectMetadata}
    (h : Dating setting shared objects) (hlog : shared'.log = shared.log) :
    Dating setting shared' objects :=
  fun metadata hmem => (timeOf_congr hlog _).trans (h metadata hmem)

open KappaRegistryProvider (Progress)

def shownSoFar : Progress → List ObjectMetadata
  | .full objects => objects
  | .through objects => objects

theorem scanTags_meets (query : ObjectQuery) {tags : List String} {objects : List ObjectMetadata}
    (h : Reads setting base shared) (hobjects : Dating setting base objects) :
    (scanTags setting.provider.codec query tags objects).Meets (serve setting)
      (Dated setting request base)
      (fun result after => Reads setting base after ∧
        ∀ progress, result = .ok progress → Dating setting base (shownSoFar progress)) shared := by
  induction tags generalizing objects shared with
  | nil =>
    refine ⟨h, fun progress hprogress => ?_⟩
    obtain rfl := Except.ok.inj hprogress
    exact hobjects
  | cons tag rest ih =>
    rw [scanTags]
    split
    · exact ih h hobjects
    · refine Program.Meets.bind _ (metadataByTag_meets h tag) ?_ ?_
      · rintro found state ⟨hreads, hheld⟩
        cases found with
        | none => exact ih hreads hobjects
        | some metadata =>
          dsimp only
          split
          · exact ih hreads hobjects
          · split
            · refine ⟨hreads, fun progress hprogress => ?_⟩
              obtain rfl := Except.ok.inj hprogress
              exact hobjects
            · refine ih hreads fun shown hshown => ?_
              rcases List.mem_append.mp hshown with hbefore | hnew
              · exact hobjects shown hbefore
              · obtain rfl := List.mem_singleton.mp hnew
                exact (hreads.timeOf_eq _).symm.trans (hheld shown rfl).time
      · rintro error state ⟨hreads, _⟩
        exact ⟨hreads, fun _ hprogress => by cases hprogress⟩

theorem scanPages_meets (query : ObjectQuery) {left : Nat} {cursor : Option String}
    {objects : List ObjectMetadata} (h : Reads setting base shared)
    (hobjects : Dating setting base objects) :
    (scanPages setting.provider.codec query left cursor objects).Meets (serve setting)
      (Dated setting request base)
      (fun result after => Reads setting base after ∧
        ∀ page, result = .ok page → Dating setting base page.objects) shared := by
  have hended : ∀ {after : Shared} {shown : List ObjectMetadata} {next : Option String}
      {truncated : Bool}, Reads setting base after → Dating setting base shown →
      Reads setting base after ∧ ∀ page,
        (Except.ok ⟨shown, next, truncated⟩ : Except LiveError ObjectPage) = .ok page →
          Dating setting base page.objects := by
    intro after shown next truncated hafter hshown
    refine ⟨hafter, fun page hpage => ?_⟩
    obtain rfl := Except.ok.inj hpage
    exact hshown
  induction left generalizing cursor objects shared with
  | zero => exact hended h hobjects
  | succ left ih =>
    rw [scanPages]
    intro verdict _
    simp only [serve]
    cases KappaClient.listTags (shared.transport setting.addressed verdict.trouble)
        ObjectQuery.maxLimit cursor with
    | error error => exact ⟨h, fun _ hpage => by cases hpage⟩
    | ok page =>
      dsimp only
      split
      · exact hended h hobjects
      · refine Program.Meets.bind _ (scanTags_meets query h hobjects) ?_ ?_
        · rintro progress state ⟨hreads, hprogress⟩
          have hshown := hprogress progress rfl
          cases progress with
          | full shown => exact hended hreads hshown
          | through shown =>
            dsimp only
            split
            · exact ih hreads hshown
            · exact hended hreads hshown
        · rintro error state ⟨hreads, _⟩
          exact ⟨hreads, fun _ hpage => by cases hpage⟩

theorem search_meets (h : Filed setting base) (query : ObjectQuery) :
    (KappaSteps.search setting.provider.codec setting.provider.maxScanPages query).Meets
      (serve setting) (Dated setting request base)
      (fun result after => Reads setting base after ∧
        ∀ page, result = .ok page → Dating setting base page.objects) base :=
  scanPages_meets query ⟨h, rfl⟩ fun _ hmem => by cases hmem

/-- One call of the provider keeps the times on record, and shows no others. -/
theorem answer_meets (hcodec : KeepsManifests setting.provider.codec) (h : Filed setting base)
    (request : Request) :
    (answer setting request).Meets (serve setting) (Dated setting request base)
      (KeepsTimes setting base) base := by
  cases request with
  | putObject kind mediaType filename bytes =>
    exact putObject_meets hcodec h kind mediaType filename bytes
  | renameFile id filename => exact renameFile_meets hcodec h id filename
  | getObject id => exact getObject_meets h id
  | listObjects kind =>
    rw [answer, listObjects, Program.bind_assoc]
    refine Program.Meets.bind _ (search_meets h _) ?_ ?_
    · rintro page state ⟨hreads, hpage⟩
      refine hreads.keeps fun answer hanswer shown hshown => ?_
      obtain rfl := Except.ok.inj hanswer
      have hmem := (List.mem_insertionSort _).mp hshown
      exact (hpage page rfl).congr hreads.log shown hmem
    · rintro error state ⟨hreads, _⟩
      exact hreads.fails error
  | search query =>
    refine Program.Meets.bind _ (search_meets h query) ?_ ?_
    · rintro page state ⟨hreads, hpage⟩
      refine hreads.keeps fun answer hanswer shown hshown => ?_
      obtain rfl := Except.ok.inj hanswer
      exact (hpage page rfl).congr hreads.log shown hshown
    · rintro error state ⟨hreads, _⟩
      exact hreads.fails error

end Calls

end HologramLive.Registry.KappaSteps
