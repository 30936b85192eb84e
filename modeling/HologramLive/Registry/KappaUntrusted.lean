import HologramLive.Lib.Relying
import HologramLive.Registry.KappaCoherence
import HologramLive.Registry.Provider

/-! The provider before a registry that may answer anything to any request. -/

namespace HologramLive.Registry.KappaUntrusted
open Lib Lib.Interleaving Lib.Program Lib.Result KappaClient Kappa KappaScan KappaSteps Store

/-- What one request is answered with, and what the clock shows. -/
structure Served where
  manifest : Reply Bytes := .unreachable ""
  tags : Reply (List String) := .unreachable ""
  blob : Reply Bytes := .unreachable ""
  accepted : Except LiveError Unit := .ok ()
  millis : UInt64 := 0

def Served.transport (served : Served) : Transport where
  tagsList _ _ := served.tags
  manifest _ := served.manifest

def respond (provider : KappaRegistryProvider) : ∀ {β : Type}, ProviderCall β → Served → Cache →
    β × Cache
  | _, .cached tag, _, cache => provider.cached tag cache
  | _, .remember tag metadata, _, cache => ((), provider.remember tag metadata cache)
  | _, .getManifest tag, served, cache => (KappaClient.getManifest served.transport tag, cache)
  | _, .putManifest _ _, served, cache => (served.accepted, cache)
  | _, .getBlob kappa, served, cache => (KappaSteps.getBlob kappa served.blob, cache)
  | _, .putBlob _ _ _, served, cache => (served.accepted, cache)
  | _, .listTags limit last, served, cache =>
    (KappaClient.listTags served.transport limit last, cache)
  | _, .nowMillis, served, cache => (served.millis, cache)

/-- What a call has gone through: whether a request of its walk has failed, and the records
it came upon, each with the tag it looked up. -/
structure Own where
  request : Request
  troubled : Bool := false
  looked : List (String × ObjectMetadata) := []

def Own.after : ∀ {β : Type}, ProviderCall β → β → Own → Own
  | _, .cached tag, some metadata, own => { own with looked := (tag, metadata) :: own.looked }
  | _, .remember tag metadata, _, own => { own with looked := (tag, metadata) :: own.looked }
  | _, .getManifest _, .error _, own => { own with troubled := true }
  | _, .listTags _ _, .error _, own => { own with troubled := true }
  | _, _, _, own => own

abbrev ProviderTask := Task ProviderCall LiveError (Except LiveError Answer) Own

structure Traffic where
  cache : Cache := {}
  tasks : List ProviderTask := []

inductive Event where
  | begin (request : Request)
  | move (place : Nat) (served : Served)

def Traffic.step (setting : Setting) (traffic : Traffic) : Event → Option Traffic
  | .begin request =>
    some { traffic with
      tasks := traffic.tasks ++ [⟨(answer setting request).attempt, { request }⟩] }
  | .move place served =>
    match traffic.tasks[place]? with
    | none => none
    | some task =>
      match task.program with
      | .done _ => none
      | .fail _ => none
      | .call operation next =>
        let (reply, cache) := respond setting.provider operation served traffic.cache
        some { cache, tasks := traffic.tasks.set place ⟨next reply, task.own.after operation reply⟩ }

section Law
variable (setting : Setting)

/-- A record of the content that has the id. -/
def Describes (kappa : String) (metadata : ObjectMetadata) : Prop :=
  metadata.id = kappa ∧ ∀ bytes, address setting.blake3 bytes = kappa → metadata.size = bytes.length

/-- A record that may go under a tag: where that is an object's, one of that object. -/
def Fits (tag : String) (metadata : ObjectMetadata) : Prop :=
  ∀ kappa, kappaFor tag = some kappa → Describes setting kappa metadata

end Law

def scans : Request → Bool
  | .listObjects _ | .search _ => true
  | _ => false

section Condition
variable (setting : Setting)

/-- A manifest under an object's tag that is read as that object's, and can be read where it
comes up in a walk. -/
def Faithful (request : Request) : ∀ {β : Type}, ProviderCall β → β → Prop
  | _, .getManifest tag, .ok (some body) =>
    (∀ metadata, decodeManifest setting.provider.codec body = .ok metadata →
      Fits setting tag metadata) ∧
    (scans request = true → (kappaFor tag).isSome →
      ∃ metadata, decodeManifest setting.provider.codec body = .ok metadata)
  | _, _, _ => True

/-- The size that is recorded of stored bytes is that of all bytes with their hash. -/
def Sizeable : Request → Prop
  | .putObject _ _ _ bytes => ∀ other, address setting.blake3 other = address setting.blake3 bytes →
    min bytes.length (2 ^ 64 - 1) = other.length
  | _ => True

/-- What a step may bring in. -/
def Meets (traffic : Traffic) : Event → Prop
  | .begin request => Sizeable setting request
  | .move place served => ∀ task, traffic.tasks[place]? = some task →
    match task.program with
    | .call operation _ => Faithful setting task.own.request operation
        (respond setting.provider operation served traffic.cache).1
    | _ => True

end Condition

/-- What a call comes to: the content that was asked for under its own record, or records each
of which was found under its own tag; a walk fails only where a request of it has failed. -/
def Lawful (setting : Setting) (own : Own) (request : Request)
    (result : Except LiveError Answer) : Prop :=
  match request, result with
  | .getObject id, .ok (.got content) => content.metadata.id = id ∧
    address setting.blake3 content.bytes = id ∧ content.metadata.size = content.bytes.length
  | .listObjects _, .ok (.listed objects) => ∀ metadata ∈ objects,
    ∃ tag, (tag, metadata) ∈ own.looked ∧ kappaFor tag = some metadata.id
  | .search _, .ok (.found page) => ∀ metadata ∈ page.objects,
    ∃ tag, (tag, metadata) ∈ own.looked ∧ kappaFor tag = some metadata.id
  | .getObject _, .error _ => True
  | .listObjects _, .error _ => own.troubled = true
  | .search _, .error _ => own.troubled = true
  | .putObject _ _ _ _, _ => True
  | .renameFile _ _, _ => True
  | _, _ => False

section Contract
variable {setting : Setting}

def Sound (setting : Setting) (cache : Cache) : Prop :=
  ∀ entry ∈ cache.entries, Fits setting entry.1 entry.2.1

def obliged (setting : Setting) : ∀ {β : Type}, ProviderCall β → Prop
  | _, .remember tag metadata => Fits setting tag metadata
  | _, _ => True

theorem respond_sound {operation : ProviderCall β} {served : Served} {cache : Cache}
    (hcache : Sound setting cache) (hobliged : obliged setting operation) :
    Sound setting (respond setting.provider operation served cache).2 := by
  cases operation with
  | cached tag =>
    intro entry hentry
    rw [respond, cached_entries] at hentry
    exact hcache entry hentry
  | remember tag metadata =>
    intro entry hentry
    rcases mem_remember hentry with ⟨htag, hmetadata⟩ | ⟨-, hkept⟩
    · rw [htag, hmetadata]
      exact hobliged
    · exact hcache entry hkept
  | getManifest _ | putManifest _ _ | getBlob _ | putBlob _ _ _ | listTags _ _ | nowMillis =>
    exact hcache

/-- All calls keep the cache sound, and each relies on the others to do so. -/
def contract (setting : Setting) : Contract ProviderCall Cache Own where
  rely _ cache := Sound setting cache
  trans _ h := h
  obliged operation _ _ := obliged setting operation
  may operation own cache reply own' after := ∃ served,
    reply = (respond setting.provider operation served cache).1 ∧
    after = (respond setting.provider operation served cache).2 ∧
    own' = own.after operation reply ∧ Faithful setting own.request operation reply
  keeps := by
    rintro β operation own shared reply own' after hshared hobliged ⟨served, -, rfl, -, -⟩
    exact respond_sound hshared hobliged

/-- A call on its way forgets nothing. -/
structure Own.Grows (before after : Own) : Prop where
  request : after.request = before.request
  troubled : before.troubled = true → after.troubled = true
  looked : before.looked ⊆ after.looked

theorem Own.Grows.refl (own : Own) : own.Grows own := ⟨rfl, id, List.Subset.refl _⟩

theorem Own.Grows.trans {first second third : Own} (h : first.Grows second)
    (hafter : second.Grows third) : first.Grows third :=
  ⟨hafter.request.trans h.request, fun htroubled => hafter.troubled (h.troubled htroubled),
    List.Subset.trans h.looked hafter.looked⟩

theorem Own.after_grows (operation : ProviderCall β) (reply : β) (own : Own) :
    own.Grows (own.after operation reply) := by
  cases operation with
  | cached tag => cases reply <;> exact ⟨rfl, id, by simp [Own.after]⟩
  | remember tag metadata => exact ⟨rfl, id, by simp [Own.after]⟩
  | getManifest tag => cases reply <;> exact ⟨rfl, by simp [Own.after], List.Subset.refl _⟩
  | listTags limit last => cases reply <;> exact ⟨rfl, by simp [Own.after], List.Subset.refl _⟩
  | putManifest _ _ | getBlob _ | putBlob _ _ _ | nowMillis => exact .refl own

variable {own : Own} {cache : Cache} {post : Except LiveError α → Own → Prop}

/-- One call, with what the registry makes of it. -/
theorem concludes_call {operation : ProviderCall β} {next : β → ProviderProgram α}
    (hobliged : obliged setting operation)
    (hnext : ∀ (served : Served) (seen : Cache), Sound setting seen →
      Faithful setting own.request operation
        (respond setting.provider operation served seen).1 →
      Concludes (contract setting) post
        (next (respond setting.provider operation served seen).1)
        (own.after operation (respond setting.provider operation served seen).1)
        (respond setting.provider operation served seen).2) :
    Concludes (contract setting) post (.call operation next) own cache := by
  intro seen hseen
  refine ⟨hobliged, ?_⟩
  rintro reply own' after ⟨served, rfl, rfl, rfl, hfaithful⟩
  exact hnext served seen hseen hfaithful

/-- What looking a tag up comes to. -/
def LookedUp (setting : Setting) (tag : String) (before : Own)
    (result : Except LiveError (Option ObjectMetadata)) (own : Own) : Prop :=
  before.Grows own ∧ match result with
    | .ok (some metadata) => Fits setting tag metadata ∧ (tag, metadata) ∈ own.looked
    | .ok none => True
    | .error _ => scans own.request = true → (kappaFor tag).isSome → own.troubled = true

theorem metadataByTag_concludes (tag : String) :
    Concludes (contract setting) (LookedUp setting tag own)
      (metadataByTag setting.provider.codec tag) own cache := by
  unfold metadataByTag
  refine concludes_call (by trivial) fun _ seen hseen _ => ?_
  simp only [respond]
  cases hcached : (setting.provider.cached tag seen).1 with
  | some metadata =>
    obtain ⟨stored, hmem⟩ := cached_mem hcached
    exact ⟨Own.after_grows (.cached tag) (some metadata) own, hseen _ hmem, List.mem_cons_self⟩
  | none =>
    refine concludes_call (by trivial) fun served _ _ hfaithful => ?_
    simp only [respond] at hfaithful ⊢
    cases hreply : KappaClient.getManifest served.transport tag with
    | error error =>
      exact ⟨Own.after_grows (.getManifest tag) (.error error) own, fun _ _ => rfl⟩
    | ok found =>
      cases found with
      | none => exact ⟨Own.after_grows (.getManifest tag) (.ok none) own, trivial⟩
      | some body =>
        rw [hreply] at hfaithful
        dsimp only
        cases hdecode : decodeManifest setting.provider.codec body with
        | error error =>
          refine ⟨.refl own, fun hscans htag => ?_⟩
          obtain ⟨metadata, hmetadata⟩ := hfaithful.2 hscans htag
          rw [hdecode] at hmetadata
          cases hmetadata
        | ok metadata =>
          have hfits := hfaithful.1 metadata hdecode
          refine concludes_call (by exact hfits) fun _ _ _ _ => ?_
          exact ⟨Own.after_grows (.remember tag metadata) () own, hfits, List.mem_cons_self⟩

/-- Every record was found under the tag of its own object. -/
def Shown (own : Own) (objects : List ObjectMetadata) : Prop :=
  ∀ metadata ∈ objects, ∃ tag, (tag, metadata) ∈ own.looked ∧ kappaFor tag = some metadata.id

theorem Shown.grow {after : Own} {objects : List ObjectMetadata} (h : Shown own objects)
    (hgrows : own.Grows after) : Shown after objects := by
  intro metadata hmetadata
  obtain ⟨tag, hlooked, htag⟩ := h metadata hmetadata
  exact ⟨tag, hgrows.looked hlooked, htag⟩

/-- What a walk or a part of it comes to. -/
def Walked (before : Own) (shown : α → List ObjectMetadata) (result : Except LiveError α)
    (own : Own) : Prop :=
  before.Grows own ∧ match result with
    | .ok value => Shown own (shown value)
    | .error _ => own.troubled = true

theorem Walked.since {first before after : Own} {shown : α → List ObjectMetadata}
    {result : Except LiveError α} (hgrows : first.Grows before)
    (h : Walked before shown result after) : Walked first shown result after :=
  ⟨hgrows.trans h.1, h.2⟩

open KappaRegistryProvider (Progress)

def Progress.objects : Progress → List ObjectMetadata
  | .full objects => objects
  | .through objects => objects

theorem scanTags_concludes (query : ObjectQuery) {tags : List String}
    {objects : List ObjectMetadata} (hscans : scans own.request = true)
    (hshown : Shown own objects) :
    Concludes (contract setting) (Walked own Progress.objects)
      (scanTags setting.provider.codec query tags objects) own cache := by
  induction tags generalizing objects own cache with
  | nil => exact ⟨.refl own, hshown⟩
  | cons tag rest ih =>
    unfold scanTags
    cases htag : kappaFor tag with
    | none => exact ih hscans hshown
    | some kappa =>
      refine Concludes.bind _ (metadataByTag_concludes tag) ?_ ?_
      · rintro found own' cache' ⟨hgrows, hfound⟩
        have hlater : scans own'.request = true := hgrows.request ▸ hscans
        have hrest : ∀ {objects}, Shown own' objects → Concludes (contract setting)
            (Walked own Progress.objects)
            (scanTags setting.provider.codec query rest objects) own' cache' := by
          intro objects hobjects
          exact (ih hlater hobjects).mono fun _ _ hwalked => hwalked.since hgrows
        cases found with
        | none => exact hrest (hshown.grow hgrows)
        | some metadata =>
          obtain ⟨hfits, hlooked⟩ := hfound
          dsimp only
          split
          · exact hrest (hshown.grow hgrows)
          · split
            · exact ⟨hgrows, hshown.grow hgrows⟩
            · apply hrest
              intro other hother
              rcases List.mem_append.mp hother with hold | hnew
              · exact hshown.grow hgrows other hold
              · obtain rfl := List.mem_singleton.mp hnew
                exact ⟨tag, hlooked, htag.trans (congrArg some (hfits kappa htag).1.symm)⟩
      · rintro error own' ⟨hgrows, herror⟩
        exact ⟨hgrows, herror (hgrows.request ▸ hscans) (htag ▸ rfl)⟩

theorem scanPages_concludes (query : ObjectQuery) {left : Nat} {cursor : Option String}
    {objects : List ObjectMetadata} (hscans : scans own.request = true)
    (hshown : Shown own objects) :
    Concludes (contract setting) (Walked own ObjectPage.objects)
      (scanPages setting.provider.codec query left cursor objects) own cache := by
  induction left generalizing cursor objects own cache with
  | zero => exact ⟨.refl own, hshown⟩
  | succ left ih =>
    unfold scanPages
    refine concludes_call (by trivial) fun served seen _ _ => ?_
    simp only [respond]
    cases hreply : KappaClient.listTags served.transport ObjectQuery.maxLimit cursor with
    | error error => exact ⟨Own.after_grows (.listTags _ cursor) (.error error) own, rfl⟩
    | ok page =>
      dsimp only [Own.after]
      split
      · exact ⟨.refl own, hshown⟩
      · refine Concludes.bind _ (scanTags_concludes query hscans hshown) ?_ ?_
        · rintro progress own' cache' ⟨hgrows, hprogress⟩
          cases progress with
          | full objects => exact ⟨hgrows, hprogress⟩
          | through objects =>
            cases hnext : page.next with
            | none => exact ⟨hgrows, hprogress⟩
            | some next =>
              exact (ih (hgrows.request ▸ hscans) hprogress).mono
                fun _ _ hwalked => hwalked.since hgrows
        · exact fun error own' hwalked => hwalked

theorem getObject_concludes (id : String) :
    Concludes (contract setting)
      (fun result after => own.Grows after ∧ ∀ content, result = .ok content →
        content.metadata.id = id ∧ address setting.blake3 content.bytes = id ∧
          content.metadata.size = content.bytes.length)
      (getObject setting.provider.codec setting.blake3 id) own cache := by
  refine Concludes.bind _ (metadataByTag_concludes (tagFor id)) ?_ ?_
  · rintro found own' cache' ⟨hgrows, hfound⟩
    cases found with
    | none => exact ⟨hgrows, fun _ hcontent => by cases hcontent⟩
    | some metadata =>
      refine concludes_call (by trivial) fun served _ _ _ => ?_
      simp only [respond, verifyContent]
      cases KappaSteps.getBlob id served.blob with
      | error error => exact ⟨hgrows, fun _ hcontent => by cases hcontent⟩
      | ok bytes =>
        by_cases hhash : address setting.blake3 bytes = id
        · simp only [hhash, if_true]
          refine ⟨hgrows, fun content hcontent => ?_⟩
          cases hcontent
          have htag : kappaFor (tagFor id) = some id := hhash ▸ kappaFor_address setting.blake3 bytes
          obtain ⟨hid, hsize⟩ := hfound.1 id htag
          exact ⟨hid, hhash, hsize bytes hhash⟩
        · simp only [hhash, if_false]
          exact ⟨hgrows, fun _ hcontent => by cases hcontent⟩
  · exact fun error own' h => ⟨h.1, fun _ hcontent => by cases hcontent⟩

/-- A record is written and remembered where it fits its tag. -/
theorem publish_concludes {tag : String} {metadata : ObjectMetadata}
    (hfits : Fits setting tag metadata) :
    Concludes (contract setting) (fun _ after => own.Grows after)
      (publish setting.provider.codec tag metadata) own cache := by
  refine concludes_call (by trivial) fun served _ _ _ => ?_
  simp only [respond]
  cases served.accepted with
  | error error => exact .refl own
  | ok _ =>
    refine concludes_call (by exact hfits) fun _ _ _ _ => ?_
    exact Own.after_grows (.remember tag metadata) () own

theorem createdAt_concludes (existing : Except LiveError (Option ObjectMetadata)) :
    Concludes (contract setting) (fun _ after => own.Grows after) (createdAt existing) own cache := by
  have hnow : Concludes (contract setting) (fun _ after => own.Grows after)
      (.call .nowMillis fun now => .done now.toNat : ProviderProgram Nat) own cache :=
    concludes_call (by trivial) fun _ _ _ _ => .refl own
  cases existing with
  | error error => exact hnow
  | ok found =>
    cases found with
    | none => exact hnow
    | some metadata => exact .refl own

theorem putObject_concludes (kind mediaType : String) (filename : Option String) (bytes : Bytes)
    (hsize : Sizeable setting (.putObject kind mediaType filename bytes)) :
    Concludes (contract setting) (fun _ after => own.Grows after)
      (putObject setting.provider.codec setting.blake3 kind mediaType filename bytes) own cache := by
  refine Concludes.bind _ (metadataByTag_concludes _).attempt ?_ ?_
  · rintro existing own' cache' ⟨-, -, hgrows, -⟩
    refine Concludes.bind _ (createdAt_concludes existing) ?_ fun _ _ h => hgrows.trans h
    intro createdAtMillis own'' cache'' hcreated
    refine concludes_call (by trivial) fun served _ _ _ => ?_
    simp only [respond]
    cases served.accepted with
    | error error => exact hgrows.trans hcreated
    | ok _ =>
      refine (publish_concludes ?_).mono fun _ _ h => (hgrows.trans hcreated).trans h
      intro kappa hkappa
      obtain rfl := Option.some.inj ((kappaFor_address setting.blake3 bytes).symm.trans hkappa)
      exact ⟨rfl, hsize⟩
  · rintro error own' ⟨value, hvalue, -⟩
    cases hvalue

theorem renameFile_concludes (id filename : String) :
    Concludes (contract setting) (fun _ after => own.Grows after)
      (renameFile setting.provider.codec id filename) own cache := by
  refine Concludes.bind _ (metadataByTag_concludes (tagFor id)) ?_ fun _ _ h => h.1
  rintro found own' cache' ⟨hgrows, hfound⟩
  cases found with
  | none => exact hgrows
  | some metadata =>
    dsimp only
    split
    · exact hgrows
    · have hrenamed : Fits setting (tagFor id) { metadata with filename := some filename } := hfound.1
      exact (publish_concludes hrenamed).mono fun _ _ h => hgrows.trans h

theorem search_concludes (query : ObjectQuery) (hscans : scans own.request = true) :
    Concludes (contract setting) (Walked own ObjectPage.objects)
      (KappaSteps.search setting.provider.codec setting.provider.maxScanPages query) own cache :=
  scanPages_concludes query hscans fun _ hmetadata => by cases hmetadata

theorem answer_concludes {request : Request} (hrequest : own.request = request)
    (hsize : Sizeable setting request) :
    Concludes (contract setting) (fun result after => Lawful setting after after.request result)
      (answer setting request) own cache := by
  subst hrequest
  have hkept : ∀ {request result after}, own.request = request → own.Grows after →
      Lawful setting after request result → Lawful setting after after.request result := by
    intro request result after hrequest hgrows h
    rwa [hgrows.request, hrequest]
  cases hrequest : own.request with
  | putObject kind mediaType filename bytes =>
    rw [hrequest] at hsize
    refine Concludes.bind _ (putObject_concludes kind mediaType filename bytes hsize) ?_ ?_
    · exact fun _ _ _ hgrows => hkept hrequest hgrows trivial
    · exact fun _ _ hgrows => hkept hrequest hgrows trivial
  | renameFile id filename =>
    refine Concludes.bind _ (renameFile_concludes id filename) ?_ ?_
    · exact fun _ _ _ hgrows => hkept hrequest hgrows trivial
    · exact fun _ _ hgrows => hkept hrequest hgrows trivial
  | getObject id =>
    refine Concludes.bind _ (getObject_concludes id) ?_ ?_
    · exact fun content _ _ h => hkept hrequest h.1 (h.2 content rfl)
    · exact fun _ _ h => hkept hrequest h.1 trivial
  | listObjects kind =>
    have hsearch := @search_concludes setting own cache { kind, limit := ObjectQuery.maxLimit }
      (hrequest ▸ rfl)
    refine Concludes.bind (fun result after => own.Grows after ∧ match result with
      | .ok objects => Shown after objects
      | .error _ => after.troubled = true) (Concludes.bind _ hsearch ?_ ?_) ?_ ?_
    · intro page own' cache' h
      refine ⟨h.1, fun metadata hmetadata => h.2 metadata ?_⟩
      exact (List.perm_insertionSort _ _).mem_iff.mp hmetadata
    · exact fun _ _ h => h
    · exact fun _ _ _ h => hkept hrequest h.1 h.2
    · exact fun _ _ h => hkept hrequest h.1 h.2
  | search query =>
    refine Concludes.bind _ (search_concludes query (hrequest ▸ rfl)) ?_ ?_
    · exact fun _ _ _ h => hkept hrequest h.1 h.2
    · exact fun _ _ h => hkept hrequest h.1 h.2

end Contract

section Runs
variable {setting : Setting} {traffic next : Traffic}

/-- The cache is sound, and every call keeps to the contract. -/
structure Steady (setting : Setting) (traffic : Traffic) : Prop where
  cache : Sound setting traffic.cache
  tasks : ∀ task ∈ traffic.tasks, Relies (contract setting)
    (fun result own _ => Lawful setting own own.request result) task.program task.own traffic.cache

theorem Steady.step (h : Steady setting traffic) {event : Event}
    (hmeets : Meets setting traffic event) (hstep : traffic.step setting event = some next) :
    Steady setting next := by
  cases event with
  | begin request =>
    obtain rfl := Option.some.inj hstep
    refine ⟨h.cache, fun task htask => ?_⟩
    rcases List.mem_append.mp htask with hold | hnew
    · exact h.tasks task hold
    · obtain rfl := List.mem_singleton.mp hnew
      exact answer_concludes rfl hmeets
  | move place served =>
    rw [Traffic.step] at hstep
    cases htask : traffic.tasks[place]? with
    | none =>
      rw [htask] at hstep
      cases hstep
    | some task =>
      obtain ⟨program, own⟩ := task
      rw [htask] at hstep
      have hfaithful := hmeets _ htask
      cases program with
      | done value => cases hstep
      | fail error => cases hstep
      | call operation rest =>
        obtain rfl := Option.some.inj hstep
        obtain ⟨hcache, htasks⟩ := Relies.step (fun _ _ _ _ _ hlawful => hlawful) h.cache h.tasks htask
          ⟨served, rfl, rfl, rfl, hfaithful⟩
        exact ⟨hcache, htasks⟩

/-- In every run whose manifests are faithful, and whose stored bytes can be told by their size
and hash, every call is lawful, whatever else the registry answers. -/
theorem untrusted_registry_lawful (setting : Setting) (traffic : Traffic)
    (hreaches : Reaches (Traffic.step setting) (Meets setting) {} traffic) :
    ∀ task ∈ traffic.tasks, ∀ result, task.program.outcome = some (.ok result) →
      Lawful setting task.own task.own.request result := by
  have hsteady : Steady setting traffic := by
    refine hreaches.invariant ⟨?_, ?_⟩ ?_
    · exact fun _ hentry => by cases hentry
    · exact fun _ htask => by cases htask
    · exact fun _ _ _ h hmeets hstep => h.step hmeets hstep
  intro task htask result hresult
  have hrelies := hsteady.tasks task htask
  cases hprogram : task.program with
  | done value =>
    rw [hprogram] at hrelies hresult
    cases hresult
    exact hrelies
  | fail error =>
    rw [hprogram] at hresult
    cases hresult
  | call operation rest =>
    rw [hprogram] at hresult
    cases hresult

end Runs

/-! A registry with a record under another object's tag, and one with a manifest that is none. -/

/-- A record with no more than is needed of it. -/
def recordDocument (digest : String) : Json :=
  .object
    [("annotations", .object [(annotationCreated, .string "5"), (annotationKind, .string "file")]),
      ("subject", .object [("digest", .string digest)])]

def recordText (digest : String) : Bytes := Utf8.encode <|
  "\x7b\"annotations\":\x7b\"dev.hologram.created-at-millis\":\"5\"," ++
  "\"dev.hologram.kind\":\"file\"\x7d,\"subject\":\x7b\"digest\":\"" ++ digest ++ "\"\x7d\x7d"

def recordOf (digest : String) : ObjectMetadata :=
  ⟨digest, "file", "application/octet-stream", none, 0, 5⟩

def readingCodec : JsonCodec where
  toVec _ := []
  fromSlice bytes :=
    if bytes = recordText "sha256:0" then .ok (recordDocument "sha256:0")
    else if bytes = [] then .error "EOF while parsing a value at line 1 column 0"
    else .ok (recordDocument emptyId)

def openSetting : Setting :=
  { sampleSetting with provider := { sampleSetting.provider with codec := readingCodec } }

def answering (manifest : Bytes) : Served where
  manifest := .answer ⟨200, "200 OK"⟩ "" (.ok manifest)
  tags := .answer ⟨200, "200 OK"⟩ "" (.ok [tagFor emptyId])
  blob := .answer ⟨200, "200 OK"⟩ "" (.ok [])

def asked (request : Request) (steps : Nat) (manifest : Bytes) : List Event :=
  .begin request :: List.replicate steps (.move 0 (answering manifest))

/-- How a task has ended, its error left out. -/
def ended (task : ProviderTask) : Option (Option Answer) :=
  task.program.outcome.bind fun result => result.toOption.map Except.toOption

theorem outcome_of_ended {task : ProviderTask} {answer : Option Answer}
    (h : ended task = some answer) :
    ∃ result : Except LiveError Answer, task.program.outcome = some (.ok result) ∧
      result.toOption = answer := by
  obtain ⟨outcome, houtcome, hresult⟩ := Option.bind_eq_some_iff.mp h
  obtain ⟨result, hok, hanswer⟩ := Option.map_eq_some_iff.mp hresult
  cases outcome with
  | error error => cases hok
  | ok other =>
    obtain rfl := Option.some.inj hok
    exact ⟨other, houtcome, hanswer⟩

/-- The first task of a run, as it has ended. -/
theorem first_ended {made : Option Traffic} {request : Request} {answer : Option Answer}
    {troubled : Bool}
    (h : made.map (fun traffic =>
      traffic.tasks[0]?.map fun task => (task.own.request, ended task, task.own.troubled)) =
        some (some (request, some answer, troubled))) :
    ∃ traffic task result, made = some traffic ∧
      task ∈ traffic.tasks ∧ task.own.request = request ∧
      task.program.outcome = some (.ok result) ∧ result.toOption = answer ∧
      task.own.troubled = troubled := by
  obtain ⟨traffic, hrun, hfirst⟩ := Option.map_eq_some_iff.mp h
  obtain ⟨task, htask, hfacts⟩ := Option.map_eq_some_iff.mp hfirst
  obtain ⟨hrequest, hrest⟩ := Prod.mk.inj hfacts
  obtain ⟨hended, htroubled⟩ := Prod.mk.inj hrest
  obtain ⟨result, houtcome, hanswer⟩ := outcome_of_ended hended
  exact ⟨traffic, task, result, hrun, List.mem_of_getElem? htask, hrequest, houtcome, hanswer,
    htroubled⟩

/-- An object is returned under the record of another, and one manifest that cannot be read
fails a search although every request of it was served. -/
theorem untrusted_registry_lawless :
    (∃ traffic task content, Reaches (Traffic.step openSetting) (fun _ _ => True) {} traffic ∧
      task ∈ traffic.tasks ∧ task.own.request = .getObject emptyId ∧
      task.program.outcome = some (.ok (.ok (.got content))) ∧ content.metadata.id ≠ emptyId) ∧
    ∃ traffic task error, Reaches (Traffic.step openSetting) (fun _ _ => True) {} traffic ∧
      task ∈ traffic.tasks ∧ task.own.request = .search {} ∧
      task.program.outcome = some (.ok (.error error)) ∧ task.own.troubled = false := by
  constructor
  · obtain ⟨traffic, task, result, hrun, htask, hrequest, houtcome, hanswer, -⟩ :=
      @first_ended (run (Traffic.step openSetting)
        (asked (.getObject emptyId) 4 (recordText "sha256:0")) {})
        (.getObject emptyId) (some (.got ⟨recordOf "sha256:0", []⟩)) false rfl
    cases result with
    | error error => cases hanswer
    | ok answer =>
      obtain rfl := Option.some.inj hanswer
      exact ⟨traffic, task, _, Reaches.start.run hrun, htask, hrequest, houtcome, by decide⟩
  · obtain ⟨traffic, task, result, hrun, htask, hrequest, houtcome, hanswer, htroubled⟩ :=
      @first_ended (run (Traffic.step openSetting) (asked (.search {}) 3 []) {}) (.search {}) none
        false rfl
    cases result with
    | error error =>
      exact ⟨traffic, task, error, Reaches.start.run hrun, htask, hrequest, houtcome, htroubled⟩
    | ok answer => cases hanswer

/-- A hash that tells the empty content from all others. -/
def emptyOnly (bytes : Bytes) : Vector UInt8 32 :=
  if bytes = [] then DiskStore.emptyHash else Vector.replicate 32 0

def filedSetting : Setting := { openSetting with blake3 := emptyOnly }

theorem recordOf_describes : Describes filedSetting emptyId (recordOf emptyId) := by
  refine ⟨rfl, fun bytes hbytes => ?_⟩
  by_cases hempty : bytes = []
  · rw [hempty]
    rfl
  · have hother : address filedSetting.blake3 bytes =
        address (fun _ => Vector.replicate 32 0) ([] : Bytes) := by
      simp only [address, hexDigest, filedSetting, emptyOnly, hempty, if_false]
    rw [hother] at hbytes
    exact absurd hbytes (by decide)

theorem getManifest_body {served : Served} {tag : String} {body : Bytes}
    (h : KappaClient.getManifest served.transport tag = .ok (some body)) :
    ∃ status detail, served.manifest = .answer status detail (.ok body) := by
  unfold KappaClient.getManifest Served.transport at h
  dsimp only at h
  cases hmanifest : served.manifest with
  | unreachable error =>
    rw [hmanifest] at h
    cases h
  | answer status detail found =>
    rw [hmanifest] at h
    dsimp only at h
    split at h
    · cases h
    · obtain ⟨_, -, hfound⟩ := bind_ok.mp h
      cases found with
      | error error => cases hfound
      | ok other =>
        cases hfound
        exact ⟨status, detail, rfl⟩

def ownTag : ∀ {β : Type}, ProviderCall β → Bool
  | _, .getManifest tag => tag == tagFor emptyId
  | _, _ => true

/-- Only a manifest of the empty file is served, and only for its tag. -/
def ownManifest (traffic : Traffic) : Event → Bool
  | .begin (.putObject _ _ _ _) => false
  | .begin _ => true
  | .move place served =>
    (match traffic.tasks[place]? with
      | some task => match task.program with
        | .call operation _ => ownTag operation
        | _ => true
      | none => true) &&
    match served.manifest with
    | .answer _ _ (.ok body) => (decodeManifest readingCodec body).toOption == some (recordOf emptyId)
    | _ => true

theorem ownManifest_meets (traffic : Traffic) (event : Event)
    (h : ownManifest traffic event = true) : Meets filedSetting traffic event := by
  cases event with
  | begin request =>
    cases request with
    | putObject kind mediaType filename bytes => cases h
    | renameFile _ _ | getObject _ | listObjects _ | search _ => trivial
  | move place served =>
    intro task htask
    rw [ownManifest, htask, Bool.and_eq_true] at h
    dsimp only at h
    obtain ⟨htag, hbody⟩ := h
    cases hprogram : task.program with
    | done value => trivial
    | fail error => trivial
    | call operation next =>
      rw [hprogram] at htag
      cases operation with
      | getManifest tag =>
        obtain rfl := beq_iff_eq.mp htag
        simp only [respond]
        cases hreply : KappaClient.getManifest served.transport (tagFor emptyId) with
        | error error => trivial
        | ok found =>
          cases found with
          | none => trivial
          | some body =>
            obtain ⟨status, detail, hserved⟩ := getManifest_body hreply
            rw [hserved] at hbody
            have hreads := toOption_eq_some.mp (beq_iff_eq.mp hbody)
            refine ⟨fun metadata hmetadata kappa hkappa => ?_, fun _ _ => ⟨_, hreads⟩⟩
            cases hreads.symm.trans hmetadata
            cases (show kappaFor (tagFor emptyId) = some emptyId by decide).symm.trans hkappa
            exact recordOf_describes
      | cached _ | remember _ _ | putManifest _ _ | getBlob _ | putBlob _ _ _ | listTags _ _
        | nowMillis => trivial

set_option maxRecDepth 4000 in
/-- A download of the one object there is. -/
theorem untrusted_registry_lawful_sample :
    ∃ (traffic : Traffic) (task : ProviderTask), task ∈ traffic.tasks ∧
      task.program.outcome = some (.ok (.ok (.got ⟨recordOf emptyId, []⟩))) ∧
      Lawful filedSetting task.own task.own.request (.ok (.got ⟨recordOf emptyId, []⟩)) := by
  obtain ⟨traffic, task, result, hrun, htask, hrequest, houtcome, hanswer, -⟩ :=
    @first_ended (checked (Traffic.step filedSetting) ownManifest
        (asked (.getObject emptyId) 4 (recordText emptyId)) {})
      (.getObject emptyId) (some (.got ⟨recordOf emptyId, []⟩)) false rfl
  cases result with
  | error error => cases hanswer
  | ok answer =>
    obtain rfl := Option.some.inj hanswer
    have hreaches := Reaches.start.checked ownManifest_meets hrun
    exact ⟨traffic, task, htask, houtcome,
      untrusted_registry_lawful filedSetting traffic hreaches task htask _ houtcome⟩

end HologramLive.Registry.KappaUntrusted
