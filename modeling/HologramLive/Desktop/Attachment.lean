import HologramLive.Desktop.Transactional

namespace HologramLive.Desktop
open Lib Lib.Result Lib.Table Lib.Interleaving
variable {debug : String → String} {parse : UrlParser}

namespace Surface

theorem reaches_sound (hparse : Parses debug parse) {surface : Surface}
    (h : Reaches (step debug parse) (Turns debug) {} surface) : Sound debug parse surface :=
  h.invariant .start fun _ _ _ hsound hturns hstep => hsound.step hparse hturns hstep

end Surface

/-- What a call has in hand from the turn it touched its label in. -/
def Call.carries : Call → Option (Attaching ⊕ RemovedAttachment)
  | .closing attaching _ | .undoing attaching _ | .opening attaching _ | .cleaning attaching _
  | .rollingBack attaching _ _ | .reopening attaching _ _ _ | .attached attaching _
  | .failed attaching _ => some (.inl attaching)
  | .destroying _ removed | .restoring _ removed _ | .detached _ (some removed)
  | .kept _ removed _ => some (.inr removed)
  | .attach _ | .refused _ | .detach _ | .detached _ none => none

/-- The attachment a detach is of. -/
def Call.detaches : Call → Option ViewAttachmentId
  | .detach id | .destroying id _ | .restoring id _ _ => some id
  | _ => none

/-- A call that has had its first turn. -/
def Call.begun : Call → Bool
  | .attach _ | .detach _ => false
  | _ => true

theorem Call.step_carries {call after : Call} (hbegun : call.begun = true)
    (h : call.step debug parse place store windows outcome = some (after, store', windows')) :
    after.begun = true ∧ after.carries = call.carries := by
  cases call <;> first | (cases hbegun; done) | simp only [Call.step, reduceCtorEq] at h
  all_goals
    repeat' split at h
    all_goals
      cases h
      exact ⟨rfl, rfl⟩

namespace Surface

theorem carries_reached {first last : Surface} {place : Nat} {call : Call}
    (h : Reaches (step debug parse) allowed first last)
    (hcall : first.calls[place]? = some call) (hbegun : call.begun = true) :
    ∃ later : Call, last.calls[place]? = some later ∧ later.begun = true ∧
      later.carries = call.carries := by
  induction h with
  | start => exact ⟨call, hcall, hbegun, rfl⟩
  | @step state action next _ allows steps ih =>
    obtain ⟨later, hlater, hbegun, hcarries⟩ := ih
    have hlt := (List.getElem?_eq_some_iff.mp hlater).1
    cases action with
    | attach view =>
      obtain rfl := Option.some.inj steps
      exact ⟨later, (List.getElem?_append_left hlt).trans hlater, hbegun, hcarries⟩
    | detach id =>
      obtain rfl := Option.some.inj steps
      exact ⟨later, (List.getElem?_append_left hlt).trans hlater, hbegun, hcarries⟩
    | advance turn outcome =>
      obtain ⟨moved, hmoved, steps⟩ := Option.bind_eq_some_iff.mp steps
      obtain ⟨⟨after, store, windows⟩, hturn, rfl⟩ := Option.map_eq_some_iff.mp steps
      by_cases hsame : turn = place
      · subst hsame
        obtain rfl := Option.some.inj (hlater.symm.trans hmoved)
        obtain ⟨hbegun', hcarries'⟩ := Call.step_carries hbegun hturn
        exact ⟨after, List.getElem?_set_self hlt, hbegun', hcarries'.trans hcarries⟩
      · exact ⟨later, (List.getElem?_set_ne hsame).trans hlater, hbegun, hcarries⟩

/-- A state before a call's first turn and one after it. -/
def Began (debug : String → String) (parse : UrlParser) (allowed : Surface → Action → Prop)
    (place : Nat) (before last : Surface) : Prop :=
  ∃ outcome first, Reaches (step debug parse) allowed {} before ∧
    allowed before (.advance place outcome) ∧
    before.step debug parse (.advance place outcome) = some first ∧
    Reaches (step debug parse) allowed first last

section Began
variable {before last : Surface} {later : Call} {held : Attaching}
  {found : RemovedAttachment} {id : ViewAttachmentId}

theorem Began.sound (hparse : Parses debug parse)
    (h : Began debug parse (Turns debug) place before last) : Sound debug parse last := by
  obtain ⟨outcome, first, hbefore, hturns, hstep, hlast⟩ := h
  exact reaches_sound hparse ((hbefore.step hturns hstep).trans hlast)

/-- What an attach has in hand later was staged over what was there before. -/
theorem Began.attaching (h : Began debug parse allowed place before last)
    (hcall : before.calls[place]? = some (.attach view)) (hlater : last.calls[place]? = some later)
    (hcarries : later.carries = some (.inl held)) :
    held.view = view ∧ held.staged.label = windowLabel view.id.token ∧
      held.staged.previous = before.store.attachments.lookup (windowLabel view.id.token) := by
  obtain ⟨outcome, first, _, _, hstep, hlast⟩ := h
  rw [step, hcall, Option.bind_some, Option.map_eq_some_iff] at hstep
  obtain ⟨⟨after, store, windows⟩, hturn, rfl⟩ := hstep
  have hhere : (before.calls.set place after)[place]? = some after :=
    List.getElem?_set_self (List.getElem?_eq_some_iff.mp hcall).1
  rw [Call.step] at hturn
  cases hstage : before.store.stage debug place view with
  | error error =>
    rw [hstage] at hturn
    cases hturn
    obtain ⟨_, hsame, _, hnothing⟩ := carries_reached hlast hhere rfl
    obtain rfl := Option.some.inj (hlater.symm.trans hsame)
    rw [hcarries] at hnothing
    cases hnothing
  | ok staged =>
    obtain ⟨stored, staged, store'⟩ := staged
    obtain ⟨_, _, hstaged, _⟩ := ViewAssetState.stage_ok hstage
    have hafter : after.begun = true ∧ after.carries = some (.inl ⟨view, stored, staged⟩) := by
      rw [hstage] at hturn
      dsimp only at hturn
      repeat' split at hturn
      all_goals
        cases hturn
        exact ⟨rfl, rfl⟩
    obtain ⟨_, hsame, _, hkept⟩ := carries_reached hlast hhere hafter.1
    obtain rfl := Option.some.inj (hlater.symm.trans hsame)
    rw [hcarries, hafter.2] at hkept
    obtain rfl := Sum.inl.inj (Option.some.inj hkept)
    exact ⟨rfl, by rw [hstaged], by rw [hstaged]⟩

/-- What a detach has in hand later is what it found at its label. -/
theorem Began.removed (h : Began debug parse allowed place before last)
    (hcall : before.calls[place]? = some (.detach id)) (hlater : last.calls[place]? = some later)
    (hcarries : later.carries = some (.inr found)) :
    found.label = windowLabel id.token ∧
      before.store.attachments.lookup (windowLabel id.token) = some found.attachment := by
  obtain ⟨outcome, first, _, _, hstep, hlast⟩ := h
  rw [step, hcall, Option.bind_some, Option.map_eq_some_iff] at hstep
  obtain ⟨⟨after, store, windows⟩, hturn, rfl⟩ := hstep
  have hhere : (before.calls.set place after)[place]? = some after :=
    List.getElem?_set_self (List.getElem?_eq_some_iff.mp hcall).1
  rw [Call.step] at hturn
  cases hremove : before.store.remove id with
  | mk taken store' =>
    rw [hremove] at hturn
    cases taken with
    | none =>
      cases hturn
      obtain ⟨_, hsame, _, hnothing⟩ := carries_reached hlast hhere rfl
      obtain rfl := Option.some.inj (hlater.symm.trans hsame)
      rw [hcarries] at hnothing
      cases hnothing
    | some taken =>
      cases hturn
      obtain ⟨_, hsame, _, hkept⟩ := carries_reached hlast hhere rfl
      obtain rfl := Option.some.inj (hlater.symm.trans hsame)
      rw [hcarries] at hkept
      obtain rfl := Sum.inr.inj (Option.some.inj hkept)
      obtain ⟨hfound, _, hlabel, _⟩ := ViewAssetState.remove_some hremove
      exact ⟨hlabel, hfound⟩

/-- The attach's own attachment is not in the store. -/
theorem Sound.none_of (h : Sound debug parse last) (hcall : last.calls[place]? = some later)
    (hnothing : later.backs = none) (hstore : last.store.attachments.lookup label = some stored) :
    stored.stagedBy ≠ place := by
  rintro rfl
  obtain ⟨_, call, hbacker, hbacks⟩ := h.backed label stored hstore
  obtain rfl := Option.some.inj (hcall.symm.trans hbacker)
  rw [hnothing] at hbacks
  cases hbacks

end Began

/-- A detach removes nothing but attachments of its own id, whatever else goes on. -/
theorem detach_spares {surface next : Surface} {id : ViewAttachmentId}
    {stored : StoredAttachment} {call : Call} (hcall : surface.calls[place]? = some call)
    (hdetach : call.detaches = some id)
    (hstep : surface.step debug parse (.advance place outcome) = some next)
    (hstore : surface.store.attachments.lookup label = some stored) (hother : stored.id ≠ id) :
    next.store.attachments.lookup label = some stored := by
  rw [step, hcall, Option.bind_some, Option.map_eq_some_iff] at hstep
  obtain ⟨⟨after, store, windows⟩, hturn, rfl⟩ := hstep
  cases call <;> first | (cases hdetach; done) | skip
  case detach found =>
    obtain rfl : found = id := Option.some.inj hdetach
    rw [Call.step] at hturn
    cases hremove : surface.store.remove found with
    | mk taken store' =>
      rw [hremove] at hturn
      cases taken with
      | none =>
        cases hturn
        rw [ViewAssetState.remove_none hremove]
        exact hstore
      | some taken =>
        cases hturn
        obtain ⟨hfound, hid, _, rfl⟩ := ViewAssetState.remove_some hremove
        refine (lookup_erase ..).trans ((if_neg ?_).trans hstore)
        rintro rfl
        obtain rfl := Option.some.inj (hfound.symm.trans hstore)
        exact hother hid
  case destroying found removed =>
    cases outcome with
    | ok _ =>
      cases hturn
      exact hstore
    | error error =>
      cases hturn
      exact hstore
  case restoring found removed error =>
    rw [Call.step] at hturn
    cases hrestore : surface.store.restore removed with
    | error changed =>
      rw [hrestore] at hturn
      cases hturn
      exact hstore
    | ok store' =>
      rw [hrestore] at hturn
      cases hturn
      obtain ⟨hnone, rfl⟩ := ViewAssetState.restore_ok hrestore
      refine (lookup_insert ..).trans ((if_neg ?_).trans hstore)
      rintro rfl
      rw [hnone] at hstore
      cases hstore

end Surface

open Surface

/-- What callers may rely on, in every run of the allowed turns. The call that last
touched a label is its holder: where it is still this one, no later call has replaced
what it left. -/
structure Transactional (debug : String → String) (parse : UrlParser)
    (allowed : Surface → Action → Prop) : Prop where
  /-- An attach that fails leaves nothing of its own, and what was there before. -/
  failed : ∀ place before last view attaching error, Began debug parse allowed place before last →
    before.calls[place]? = some (.attach view) →
    last.calls[place]? = some (.failed attaching error) →
    (∀ label stored, last.store.attachments.lookup label = some stored → stored.stagedBy ≠ place) ∧
      (last.holders.lookup (windowLabel view.id.token) = some place →
        last.store.attachments.lookup (windowLabel view.id.token) =
          before.store.attachments.lookup (windowLabel view.id.token))
  /-- So does one that is refused before it stages anything. -/
  refused : ∀ (place : Nat) (before last : Surface) (view : PortableViewAttachment)
    (outcome : Except String Unit) (error : String), before.calls[place]? = some (.attach view) →
    before.step debug parse (.advance place outcome) = some last →
    last.calls[place]? = some (.refused error) →
    last.store = before.store ∧ last.windows = before.windows
  /-- A detach that fails leaves what it found. -/
  kept : ∀ place before last id id' removed error, Began debug parse allowed place before last →
    before.calls[place]? = some (.detach id) →
    last.calls[place]? = some (.kept id' removed error) →
    last.holders.lookup (windowLabel id.token) = some place →
    last.store.attachments.lookup (windowLabel id.token) =
      before.store.attachments.lookup (windowLabel id.token)
  /-- A detach removes no attachment of another id. -/
  spares : ∀ (place : Nat) (surface next : Surface) (call : Call) (id : ViewAttachmentId)
    (outcome : Except String Unit) (label : String) (stored : StoredAttachment),
    surface.calls[place]? = some call → call.detaches = some id → surface.step debug parse (.advance place outcome) = some next →
    surface.store.attachments.lookup label = some stored → stored.id ≠ id →
    next.store.attachments.lookup label = some stored
  /-- An attach that has returned keeps its assets and its window. -/
  attached : ∀ place before last view attaching request,
    Began debug parse allowed place before last →
    before.calls[place]? = some (.attach view) →
    last.calls[place]? = some (.attached attaching request) →
    last.holders.lookup (windowLabel view.id.token) = some place →
    last.windows.lookup (windowLabel view.id.token) = some request ∧
      request.token = view.id.token ∧ request.entry = view.entry ∧
      ∃ stored, last.store.attachments.lookup (windowLabel view.id.token) = some stored ∧
        stored.stagedBy = place ∧ stored.id = view.id ∧ stored.entry = view.entry ∧
        collectAssets debug [] view.assets = .ok stored.assets

/-- Calls that take turns at a label are transactions. -/
theorem attach_detach_transactional (hparse : Parses debug parse) :
    Transactional debug parse (Turns debug) where
  failed place before last view attaching error hbegan hcall hlater := by
    have hsound := hbegan.sound hparse
    obtain ⟨rfl, hlabel, hprevious⟩ := hbegan.attaching hcall hlater rfl
    refine ⟨fun label stored => hsound.none_of hlater rfl, ?_⟩
    intro hholder
    rw [← hprevious, ← hlabel]
    exact hsound.attachment place _ _ hlater rfl (hlabel ▸ hholder)
  refused place before last view outcome error hcall hstep hlater := by
    rw [step, hcall, Option.bind_some, Option.map_eq_some_iff] at hstep
    obtain ⟨⟨after, store, windows⟩, hturn, rfl⟩ := hstep
    have hhere : (before.calls.set place after)[place]? = some after :=
      List.getElem?_set_self (List.getElem?_eq_some_iff.mp hcall).1
    obtain rfl := Option.some.inj (hhere.symm.trans hlater)
    rw [Call.step] at hturn
    repeat' split at hturn
    all_goals first | (cases hturn; exact ⟨rfl, rfl⟩) | cases hturn
  kept place before last id id' removed error hbegan hcall hlater hholder := by
    have hsound := hbegan.sound hparse
    obtain ⟨hlabel, hfound⟩ := hbegan.removed hcall hlater rfl
    rw [hfound, ← hlabel]
    exact hsound.attachment place _ _ hlater rfl (hlabel ▸ hholder)
  spares place surface next call id outcome label stored hcall hdetach hstep hstore hother :=
    detach_spares hcall hdetach hstep hstore hother
  attached place before last view attaching request hbegan hcall hlater hholder := by
    have hsound := hbegan.sound hparse
    obtain ⟨rfl, hlabel, _⟩ := hbegan.attaching hcall hlater rfl
    obtain ⟨⟨store, store', hstage⟩, hrequest⟩ := hsound.formed place _ hlater
    obtain ⟨hstageable, hstored, hstaged, _⟩ := ViewAssetState.stage_ok hstage
    have hthere := hsound.attachment place _ _ hlater rfl (hlabel ▸ hholder)
    have hwindow := hsound.window place _ _ request hlater rfl (hlabel ▸ hholder) rfl
    dsimp only at hthere hwindow
    rw [hlabel] at hthere hwindow
    obtain ⟨url, _, hnew⟩ := bind_ok.mp hrequest
    obtain rfl := Except.ok.inj hnew
    refine ⟨hwindow, by rw [hstaged], by rw [hstaged], attaching.stored, hthere, ?_⟩
    rw [hstored]
    exact ⟨rfl, rfl, rfl, hstageable.collected⟩

section Sample

def sampleToken : String := String.ofList (List.replicate 64 '1')

def sampleView (text : Bytes) : PortableViewAttachment :=
  ⟨⟨sampleToken, "blake3:application", 1⟩, "index.html", [⟨"index.html", text⟩]⟩

/-- A parser that takes every text for a URL as it is. -/
def sampleParse : UrlParser := fun text => .ok text

theorem attach_detach_transactional_sample : Transactional id sampleParse (Turns id) :=
  attach_detach_transactional fun _ _ => ⟨_, rfl⟩

def sampleCalls : Surface := { calls := [.attach (sampleView [1]), .attach (sampleView [2])] }

/-- The second attach is staged over the first, whose window then does not open; nor
does the second's. -/
def sampleTurns : List Action :=
  [.advance 1 (.ok ()), .advance 0 (.error "taken"), .advance 0 (.ok ()), .advance 0 (.ok ()),
    .advance 1 (.ok ()), .advance 1 (.error "taken"), .advance 1 (.ok ()), .advance 1 (.ok ()),
    .advance 1 (.ok ())]

/-- The second attach rolls back to the first, which has failed by then. -/
theorem overlapping_attaches : ¬Transactional id sampleParse fun _ _ => True := by
  intro htransactional
  have hrun : Option.map (fun last : Surface => (last.calls[0]?.bind fun call : Call =>
      match call with
      | .failed attaching error => some (attaching, error)
      | _ => none).map fun _ =>
        (last.store.attachments.lookup (windowLabel sampleToken)).map StoredAttachment.stagedBy)
      (run (step id sampleParse) (.advance 0 (.ok ()) :: sampleTurns) sampleCalls) =
        some (some (some 0)) := by
    decide +kernel
  obtain ⟨last, hlast, hfound⟩ := Option.map_eq_some_iff.mp hrun
  obtain ⟨first, hfirst, hrest⟩ := Option.bind_eq_some_iff.mp hlast
  obtain ⟨⟨attaching, error⟩, hcall, hstored⟩ := Option.map_eq_some_iff.mp hfound
  obtain ⟨stored, hstore, hplace⟩ := Option.map_eq_some_iff.mp hstored
  obtain ⟨call, hcall, hfailed⟩ := Option.bind_eq_some_iff.mp hcall
  obtain rfl : call = .failed attaching error := by
    split at hfailed
    · cases hfailed
      rfl
    · cases hfailed
  have harrive : run (step id sampleParse) [.attach (sampleView [1]), .attach (sampleView [2])] {} =
      some sampleCalls := rfl
  have hbegan : Began id sampleParse (fun _ _ => True) 0 sampleCalls last :=
    ⟨.ok (), first, Reaches.start.run harrive, trivial, hfirst, Reaches.start.run hrest⟩
  exact (htransactional.failed 0 sampleCalls last (sampleView [1]) attaching error hbegan rfl hcall).1
    _ stored hstore hplace

end Sample
end HologramLive.Desktop
