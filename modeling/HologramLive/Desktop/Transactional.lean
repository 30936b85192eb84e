import HologramLive.Desktop.Surface

namespace HologramLive.Desktop
open Lib Lib.Result Lib.Table Lib.Interleaving
variable {debug : String → String} {parse : UrlParser}

/-- An attachment that is where its token says and whose window can be asked for. -/
def Placed (parse : UrlParser) (label : String) (attachment : StoredAttachment) : Prop :=
  windowLabel attachment.token = label ∧
    ∃ request, ViewWindowRequest.new parse label attachment.token attachment.entry = .ok request

/-- What an attach has in hand is what `stage` gave it. -/
def Attaching.Came (debug : String → String) (place : Nat) (attaching : Attaching) : Prop :=
  ∃ store store' : ViewAssetState,
    store.stage debug place attaching.view = .ok (attaching.stored, attaching.staged, store')

theorem Attaching.Came.stored {attaching : Attaching} (h : attaching.Came debug place) :
    attaching.stored.stagedBy = place ∧
      attaching.stored.generation = attaching.staged.generation ∧
      windowLabel attaching.stored.token = attaching.staged.label := by
  obtain ⟨store, store', hstage⟩ := h
  obtain ⟨_, hstored, hstaged, _⟩ := ViewAssetState.stage_ok hstage
  rw [hstored, hstaged]
  exact ⟨rfl, rfl, rfl⟩

theorem new_label {request : ViewWindowRequest}
    (h : ViewWindowRequest.new parse label token entry = .ok request) : request.label = label := by
  obtain ⟨url, _, h⟩ := bind_ok.mp h
  obtain rfl := Except.ok.inj h
  rfl

theorem Stageable.request (hparse : Parses debug parse) (h : Stageable debug view assets)
    (label : String) :
    ∃ request, ViewWindowRequest.new parse label view.id.token view.entry = .ok request := by
  obtain ⟨url, hurl⟩ := hparse h.token h.entry_valid
  refine ⟨⟨label, view.id.token, view.entry, url⟩, ?_⟩
  rw [ViewWindowRequest.new, attachmentUrl, hurl]
  rfl

/-- A staged attachment can be opened. -/
theorem Attaching.Came.placed (hparse : Parses debug parse) {attaching : Attaching}
    (h : attaching.Came debug place) : Placed parse attaching.staged.label attaching.stored := by
  obtain ⟨store, store', hstage⟩ := h
  obtain ⟨hstageable, hstored, hstaged, _⟩ := ViewAssetState.stage_ok hstage
  rw [hstored, hstaged]
  exact ⟨rfl, hstageable.request hparse _⟩

namespace Call

theorem holds_iff {call : Call} : call.holds label = true ↔
    call.inProgress = true ∧ ∃ owned, call.owns = some owned ∧ owned.label = label := by
  simp [holds]

/-- What a call carries comes from where the source takes it. -/
def WellFormed (debug : String → String) (parse : UrlParser) (place : Nat) : Call → Prop
  | .closing attaching request | .opening attaching request | .attached attaching request =>
    attaching.Came debug place ∧ ViewWindowRequest.new parse attaching.staged.label
      attaching.staged.token attaching.staged.entry = .ok request
  | .undoing attaching _ | .cleaning attaching _ | .rollingBack attaching _ _
  | .failed attaching _ => attaching.Came debug place
  | .reopening attaching request _ _ =>
    attaching.Came debug place ∧ request.label = attaching.staged.label
  | .destroying id removed | .restoring id removed _ | .kept id removed _
  | .detached id (some removed) =>
    removed.attachment.id = id ∧ removed.label = windowLabel id.token
  | .attach _ | .refused _ | .detach _ | .detached _ none => True

theorem WellFormed.backs {call : Call} (h : call.WellFormed debug parse place)
    (hbacks : call.backs = some attachment) : attachment.stagedBy = place ∧
      call.owns.map Owned.label = some (windowLabel attachment.token) := by
  cases call <;> first | (cases hbacks; done) | skip
  all_goals
    obtain rfl := Option.some.inj hbacks
    have hcame := by first | exact h.1.stored | exact h.stored
    exact ⟨hcame.1, congrArg some hcame.2.2.symm⟩

theorem WellFormed.placed (hparse : Parses debug parse) {call : Call}
    (h : call.WellFormed debug parse place) (howns : call.owns = some owned)
    (hbacks : call.backs = some stored) : Placed parse owned.label stored := by
  cases call <;> first | (cases hbacks; done) | skip
  all_goals
    obtain rfl := Option.some.inj hbacks
    obtain rfl := Option.some.inj howns
    first | exact h.1.placed hparse | exact Attaching.Came.placed hparse h

/-- A turn of a call in progress: whatever it does, it does at its own label. -/
structure Works (debug : String → String) (parse : UrlParser) (place : Nat) (before : Call)
    (owned : Owned) (store : ViewAssetState) (windows : Windows) (after : Call)
    (store' : ViewAssetState) (windows' : Windows) (owned' : Owned) : Prop where
  owns : after.owns = some owned'
  label : owned'.label = owned.label
  formed : after.WellFormed debug parse place
  attachment : store'.attachments.lookup owned.label = owned'.attachment
  window : ∀ request, owned'.window = some request →
    windows'.lookup owned.label = some request
  frame : ∀ label, label ≠ owned.label →
    store'.attachments.lookup label = store.attachments.lookup label ∧
      windows'.lookup label = windows.lookup label
  source : ∀ attachment, owned'.attachment = some attachment →
    after.backs = some attachment ∨ before.before = some attachment
  earlier : ∀ attachment, after.before = some attachment → before.before = some attachment

/-- A turn in which only the label's window changes, if anything. -/
theorem Works.window_only {call after : Call} (hafter : after.owns = some owned')
    (hlabel : owned'.label = owned.label) (hformed : after.WellFormed debug parse place)
    (hattachment : store.attachments.lookup owned.label = owned'.attachment)
    (hwindow : ∀ request, owned'.window = some request →
      windows'.lookup owned.label = some request)
    (hframe : ∀ label, label ≠ owned.label → windows'.lookup label = windows.lookup label)
    (hsource : ∀ attachment, owned'.attachment = some attachment →
      after.backs = some attachment ∨ call.before = some attachment)
    (hearlier : ∀ attachment, after.before = some attachment → call.before = some attachment) :
    Works debug parse place call owned store windows after store windows' owned' :=
  ⟨hafter, hlabel, hformed, hattachment, hwindow, fun label hne => ⟨rfl, hframe label hne⟩, hsource,
    hearlier⟩

/-- A turn that rolls back what its own attach has staged. -/
theorem Works.rolledBack {call after : Call} {attaching : Attaching}
    (hcame : attaching.Came debug place) (hbefore : call.before = attaching.staged.previous)
    (hafter : after.owns = some ⟨attaching.staged.label, attaching.staged.previous, none⟩)
    (hformed : after.WellFormed debug parse place)
    (hearlier : ∀ attachment, after.before = some attachment →
      attaching.staged.previous = some attachment)
    (hstore : store.attachments.lookup attaching.staged.label = some attaching.stored) :
    Works debug parse place call ⟨attaching.staged.label, some attaching.stored, none⟩ store windows
      after (store.rollback attaching.staged).2 windows
      ⟨attaching.staged.label, attaching.staged.previous, none⟩ := by
  obtain ⟨_, hlookup⟩ := ViewAssetState.rollback_own hstore hcame.stored.2.1
  refine ⟨hafter, rfl, hformed, ?_, nofun, ?_, ?_, ?_⟩
  · dsimp only
    rw [hlookup, if_pos rfl]
  · intro label hne
    exact ⟨(hlookup label).trans (if_neg hne), rfl⟩
  · intro attachment hprevious
    exact .inr (hbefore.trans hprevious)
  · intro attachment hsome
    exact hbefore.trans (hearlier attachment hsome)

theorem lookup_erase_ne {windows : Windows} (hne : label ≠ other) :
    (erase windows other).lookup label = windows.lookup label := by
  rw [lookup_erase, if_neg hne]

theorem lookup_insert_ne {windows : Windows} (hne : label ≠ other) :
    (insert windows other request).lookup label = windows.lookup label := by
  rw [lookup_insert, if_neg hne]

/-- One turn of a call in progress. -/
theorem step_works {call : Call} (hprogress : call.inProgress = true)
    (howns : call.owns = some owned) (hformed : call.WellFormed debug parse place)
    (hstore : store.attachments.lookup owned.label = owned.attachment)
    (hbefore : ∀ attachment, call.before = some attachment → Placed parse owned.label attachment)
    (h : call.step debug parse place store windows outcome = some (after, store', windows')) :
    ∃ owned', Works debug parse place call owned store windows after store' windows' owned' := by
  cases call with
  | closing attaching request =>
    cases howns
    cases outcome with
    | ok _ =>
      cases h
      exact ⟨_, .window_only rfl rfl hformed hstore (by simp) (fun _ => lookup_erase_ne)
        (fun _ h => .inl h) fun _ h => h⟩
    | error error =>
      cases h
      exact ⟨_, .window_only rfl rfl hformed.1 hstore (by simp) (fun _ _ => rfl)
        (fun _ h => .inl h) fun _ h => h⟩
  | undoing attaching error =>
    cases howns
    cases h
    exact ⟨_, .rolledBack hformed rfl rfl hformed (by rintro _ ⟨⟩) hstore⟩
  | opening attaching request =>
    cases howns
    cases outcome with
    | ok _ =>
      cases h
      have hlabel := new_label hformed.2
      refine ⟨_, .window_only rfl rfl hformed hstore ?_ ?_ (fun _ h => .inl h) (by rintro _ ⟨⟩)⟩
      · rintro _ ⟨⟩
        rw [lookup_insert, hlabel, if_pos rfl]
      · intro label hne
        rw [hlabel]
        exact lookup_insert_ne hne
    | error error =>
      cases h
      exact ⟨_, .window_only rfl rfl hformed.1 hstore (by simp) (fun _ _ => rfl)
        (fun _ h => .inl h) fun _ h => h⟩
  | cleaning attaching error =>
    cases howns
    cases outcome with
    | ok _ =>
      cases h
      exact ⟨_, .window_only rfl rfl hformed hstore (by simp) (fun _ => lookup_erase_ne)
        (fun _ h => .inl h) fun _ h => h⟩
    | error cleanup =>
      cases h
      exact ⟨_, .window_only rfl rfl hformed hstore (by simp) (fun _ _ => rfl)
        (fun _ h => .inl h) fun _ h => h⟩
  | rollingBack attaching error cleanup =>
    cases howns
    dsimp only [Call.step] at h
    split at h
    · cases h
      exact ⟨_, .rolledBack hformed rfl rfl hformed (by rintro _ ⟨⟩) hstore⟩
    · rename_i previous hprevious
      obtain ⟨_, request, hrequest⟩ := hbefore previous hprevious
      rw [hrequest] at h
      cases h
      exact ⟨_, .rolledBack hformed rfl rfl ⟨hformed, new_label hrequest⟩ (fun _ h => h) hstore⟩
  | reopening attaching request error cleanup =>
    cases howns
    cases outcome with
    | ok _ =>
      cases h
      refine ⟨_, .window_only rfl rfl hformed.1 hstore (by rintro _ ⟨⟩) ?_ (fun _ h => .inr h) (by rintro _ ⟨⟩)⟩
      intro label hne
      rw [hformed.2]
      exact lookup_insert_ne hne
    | error restore =>
      cases h
      exact ⟨_, .window_only rfl rfl hformed.1 hstore (by simp) (fun _ _ => rfl) (fun _ h => .inr h)
        (by rintro _ ⟨⟩)⟩
  | destroying id removed =>
    cases howns
    cases outcome with
    | ok _ =>
      cases h
      exact ⟨_, .window_only rfl rfl hformed hstore (by rintro _ ⟨⟩) (fun _ => lookup_erase_ne) (by rintro _ ⟨⟩) (by rintro _ ⟨⟩)⟩
    | error error =>
      cases h
      exact ⟨_, .window_only rfl rfl hformed hstore (by simp) (fun _ _ => rfl) (by simp) fun _ h => h⟩
  | restoring id removed error =>
    cases howns
    have hrestore : store.restore removed = .ok { store with
        attachments := insert store.attachments removed.label removed.attachment } := by
      rw [ViewAssetState.restore, hstore]
      rfl
    dsimp only [Call.step] at h
    rw [hrestore] at h
    cases h
    refine ⟨_, rfl, rfl, hformed, ?_, (by rintro _ ⟨⟩), ?_, fun _ h => .inr h, (by rintro _ ⟨⟩)⟩
    · exact (lookup_insert ..).trans (if_pos rfl)
    · intro label hne
      exact ⟨(lookup_insert ..).trans (if_neg hne), rfl⟩
  | _ => cases hprogress

end Call
/-- An attachment of an attach that has returned. -/
def Standing (calls : List Call) (attachment : StoredAttachment) : Prop :=
  ∃ attaching request, calls[attachment.stagedBy]? = some (.attached attaching request) ∧
    attaching.stored = attachment

namespace Surface

/-- What holds between turns: the last call to touch a label finds there what it left,
and nobody's attachment is there but that of a call that answers for it. -/
structure Sound (debug : String → String) (parse : UrlParser) (surface : Surface) : Prop where
  formed : ∀ (place : Nat) (call : Call), surface.calls[place]? = some call →
    call.WellFormed debug parse place
  holding : ∀ (place : Nat) (call : Call) (owned : Owned), surface.calls[place]? = some call →
    call.inProgress = true → call.owns = some owned →
    surface.holders.lookup owned.label = some place
  attachment : ∀ (place : Nat) (call : Call) (owned : Owned), surface.calls[place]? = some call →
    call.owns = some owned → surface.holders.lookup owned.label = some place →
    surface.store.attachments.lookup owned.label = owned.attachment
  window : ∀ (place : Nat) (call : Call) (owned : Owned) (request : ViewWindowRequest),
    surface.calls[place]? = some call → call.owns = some owned →
    surface.holders.lookup owned.label = some place → owned.window = some request →
    surface.windows.lookup owned.label = some request
  backed : ∀ (label : String) (attachment : StoredAttachment),
    surface.store.attachments.lookup label = some attachment → Placed parse label attachment ∧
      ∃ call, surface.calls[attachment.stagedBy]? = some call ∧ call.backs = some attachment
  before : ∀ (place : Nat) (call : Call) (owned : Owned) (attachment : StoredAttachment),
    surface.calls[place]? = some call → call.owns = some owned →
    call.before = some attachment → Placed parse owned.label attachment ∧
      Standing surface.calls attachment

/-- What one turn of a call at a label of its own leaves behind. -/
structure Turned (debug : String → String) (parse : UrlParser) (surface : Surface) (place : Nat)
    (call after : Call) (owned : Owned) (surface' : Surface) : Prop where
  found : surface.calls[place]? = some call
  calls : surface'.calls = surface.calls.set place after
  owns : after.owns = some owned
  formed : after.WellFormed debug parse place
  open' : ∀ attaching request, call ≠ .attached attaching request
  own : ∀ attachment, call.backs = some attachment → windowLabel attachment.token = owned.label
  alone : ∀ (other : Nat) (busy : Call), other ≠ place → surface.calls[other]? = some busy →
    busy.holds owned.label = false
  holders : ∀ label, surface'.holders.lookup label =
    if label = owned.label then some place else surface.holders.lookup label
  frame : ∀ label, label ≠ owned.label →
    surface'.store.attachments.lookup label = surface.store.attachments.lookup label ∧
      surface'.windows.lookup label = surface.windows.lookup label
  attachment : surface'.store.attachments.lookup owned.label = owned.attachment
  window : ∀ request, owned.window = some request →
    surface'.windows.lookup owned.label = some request
  source : ∀ attachment, owned.attachment = some attachment → Placed parse owned.label attachment ∧
    (after.backs = some attachment ∨ Standing surface.calls attachment)
  before : ∀ attachment, after.before = some attachment → Placed parse owned.label attachment ∧
    Standing surface.calls attachment

section Turned
variable {surface surface' : Surface} {call after : Call} {owned : Owned}

theorem Turned.here (h : Turned debug parse surface place call after owned surface') :
    surface'.calls[place]? = some after := by
  rw [h.calls, List.getElem?_set_self (List.getElem?_eq_some_iff.mp h.found).1]

theorem Turned.elsewhere (h : Turned debug parse surface place call after owned surface')
    (hne : other ≠ place) : surface'.calls[other]? = surface.calls[other]? := by
  rw [h.calls, List.getElem?_set_ne (Ne.symm hne)]

/-- An attach that has returned stays as it is. -/
theorem Turned.standing (h : Turned debug parse surface place call after owned surface')
    (hstanding : Standing surface.calls stored) : Standing surface'.calls stored := by
  obtain ⟨attaching, request, hcall, hstored⟩ := hstanding
  refine ⟨attaching, request, ?_, hstored⟩
  rw [h.elsewhere, hcall]
  intro hsame
  rw [hsame, h.found, Option.some.injEq] at hcall
  exact h.open' attaching request hcall

theorem Sound.turned (h : Sound debug parse surface)
    (hturn : Turned debug parse surface place call after owned surface') :
    Sound debug parse surface' := by
  -- another call whose label is this one is not in progress and no longer the last there
  have hother : ∀ (other : Nat) (still : Call) (left : Owned), other ≠ place →
      surface.calls[other]? = some still → still.owns = some left →
      surface'.holders.lookup left.label = some other → left.label ≠ owned.label ∧
        surface.holders.lookup left.label = some other := by
    intro other still left hne hcall howns hholder
    rw [hturn.holders] at hholder
    split at hholder
    · exact absurd (Option.some.inj hholder).symm hne
    · rename_i hlabel
      exact ⟨hlabel, hholder⟩
  refine ⟨?_, ?_, ?_, ?_, ?_, ?_⟩
  · intro other still hcall
    by_cases hne : other = place
    · subst hne
      obtain rfl := Option.some.inj (hturn.here.symm.trans hcall)
      exact hturn.formed
    · rw [hturn.elsewhere hne] at hcall
      exact h.formed other still hcall
  · intro other still left hcall hprogress howns
    by_cases hne : other = place
    · subst hne
      obtain rfl := Option.some.inj (hturn.here.symm.trans hcall)
      obtain rfl := Option.some.inj (hturn.owns.symm.trans howns)
      rw [hturn.holders, if_pos rfl]
    · rw [hturn.elsewhere hne] at hcall
      have hlabel : left.label ≠ owned.label := by
        intro hsame
        have hbusy := hturn.alone other still hne hcall
        simp [Call.holds, hprogress, howns, hsame] at hbusy
      rw [hturn.holders, if_neg hlabel]
      exact h.holding other still left hcall hprogress howns
  · intro other still left hcall howns hholder
    by_cases hne : other = place
    · subst hne
      obtain rfl := Option.some.inj (hturn.here.symm.trans hcall)
      obtain rfl := Option.some.inj (hturn.owns.symm.trans howns)
      exact hturn.attachment
    · rw [hturn.elsewhere hne] at hcall
      obtain ⟨hlabel, hholder⟩ := hother other still left hne hcall howns hholder
      rw [(hturn.frame _ hlabel).1]
      exact h.attachment other still left hcall howns hholder
  · intro other still left request hcall howns hholder hwindow
    by_cases hne : other = place
    · subst hne
      obtain rfl := Option.some.inj (hturn.here.symm.trans hcall)
      obtain rfl := Option.some.inj (hturn.owns.symm.trans howns)
      exact hturn.window request hwindow
    · rw [hturn.elsewhere hne] at hcall
      obtain ⟨hlabel, hholder⟩ := hother other still left hne hcall howns hholder
      rw [(hturn.frame _ hlabel).2]
      exact h.window other still left request hcall howns hholder hwindow
  · intro label attachment hstore
    by_cases hlabel : label = owned.label
    · subst hlabel
      rw [hturn.attachment] at hstore
      obtain ⟨hplaced, hbacks | hstanding⟩ := hturn.source attachment hstore
      · obtain ⟨rfl, _⟩ := hturn.formed.backs hbacks
        exact ⟨hplaced, after, hturn.here, hbacks⟩
      · obtain ⟨attaching, request, hcall, hstored⟩ := hturn.standing hstanding
        exact ⟨hplaced, _, hcall, congrArg some hstored⟩
    · rw [(hturn.frame label hlabel).1] at hstore
      obtain ⟨hplaced, backer, hcall, hbacks⟩ := h.backed label attachment hstore
      refine ⟨hplaced, backer, ?_, hbacks⟩
      rw [hturn.elsewhere, hcall]
      intro hsame
      rw [hsame, hturn.found, Option.some.injEq] at hcall
      subst hcall
      exact hlabel (hplaced.1.symm.trans (hturn.own attachment hbacks))
  · intro other still left attachment hcall howns hbefore
    by_cases hne : other = place
    · subst hne
      obtain rfl := Option.some.inj (hturn.here.symm.trans hcall)
      obtain rfl := Option.some.inj (hturn.owns.symm.trans howns)
      obtain ⟨hplaced, hstanding⟩ := hturn.before attachment hbefore
      exact ⟨hplaced, hturn.standing hstanding⟩
    · rw [hturn.elsewhere hne] at hcall
      obtain ⟨hplaced, hstanding⟩ := h.before other still left attachment hcall howns hbefore
      exact ⟨hplaced, hturn.standing hstanding⟩

end Turned
section Step
variable {surface surface' : Surface} {action : Action}

theorem Idle.holds {place : Nat} {call : Call} (h : surface.Idle label)
    (hcall : surface.calls[place]? = some call) : call.holds label = false :=
  free_iff.mp h call (List.mem_of_getElem? hcall)

/-- A turn of a call in progress, whose label is its own. -/
theorem Sound.progress (hparse : Parses debug parse) (h : Sound debug parse surface) {call : Call}
    (hcall : surface.calls[place]? = some call) (hprogress : call.inProgress = true)
    (hstep : surface.step debug parse (.advance place outcome) = some surface') :
    Sound debug parse surface' := by
  obtain ⟨owned, howns⟩ : ∃ owned, call.owns = some owned := by
    cases call <;> first | exact ⟨_, rfl⟩ | cases hprogress
  have hholder := h.holding place call owned hcall hprogress howns
  rw [step, hcall, Option.bind_some, Option.map_eq_some_iff] at hstep
  obtain ⟨⟨after, store, windows⟩, hturn, rfl⟩ := hstep
  obtain ⟨owned', hworks⟩ := Call.step_works hprogress howns (h.formed place call hcall)
    (h.attachment place call owned hcall howns hholder)
    (fun earlier hearlier => (h.before place call owned earlier hcall howns hearlier).1) hturn
  obtain ⟨label, attachment, window⟩ := owned
  obtain ⟨label', attachment', window'⟩ := owned'
  obtain rfl : label' = label := hworks.label
  have hsource : ∀ earlier, call.before = some earlier →
      Placed parse label' earlier ∧ Standing surface.calls earlier :=
    fun earlier hearlier => h.before place call _ earlier hcall howns hearlier
  refine h.turned
    (?_ : Turned debug parse surface place call after ⟨label', attachment', window'⟩ _)
  refine
    { found := hcall
      calls := rfl
      owns := hworks.owns
      formed := hworks.formed
      open' := ?_
      own := ?_
      alone := ?_
      holders := ?_
      frame := hworks.frame
      attachment := hworks.attachment
      window := hworks.window
      source := ?_
      before := fun earlier hearlier => hsource earlier (hworks.earlier earlier hearlier) }
  · rintro attaching request rfl
    cases hprogress
  · intro stored hbacks
    have hown := ((h.formed place call hcall).backs hbacks).2
    rw [howns] at hown
    exact (Option.some.inj hown).symm
  · intro other busy hne hbusy
    apply Bool.eq_false_of_not_eq_true
    intro hholds
    obtain ⟨hprogress', left, hleft, hlabel⟩ := Call.holds_iff.mp hholds
    have hholder' := h.holding other busy left hbusy hprogress' hleft
    rw [hlabel, hholder] at hholder'
    exact hne (Option.some.inj hholder').symm
  · intro other
    dsimp only
    rw [touch_again howns]
    split
    · rename_i hlabel
      rw [hlabel, hholder]
    · rfl
  · intro stored hstored
    rcases hworks.source stored hstored with hbacks | hearlier
    · exact ⟨hworks.formed.placed hparse hworks.owns hbacks, .inl hbacks⟩
    · obtain ⟨hplaced, hstanding⟩ := hsource stored hearlier
      exact ⟨hplaced, .inr hstanding⟩

/-- What is in the store when no call is in progress at its label comes from an attach
that has returned. -/
theorem Sound.standing (h : Sound debug parse surface) (hidle : surface.Idle label)
    (hstore : surface.store.attachments.lookup label = some stored) :
    Placed parse label stored ∧ Standing surface.calls stored := by
  obtain ⟨hplaced, call, hcall, hbacks⟩ := h.backed label stored hstore
  refine ⟨hplaced, ?_⟩
  have hlabel := ((h.formed _ call hcall).backs hbacks).2
  rw [hplaced.1] at hlabel
  have hdone := hidle.holds hcall
  cases call <;> first | (cases hbacks; done) | skip
  case attached attaching request =>
    exact ⟨attaching, request, hcall, Option.some.inj hbacks⟩
  all_goals
    rw [Call.holds, hlabel] at hdone
    simp [Call.inProgress] at hdone

/-- The turn in which a call touches its label: nobody else is at it, and what the call
may put back comes from the store. -/
theorem Sound.touches (hparse : Parses debug parse) (h : Sound debug parse surface)
    {store : ViewAssetState} {call after : Call} (hcall : surface.calls[place]? = some call) (hfirst : call.owns = none)
    (howns : after.owns = some owned) (hformed : after.WellFormed debug parse place)
    (hidle : surface.Idle owned.label) (hwindow : owned.window = none)
    (hlookup : ∀ label, store.attachments.lookup label =
      if label = owned.label then owned.attachment else surface.store.attachments.lookup label)
    (hown : ∀ stored, owned.attachment = some stored → after.backs = some stored)
    (hbefore : ∀ stored, after.before = some stored →
      surface.store.attachments.lookup owned.label = some stored) :
    Sound debug parse
      { store, windows := surface.windows, calls := surface.calls.set place after
        holders := touch surface.holders place call after } := by
  have hnone : call.backs = none := by
    cases call <;> first | rfl | cases hfirst
  refine h.turned (?_ : Turned debug parse surface place call after owned _)
  refine
    { found := hcall
      calls := rfl
      owns := howns
      formed := hformed
      open' := ?_
      own := ?_
      alone := fun other busy _ hbusy => hidle.holds hbusy
      holders := ?_
      frame := ?_
      attachment := ?_
      window := ?_
      source := ?_
      before := fun stored hstored => h.standing hidle (hbefore stored hstored) }
  · rintro attaching request rfl
    cases hfirst
  · intro stored hbacks
    rw [hnone] at hbacks
    cases hbacks
  · intro label
    dsimp only
    rw [touch_first hfirst howns, lookup_insert]
  · intro label hne
    exact ⟨(hlookup label).trans (if_neg hne), rfl⟩
  · exact (hlookup _).trans (if_pos rfl)
  · intro request hrequest
    rw [hwindow] at hrequest
    cases hrequest
  · intro stored hstored
    exact ⟨hformed.placed hparse howns (hown stored hstored), .inl (hown stored hstored)⟩

/-- Calls that have touched nothing may come and go. -/
theorem Sound.others (h : Sound debug parse surface) {calls : List Call}
    (hkept : ∀ (place : Nat) (call : Call) (owned : Owned), surface.calls[place]? = some call →
      call.owns = some owned → calls[place]? = some call)
    (hnew : ∀ (place : Nat) (call : Call), calls[place]? = some call →
      surface.calls[place]? = some call ∨
        call.owns = none ∧ call.WellFormed debug parse place) :
    Sound debug parse { surface with calls } := by
  have hold : ∀ (place : Nat) (call : Call) (owned : Owned), calls[place]? = some call →
      call.owns = some owned → surface.calls[place]? = some call := by
    intro place call owned hcall howns
    rcases hnew place call hcall with hsame | ⟨hnothing, _⟩
    · exact hsame
    · rw [howns] at hnothing
      cases hnothing
  have hstanding : ∀ stored, Standing surface.calls stored → Standing calls stored := by
    rintro stored ⟨attaching, request, hcall, hstored⟩
    exact ⟨attaching, request, hkept _ _ _ hcall rfl, hstored⟩
  refine ⟨?_, ?_, ?_, ?_, ?_, ?_⟩
  · intro place call hcall
    rcases hnew place call hcall with hsame | ⟨_, hformed⟩
    · exact h.formed place call hsame
    · exact hformed
  · intro place call owned hcall hprogress howns
    exact h.holding place call owned (hold place call owned hcall howns) hprogress howns
  · intro place call owned hcall howns hholder
    exact h.attachment place call owned (hold place call owned hcall howns) howns hholder
  · intro place call owned request hcall howns hholder hwindow
    exact h.window place call owned request (hold place call owned hcall howns) howns hholder hwindow
  · intro label stored hstore
    obtain ⟨hplaced, call, hcall, hbacks⟩ := h.backed label stored hstore
    obtain ⟨owned, howns⟩ : ∃ owned, call.owns = some owned := by
      cases call <;> first | exact ⟨_, rfl⟩ | cases hbacks
    exact ⟨hplaced, call, hkept _ call owned hcall howns, hbacks⟩
  · intro place call owned stored hcall howns hbefore
    obtain ⟨hplaced, hthere⟩ :=
      h.before place call owned stored (hold place call owned hcall howns) howns hbefore
    exact ⟨hplaced, hstanding stored hthere⟩

/-- A call that has touched nothing, before its turn and after it. -/
theorem Sound.untouched (h : Sound debug parse surface) {call after : Call}
    (hcall : surface.calls[place]? = some call) (hfirst : call.owns = none)
    (hnothing : after.owns = none) (hformed : after.WellFormed debug parse place) :
    Sound debug parse
      { surface with
        calls := surface.calls.set place after
        holders := touch surface.holders place call after } := by
  rw [touch_nothing hnothing]
  refine h.others ?_ ?_
  · intro other still owned hstill howns
    rw [List.getElem?_set_ne, hstill]
    rintro rfl
    rw [hcall, Option.some.injEq] at hstill
    rw [← hstill, hfirst] at howns
    cases howns
  · intro other still hstill
    by_cases hne : place = other
    · subst hne
      rw [List.getElem?_set_self (List.getElem?_eq_some_iff.mp hcall).1, Option.some.injEq] at hstill
      exact .inr ⟨hstill ▸ hnothing, hstill ▸ hformed⟩
    · rw [List.getElem?_set_ne hne] at hstill
      exact .inl hstill

theorem Sound.arrives (h : Sound debug parse surface) {call : Call} (hnothing : call.owns = none)
    (hformed : call.WellFormed debug parse surface.calls.length) :
    Sound debug parse { surface with calls := surface.calls ++ [call] } := by
  refine h.others ?_ ?_
  · intro place still owned hstill _
    rw [List.getElem?_append_left (List.getElem?_eq_some_iff.mp hstill).1, hstill]
  · intro place still hstill
    rw [List.getElem?_append] at hstill
    split at hstill
    · exact .inl hstill
    · have hlast := (List.getElem?_eq_some_iff.mp hstill).1
      rw [List.length_singleton] at hlast
      obtain rfl : place = surface.calls.length := by omega
      rw [Nat.sub_self, List.getElem?_cons_zero, Option.some.injEq] at hstill
      exact .inr ⟨hstill ▸ hnothing, hstill ▸ hformed⟩

theorem Sound.step (hparse : Parses debug parse) (h : Sound debug parse surface)
    (hturns : surface.Turns debug action)
    (hstep : surface.step debug parse action = some surface') : Sound debug parse surface' := by
  cases action with
  | attach view =>
    obtain rfl := Option.some.inj hstep
    exact h.arrives rfl trivial
  | detach id =>
    obtain rfl := Option.some.inj hstep
    exact h.arrives rfl trivial
  | advance place outcome =>
    have hstep' := hstep
    rw [Surface.step, Option.bind_eq_some_iff] at hstep
    obtain ⟨call, hcall, hstep⟩ := hstep
    obtain ⟨⟨after, store, windows⟩, hturn, rfl⟩ := Option.map_eq_some_iff.mp hstep
    by_cases hprogress : call.inProgress = true
    · exact h.progress hparse hcall hprogress hstep'
    dsimp only [Turns] at hturns
    rw [hcall] at hturns
    cases call with
    | attach view =>
      rw [Call.step] at hturn
      cases hstage : surface.store.stage debug place view with
      | error error =>
        rw [hstage] at hturn
        cases hturn
        exact h.untouched hcall rfl rfl trivial
      | ok staged =>
        obtain ⟨stored, staged, store'⟩ := staged
        rw [hstage] at hturn
        have hcame : Attaching.Came debug place ⟨view, stored, staged⟩ := ⟨_, _, hstage⟩
        obtain ⟨hstageable, hstored, hstaged, hstore⟩ := ViewAssetState.stage_ok hstage
        have hlabel : staged.label = windowLabel view.id.token := by rw [hstaged]
        have hidle : surface.Idle staged.label := hlabel ▸ hturns ⟨_, hstageable⟩
        have hlookup : ∀ label, store'.attachments.lookup label =
            if label = staged.label then some stored
            else surface.store.attachments.lookup label := by
          intro label
          rw [hlabel, hstore, lookup_insert]
        have hprevious : ∀ earlier, staged.previous = some earlier →
            surface.store.attachments.lookup staged.label = some earlier := by
          intro earlier hearlier
          rw [hstaged] at hearlier ⊢
          exact hearlier
        obtain ⟨request, hrequest⟩ : ∃ request, ViewWindowRequest.new parse staged.label
            staged.token staged.entry = .ok request := by
          rw [hstaged]
          exact hstageable.request hparse _
        dsimp only at hturn
        rw [hrequest] at hturn
        dsimp only at hturn
        split at hturn
        all_goals
          cases hturn
          exact h.touches hparse hcall rfl rfl ⟨hcame, hrequest⟩ hidle rfl hlookup
            (fun _ h => h) hprevious
    | detach id =>
      dsimp only at hturns
      rw [Call.step] at hturn
      cases hremove : surface.store.remove id with
      | mk found store' =>
        rw [hremove] at hturn hturns
        cases found with
        | none =>
          cases hturn
          rw [ViewAssetState.remove_none hremove]
          exact h.untouched hcall rfl rfl trivial
        | some removed =>
          cases hturn
          obtain ⟨hfound, hid, hlabel, hstore⟩ := ViewAssetState.remove_some hremove
          have hlookup : ∀ label, store.attachments.lookup label =
              if label = removed.label then none
              else surface.store.attachments.lookup label := by
            intro label
            rw [hlabel, hstore, lookup_erase]
          refine h.touches hparse hcall rfl rfl ⟨hid, hlabel⟩ (hlabel ▸ hturns rfl) rfl hlookup nofun
            ?_
          rintro stored ⟨⟩
          rw [hlabel]
          exact hfound
    | _ => first | cases hturn; done | exact absurd rfl hprogress

theorem Sound.start : Sound debug parse {} := by
  refine ⟨?_, ?_, ?_, ?_, ?_, ?_⟩ <;> intros <;> simp_all

end Step

end Surface
end HologramLive.Desktop
