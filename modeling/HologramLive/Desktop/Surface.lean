import HologramLive.Desktop.Assets
import HologramLive.Lib.Interleaving

/-! Attaching views to windows and detaching them, call by call. -/

namespace HologramLive.Desktop
open Lib Lib.Result Lib.Table Lib.Interleaving

structure ViewWindowRequest where
  label : String
  token : String
  entry : String
  url : String

/-- `Url::parse`, with the text of its errors. -/
abbrev UrlParser := String → Except String String

def attachmentUrl (parse : UrlParser) (token entry : String) : Except String String :=
  (parse s!"hologram-view://{token}/{entry}").mapError fun error =>
    s!"construct portable View URL: {error}"

def ViewWindowRequest.new (parse : UrlParser) (label token entry : String) :
    Except String ViewWindowRequest := do
  let url ← attachmentUrl parse token entry
  .ok ⟨label, token, entry, url⟩

/-- Hex digits make a host and a plain path makes a path. -/
def Parses (debug : String → String) (parse : UrlParser) : Prop :=
  ∀ {token entry}, validateToken token = .ok () → validateAssetPath debug entry = .ok () →
    ∃ url, parse s!"hologram-view://{token}/{entry}" = .ok url

/-- What an attach has in hand once it is staged. -/
structure Attaching where
  view : PortableViewAttachment
  stored : StoredAttachment
  staged : StagedAttachment

/-- Where a call is. The store is touched in one turn, a window host call takes its own. -/
inductive Call where
  | attach (view : PortableViewAttachment)
  | refused (error : String)
  | closing (attaching : Attaching) (request : ViewWindowRequest)
  | undoing (attaching : Attaching) (error : String)
  | opening (attaching : Attaching) (request : ViewWindowRequest)
  | cleaning (attaching : Attaching) (error : String)
  | rollingBack (attaching : Attaching) (error : String) (cleanup : Option String)
  | reopening (attaching : Attaching) (request : ViewWindowRequest) (error : String)
    (cleanup : Option String)
  | attached (attaching : Attaching) (request : ViewWindowRequest)
  | failed (attaching : Attaching) (error : String)
  | detach (id : ViewAttachmentId)
  | destroying (id : ViewAttachmentId) (removed : RemovedAttachment)
  | restoring (id : ViewAttachmentId) (removed : RemovedAttachment) (error : String)
  | detached (id : ViewAttachmentId) (removed : Option RemovedAttachment)
  | kept (id : ViewAttachmentId) (removed : RemovedAttachment) (error : String)

/-- The message of an attach whose window did not open. -/
def openFailure (error : String) (cleanup restore : Option String) : String :=
  let message := s!"create portable View window: {error}"
  let message := match cleanup with
    | some cleanup => message ++ s!"; clean up failed window: {cleanup}"
    | none => message
  match restore with
  | some restore => message ++ s!"; restore previous window: {restore}"
  | none => message

abbrev Windows := List (String × ViewWindowRequest)

/-- One turn of a call. `outcome` is what the window host answers, where it is asked. -/
def Call.step (debug : String → String) (parse : UrlParser) (place : Nat) (store : ViewAssetState)
    (windows : Windows) (outcome : Except String Unit) :
    Call → Option (Call × ViewAssetState × Windows)
  | .attach view =>
    match store.stage debug place view with
    | .error error => some (.refused error, store, windows)
    | .ok (stored, staged, store) =>
      match ViewWindowRequest.new parse staged.label staged.token staged.entry with
      -- the store keeps what was staged
      | .error error => some (.failed ⟨view, stored, staged⟩ error, store, windows)
      | .ok request =>
        if staged.previous.isSome then some (.closing ⟨view, stored, staged⟩ request, store, windows)
        else some (.opening ⟨view, stored, staged⟩ request, store, windows)
  | .closing attaching request =>
    match outcome with
    | .ok () => some (.opening attaching request, store, erase windows attaching.staged.label)
    | .error error => some (.undoing attaching error, store, windows)
  | .undoing attaching error =>
    some (.failed attaching s!"replace portable View window: {error}",
      (store.rollback attaching.staged).2, windows)
  | .opening attaching request =>
    match outcome with
    | .ok () => some (.attached attaching request, store, insert windows request.label request)
    | .error error => some (.cleaning attaching error, store, windows)
  | .cleaning attaching error =>
    match outcome with
    | .ok () =>
      some (.rollingBack attaching error none, store, erase windows attaching.staged.label)
    | .error cleanup => some (.rollingBack attaching error (some cleanup), store, windows)
  | .rollingBack attaching error cleanup =>
    let store := (store.rollback attaching.staged).2
    match attaching.staged.previous with
    | none => some (.failed attaching (openFailure error cleanup none), store, windows)
    | some previous =>
      match ViewWindowRequest.new parse attaching.staged.label previous.token previous.entry with
      | .error error => some (.failed attaching error, store, windows)
      | .ok request => some (.reopening attaching request error cleanup, store, windows)
  | .reopening attaching request error cleanup =>
    match outcome with
    | .ok () =>
      some (.failed attaching (openFailure error cleanup none), store,
        insert windows request.label request)
    | .error restore =>
      some (.failed attaching (openFailure error cleanup (some restore)), store, windows)
  | .detach id =>
    match store.remove id with
    | (none, store) => some (.detached id none, store, windows)
    | (some removed, store) => some (.destroying id removed, store, windows)
  | .destroying id removed =>
    match outcome with
    | .ok () => some (.detached id (some removed), store, erase windows removed.label)
    | .error error => some (.restoring id removed error, store, windows)
  | .restoring id removed error =>
    match store.restore removed with
    | .ok store =>
      some (.kept id removed s!"destroy portable View window: {error}", store, windows)
    | .error changed => some (.kept id removed changed, store, windows)
  | .refused _ | .attached _ _ | .failed _ _ | .detached _ _ | .kept _ _ _ => none

/-- What a call that has touched a label leaves there, as long as no later one does: the
attachment, and the window it promises. -/
structure Owned where
  label : String
  attachment : Option StoredAttachment
  window : Option ViewWindowRequest

namespace Call

def owns : Call → Option Owned
  | .closing attaching _ | .undoing attaching _ | .opening attaching _ | .cleaning attaching _
  | .rollingBack attaching _ _ => some ⟨attaching.staged.label, some attaching.stored, none⟩
  | .attached attaching request =>
    some ⟨attaching.staged.label, some attaching.stored, some request⟩
  | .reopening attaching _ _ _ | .failed attaching _ =>
    some ⟨attaching.staged.label, attaching.staged.previous, none⟩
  | .destroying _ removed | .restoring _ removed _ | .detached _ (some removed) =>
    some ⟨removed.label, none, none⟩
  | .kept _ removed _ => some ⟨removed.label, some removed.attachment, none⟩
  | .attach _ | .refused _ | .detach _ | .detached _ none => none

/-- Between touching its label and returning. -/
def inProgress : Call → Bool
  | .closing _ _ | .undoing _ _ | .opening _ _ | .cleaning _ _ | .rollingBack _ _ _
  | .reopening _ _ _ _ | .destroying _ _ | .restoring _ _ _ => true
  | _ => false

/-- The attachment a call answers for. -/
def backs : Call → Option StoredAttachment
  | .closing attaching _ | .undoing attaching _ | .opening attaching _ | .cleaning attaching _
  | .rollingBack attaching _ _ | .attached attaching _ => some attaching.stored
  | _ => none

/-- The attachment a call in progress may put back, or has. -/
def before : Call → Option StoredAttachment
  | .closing attaching _ | .undoing attaching _ | .opening attaching _ | .cleaning attaching _
  | .rollingBack attaching _ _ | .reopening attaching _ _ _ => attaching.staged.previous
  | .destroying _ removed | .restoring _ removed _ => some removed.attachment
  | _ => none

def holds (call : Call) (label : String) : Bool :=
  call.inProgress && (call.owns.map Owned.label == some label)

end Call

structure Surface where
  store : ViewAssetState := {}
  windows : Windows := []
  calls : List Call := []
  /-- The call that last touched a label. -/
  holders : List (String × Nat) := []

inductive Action where
  | attach (view : PortableViewAttachment)
  | detach (id : ViewAttachmentId)
  | advance (place : Nat) (outcome : Except String Unit)

namespace Surface

def touch (holders : List (String × Nat)) (place : Nat) (before after : Call) :
    List (String × Nat) :=
  match before.owns, after.owns with
  | none, some owned => insert holders owned.label place
  | _, _ => holders

theorem touch_again {before : Call} (h : before.owns = some owned) (after : Call) :
    touch touched place before after = touched := by
  rw [touch, h]

theorem touch_first {before after : Call} (hbefore : before.owns = none)
    (hafter : after.owns = some owned) :
    touch touched place before after = insert touched owned.label place := by
  rw [touch, hbefore, hafter]

theorem touch_nothing {after : Call} (hafter : after.owns = none) (before : Call) :
    touch touched place before after = touched := by
  rw [touch, hafter]
  cases before.owns <;> rfl

def step (debug : String → String) (parse : UrlParser) (surface : Surface) :
    Action → Option Surface
  | .attach view => some { surface with calls := surface.calls ++ [.attach view] }
  | .detach id => some { surface with calls := surface.calls ++ [.detach id] }
  | .advance place outcome =>
    surface.calls[place]?.bind fun call =>
      (call.step debug parse place surface.store surface.windows outcome).map
        fun (call', store, windows) =>
          { store, windows, calls := surface.calls.set place call'
            holders := touch surface.holders place call call' }

/-- A label no call in progress has touched. -/
def Idle (surface : Surface) (label : String) : Prop :=
  free Call.holds surface.calls label = true

/-- Calls that touch one label take turns: none touches it while another that has is
still in progress. -/
def Turns (debug : String → String) (surface : Surface) : Action → Prop
  | .advance place _ =>
    match surface.calls[place]? with
    | some (.attach view) => (∃ assets, Stageable debug view assets) →
        surface.Idle (windowLabel view.id.token)
    | some (.detach id) => (surface.store.remove id).1.isSome →
        surface.Idle (windowLabel id.token)
    | _ => True
  | _ => True

end Surface
end HologramLive.Desktop
