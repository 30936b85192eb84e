import HologramLive.Lib.Table
import HologramLive.Repo.Manifest
import Mathlib.Data.String.Basic

/-! The store of attached views: which assets a window of the desktop may load. -/

namespace HologramLive.Desktop
open Lib Lib.Result Lib.Table

structure ViewAttachmentId where
  token : String
  applicationKappa : String
  layerPosition : Nat
  deriving DecidableEq

structure PortableViewAsset where
  path : String
  bytes : Bytes

structure PortableViewAttachment where
  id : ViewAttachmentId
  entry : String
  assets : List PortableViewAsset

/-- What a window loads from. `stagedBy` is the call that put it there, which nothing in
the store looks at. -/
structure StoredAttachment where
  generation : UInt64
  id : ViewAttachmentId
  token : String
  entry : String
  assets : List (String × Bytes)
  stagedBy : Nat

structure ViewAssetState where
  nextGeneration : UInt64 := 0
  attachments : List (String × StoredAttachment) := []

structure StagedAttachment where
  generation : UInt64
  token : String
  label : String
  entry : String
  previous : Option StoredAttachment

structure RemovedAttachment where
  label : String
  attachment : StoredAttachment

def windowLabel (token : String) : String := "hologram-view-" ++ token

def validateToken (token : String) : Except String Unit :=
  if token.toList.length = 64 ∧ token.toList.all Repo.isLowerHex = true then .ok ()
  else .error "portable View attachment token must be a 64-character hex digest"

def validateAssetPath (debug : String → String) (path : String) : Except String Unit :=
  if path = "" ∨ path.toList.head? = some '/' ∨ path.toList.getLast? = some '/' ∨
      '%' ∈ path.toList ∨ '\\' ∈ path.toList ∨
      (path.toList.splitOn '/').any
        (fun part => part.isEmpty || part = ['.'] || part = ['.', '.']) then
    .error s!"invalid portable View asset path {debug path}"
  else if ¬path.toList.all fun c =>
      View.isAsciiAlphanumeric c || c = '.' || c = '_' || c = '-' || c = '/' then
    .error s!"invalid portable View asset path {debug path}"
  else .ok ()

/-- The assets by path. No path may come twice. -/
def collectAssets (debug : String → String) (collected : List (String × Bytes)) :
    List PortableViewAsset → Except String (List (String × Bytes))
  | [] => .ok collected
  | asset :: assets => do
    validateAssetPath debug asset.path
    if (collected.lookup asset.path).isSome then
      .error s!"duplicate portable View asset {debug asset.path}"
    else collectAssets debug (insert collected asset.path asset.bytes) assets

namespace ViewAssetState
variable (state : ViewAssetState)

def labelsForApplications (applicationKappas : List String) : List String :=
  ((state.attachments.filter fun entry =>
    entry.2.id.applicationKappa ∈ applicationKappas).map Prod.fst).insertionSort (· ≤ ·)

/-- Generations wrap around, and leave out zero. -/
def bumped : UInt64 := if state.nextGeneration + 1 = 0 then 1 else state.nextGeneration + 1

def stage (debug : String → String) (call : Nat) (view : PortableViewAttachment) :
    Except String (StoredAttachment × StagedAttachment × ViewAssetState) := do
  validateToken view.id.token
  let assets ← collectAssets debug [] view.assets
  if (assets.lookup view.entry).isNone then
    .error s!"portable View entry {debug view.entry} is not present in its assets"
  else
    let label := windowLabel view.id.token
    let stored :=
      ⟨state.bumped, view.id, view.id.token, view.entry, assets, call⟩
    .ok
      (stored, ⟨state.bumped, view.id.token, label, view.entry, state.attachments.lookup label⟩,
        ⟨state.bumped, insert state.attachments label stored⟩)

/-- An attachment that has been staged over since is left alone. -/
def rollback (staged : StagedAttachment) : Bool × ViewAssetState :=
  match state.attachments.lookup staged.label with
  | none => (false, state)
  | some attachment =>
    if attachment.generation ≠ staged.generation then (false, state)
    else
      match staged.previous with
      | some previous =>
        (true, { state with attachments := insert state.attachments staged.label previous })
      | none => (true, { state with attachments := erase state.attachments staged.label })

def remove (id : ViewAttachmentId) : Option RemovedAttachment × ViewAssetState :=
  let label := windowLabel id.token
  match state.attachments.lookup label with
  | none => (none, state)
  | some attachment =>
    if attachment.id ≠ id then (none, state)
    else (some ⟨label, attachment⟩, { state with attachments := erase state.attachments label })

def restore (removed : RemovedAttachment) : Except String ViewAssetState :=
  if (state.attachments.lookup removed.label).isSome then
    .error
      s!"portable View attachment {removed.attachment.id.token} changed while detach was rolling back"
  else
    .ok { state with attachments := insert state.attachments removed.label removed.attachment }

end ViewAssetState

theorem windowLabel_inj {left right : String} :
    windowLabel left = windowLabel right ↔ left = right := String.append_right_inj _

/-- What `stage` checks of a view before it touches the store. -/
structure Stageable (debug : String → String) (view : PortableViewAttachment)
    (assets : List (String × Bytes)) : Prop where
  token : validateToken view.id.token = .ok ()
  collected : collectAssets debug [] view.assets = .ok assets
  entry : (assets.lookup view.entry).isSome

/-- Every path collected has passed its check. -/
theorem collectAssets_valid (h : collectAssets debug collected assets = .ok all)
    (hpath : (all.lookup path).isSome) :
    (collected.lookup path).isSome ∨ validateAssetPath debug path = .ok () := by
  induction assets generalizing collected with
  | nil =>
    obtain rfl := Except.ok.inj h
    exact .inl hpath
  | cons asset rest ih =>
    obtain ⟨hvalid, h⟩ := check_ok.mp h
    rcases ih (guard_ok.mp h).2 with hfound | hvalid'
    · rw [lookup_insert] at hfound
      split at hfound
      · rename_i hsame
        exact .inr (hsame ▸ hvalid)
      · exact .inl hfound
    · exact .inr hvalid'

theorem Stageable.entry_valid (h : Stageable debug view assets) :
    validateAssetPath debug view.entry = .ok () := by
  rcases collectAssets_valid h.collected h.entry with hfound | hvalid
  · simp at hfound
  · exact hvalid

namespace ViewAssetState
variable {state state' : ViewAssetState} {debug : String → String} {id : ViewAttachmentId}

/-- A staged view takes its label's place, and what was there before goes with it. -/
theorem stage_ok (h : state.stage debug call view = .ok (stored, staged, state')) :
    Stageable debug view stored.assets ∧
      stored = ⟨state.bumped, view.id, view.id.token, view.entry, stored.assets, call⟩ ∧
      staged = ⟨state.bumped, view.id.token, windowLabel view.id.token, view.entry,
        state.attachments.lookup (windowLabel view.id.token)⟩ ∧
      state' = ⟨state.bumped, insert state.attachments (windowLabel view.id.token) stored⟩ := by
  rw [stage, check_ok, bind_ok] at h
  obtain ⟨htoken, assets, hassets, h⟩ := h
  obtain ⟨hentry, h⟩ := guard_ok.mp h
  obtain ⟨rfl, rfl, rfl⟩ : _ = stored ∧ _ = staged ∧ _ = state' := by
    simpa only [Prod.mk.injEq] using Except.ok.inj h
  exact ⟨⟨htoken, hassets, by simpa using hentry⟩, rfl, rfl, rfl⟩

/-- While its own attachment is there, a rollback puts back what was there before. -/
theorem rollback_own (h : state.attachments.lookup staged.label = some stored)
    (hgeneration : stored.generation = staged.generation) :
    (state.rollback staged).1 = true ∧ ∀ label, (state.rollback staged).2.attachments.lookup label =
      if label = staged.label then staged.previous else state.attachments.lookup label := by
  rw [rollback, h]
  dsimp only
  rw [if_neg (not_not.mpr hgeneration)]
  cases staged.previous with
  | none => exact ⟨rfl, fun label => lookup_erase ..⟩
  | some previous => exact ⟨rfl, fun label => lookup_insert ..⟩

theorem remove_some (h : state.remove id = (some removed, state')) :
    state.attachments.lookup (windowLabel id.token) = some removed.attachment ∧
      removed.attachment.id = id ∧ removed.label = windowLabel id.token ∧
      state' = { state with attachments := erase state.attachments (windowLabel id.token) } := by
  rw [remove] at h
  split at h
  · cases h
  · rename_i attachment hfound
    split at h
    · cases h
    · rename_i hid
      obtain ⟨hremoved, rfl⟩ := Prod.mk.inj h
      obtain rfl := Option.some.inj hremoved
      exact ⟨hfound, not_not.mp hid, rfl, rfl⟩

theorem remove_none (h : state.remove id = (none, state')) : state' = state := by
  rw [remove] at h
  split at h
  · exact (Prod.mk.inj h).2.symm
  · split at h
    · exact (Prod.mk.inj h).2.symm
    · cases h

theorem restore_ok (h : state.restore removed = .ok state') :
    state.attachments.lookup removed.label = none ∧ state' =
      { state with attachments := insert state.attachments removed.label removed.attachment } := by
  rw [restore, guard_ok] at h
  exact ⟨by simpa only [Option.not_isSome_iff_eq_none] using h.1, (Except.ok.inj h.2).symm⟩

end ViewAssetState
end HologramLive.Desktop
