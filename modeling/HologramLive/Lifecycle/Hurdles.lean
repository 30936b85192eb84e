import HologramLive.Lifecycle.Prepare

namespace HologramLive.Lifecycle
open Plan Lib.Result Lib.DepthFirst

/-- What a startup meets in order: a check, with the rollback it fails into if it
has one; the opening of an invocation gate; the preparation of a layer. -/
inductive Hurdle where
  | check (guarded : Bool) (fault : Option LiveError)
  | opening
  | prepare (slot : Slot) (applicationKappa : String) (outcome : Except LiveError PreparedLayer)

def faultOf : Except LiveError α → Option LiveError
  | .ok _ => none
  | .error error => some error

section Hurdles
variable (upstream : Upstream) (plan : ApplicationPlan) (registry : ProviderRegistry)

/-- What preparing a layer comes to when `ordinal` layers were prepared before. -/
def layerOutcome (assignment : Assignment) (ordinal : Nat) (layer : ResolvedLayer) :
    Except LiveError PreparedLayer := do
  let provider ← layerProvider upstream registry assignment.applicationKappa layer
  provider.prepare ordinal (prepareContext plan registry assignment layer)

def layerHurdles (assignment : Assignment) : Nat → Nat → List ResolvedLayer → List Hurdle
  | _, _, [] => []
  | ordinal, place, layer :: rest =>
    .check false (faultOf (layerProvider upstream registry assignment.applicationKappa layer)) ::
    .prepare ⟨assignment.application, place⟩ assignment.applicationKappa
      (layerOutcome upstream plan registry assignment ordinal layer) ::
    layerHurdles assignment (ordinal + 1) (place + 1) rest

/-- The layers an application contributes if all of them can be prepared. -/
def layerInstances (assignment : Assignment) : Nat → Nat → List ResolvedLayer →
    List PreparedApplicationLayer
  | _, _, [] => []
  | ordinal, place, layer :: rest =>
    match layerOutcome upstream plan registry assignment ordinal layer with
    | .error _ => []
    | .ok instance' =>
      ⟨⟨assignment.application, place⟩, assignment.applicationKappa, instance'⟩ ::
        layerInstances assignment (ordinal + 1) (place + 1) rest

/-- The hurdles of one application, reached with `ordinal` layers prepared and
`opened` invocation gates. -/
def applicationHurdles (admittedGrants : List (Nat × EffectiveGrant)) (applicationIndex : Nat)
    (ordinal opened : Nat) : List Hurdle :=
  match applicationLayers plan applicationIndex with
  | .error error => [.check false (some error)]
  | .ok (applicationKappa, layers) =>
    match viewPrimary plan applicationIndex layers with
    | .error error => [.check true (some error)]
    | .ok primary =>
      match applicationRequestedCapabilities plan applicationIndex with
      | .error error => [.opening, .check false (some error)]
      | .ok requested =>
        match admittedGrants.lookup applicationIndex with
        | none =>
          [.opening, .check false (some (.conflict
            s!"runtime lost admitted grant for application {applicationKappa}"))]
        | some grant =>
          let assignment : Assignment :=
            ⟨applicationIndex, applicationKappa, grant, requested, ⟨applicationKappa, opened⟩⟩
          .opening :: layerHurdles upstream plan registry assignment ordinal 0 layers ++
            [.check true (faultOf (bindPrimary applicationKappa primary
              (layerInstances upstream plan registry assignment ordinal 0 layers)))]

def layerCount (applicationIndex : Nat) : Nat :=
  match applicationLayers plan applicationIndex with
  | .error _ => 0
  | .ok (_, layers) => layers.length

def hurdles (admittedGrants : List (Nat × EffectiveGrant)) : List Nat → Nat → Nat → List Hurdle
  | [], _, _ => []
  | applicationIndex :: rest, ordinal, opened =>
    applicationHurdles upstream plan registry admittedGrants applicationIndex ordinal opened ++
      hurdles admittedGrants rest (ordinal + layerCount plan applicationIndex) (opened + 1)

/-- Every hurdle between the first application and the first start. -/
def startupHurdles (admittedGrants : List (Nat × EffectiveGrant)) : List Hurdle :=
  match startupOrder plan with
  | .error _ => []
  | .ok (_, order) => hurdles upstream plan registry admittedGrants order 0 0

end Hurdles

namespace Hurdle

def passes : Hurdle → Prop
  | .check _ fault => fault = none
  | .opening => True
  | .prepare _ _ outcome => outcome.isOk = true

/-- The layer a hurdle prepares. -/
def attempt : Hurdle → Option Slot
  | .prepare slot _ _ => some slot
  | _ => none

/-- What a hurdle adds to the prepared layers. -/
def gain : Hurdle → Option PreparedApplicationLayer
  | .prepare slot applicationKappa (.ok instance') => some ⟨slot, applicationKappa, instance'⟩
  | _ => none

/-- A failing check that leaves without rollback. -/
def unguarded : Hurdle → Prop
  | .check false (some _) => True
  | _ => False

end Hurdle

/-- Clear hurdles until one fails. -/
def follow : List Hurdle → Progress → Except Run Progress
  | [], progress => .ok progress
  | .check _ none :: rest, progress => follow rest progress
  | .check false (some error) :: _, progress => .error (bail progress error)
  | .check true (some error) :: _, progress => .error (rollBack progress error)
  | .opening :: rest, progress =>
    follow rest { progress with invocations := progress.invocations + 1 }
  | .prepare slot _ (.error error) :: _, progress =>
    .error (rollBack { progress with calls := progress.calls ++ [.prepare slot false] } error)
  | .prepare slot applicationKappa (.ok instance') :: rest, progress =>
    follow rest (progress.push ⟨slot, applicationKappa, instance'⟩)

theorem follow_append (front back : List Hurdle) (progress : Progress) :
    follow (front ++ back) progress = (follow front progress >>= follow back) := by
  induction front generalizing progress with
  | nil => rfl
  | cons hurdle rest ih =>
    cases hurdle with
    | check guarded fault =>
      cases fault with
      | none => simpa [follow] using ih progress
      | some error => cases guarded <;> rfl
    | opening => simpa [follow] using ih _
    | prepare slot kappa outcome =>
      cases outcome with
      | error error => rfl
      | ok instance' => simpa [follow] using ih _

section Loops
variable {upstream : Upstream} {plan : ApplicationPlan} {registry : ProviderRegistry}

theorem prepareLayers_follow (assignment : Assignment) (place : Nat) (layers : List ResolvedLayer)
    (progress : Progress) :
    prepareLayers upstream plan registry assignment place layers progress =
      follow (layerHurdles upstream plan registry assignment progress.prepared.length place layers)
        progress := by
  induction layers generalizing place progress with
  | nil => rfl
  | cons layer rest ih =>
    rw [prepareLayers, layerHurdles]
    cases hprovider : layerProvider upstream registry assignment.applicationKappa layer with
    | error error => rfl
    | ok provider =>
      have houtcome : layerOutcome upstream plan registry assignment progress.prepared.length layer =
          provider.prepare progress.prepared.length
            (prepareContext plan registry assignment layer) := by
        simp [layerOutcome, hprovider]
      rw [houtcome]
      cases hprepare : provider.prepare progress.prepared.length
          (prepareContext plan registry assignment layer) with
      | error error => simp only [faultOf, follow, hprepare]
      | ok instance' => simp only [faultOf, follow, hprepare, ih, Progress.push_length]

theorem follow_layerHurdles (assignment : Assignment) (place : Nat) (layers : List ResolvedLayer)
    (progress : Progress) (h : follow (layerHurdles upstream plan registry assignment progress.prepared.length place layers)
      progress = .ok progress') :
    progress'.prepared = progress.prepared ++
        layerInstances upstream plan registry assignment progress.prepared.length place layers ∧
      (layerInstances upstream plan registry assignment progress.prepared.length place layers).length =
        layers.length ∧ progress'.invocations = progress.invocations := by
  induction layers generalizing place progress with
  | nil =>
    cases h
    simp [layerInstances]
  | cons layer rest ih =>
    rw [layerHurdles] at h
    cases hprovider : layerProvider upstream registry assignment.applicationKappa layer with
    | error error => simp [hprovider, faultOf, follow] at h
    | ok provider =>
      cases houtcome : layerOutcome upstream plan registry assignment progress.prepared.length
          layer with
      | error error => simp [hprovider, houtcome, faultOf, follow] at h
      | ok instance' =>
        simp only [hprovider, houtcome, faultOf, follow] at h
        rw [← Progress.push_length progress
          ⟨⟨assignment.application, place⟩, assignment.applicationKappa, instance'⟩] at h
        obtain ⟨hprepared, hcount, hinvocations⟩ := ih (place + 1) (progress.push _) h
        rw [Progress.push_length] at hprepared hcount
        simp only [layerInstances, houtcome]
        exact ⟨by simp [hprepared, Progress.push], by simp [hcount], hinvocations⟩

theorem prepareApplication_follow (admittedGrants : List (Nat × EffectiveGrant))
    (applicationIndex : Nat) (progress : Progress) :
    prepareApplication upstream plan registry admittedGrants applicationIndex progress =
      follow (applicationHurdles upstream plan registry admittedGrants applicationIndex
        progress.prepared.length progress.invocations) progress := by
  unfold prepareApplication applicationHurdles
  cases applicationLayers plan applicationIndex with
  | error error => rfl
  | ok named =>
    obtain ⟨applicationKappa, layers⟩ := named
    dsimp only
    cases viewPrimary plan applicationIndex layers with
    | error error => rfl
    | ok primary =>
      dsimp only
      cases applicationRequestedCapabilities plan applicationIndex with
      | error error => rfl
      | ok requested =>
        dsimp only
        cases admittedGrants.lookup applicationIndex with
        | none => rfl
        | some grant =>
          dsimp only
          rw [List.cons_append, follow, follow_append, prepareLayers_follow]
          cases hlayers : follow _ _ with
          | error run => rfl
          | ok progress' =>
            obtain ⟨hprepared, _⟩ := follow_layerHurdles _ 0 layers _ hlayers
            simp only [ok_bind]
            rw [hprepared, List.drop_left]
            cases bindPrimary applicationKappa primary _ <;> rfl

theorem follow_applicationHurdles {admittedGrants : List (Nat × EffectiveGrant)}
    {applicationIndex : Nat}
    (h : follow (applicationHurdles upstream plan registry admittedGrants applicationIndex
      progress.prepared.length progress.invocations) progress = .ok progress') :
    progress'.prepared.length = progress.prepared.length + layerCount plan applicationIndex ∧
      progress'.invocations = progress.invocations + 1 := by
  unfold applicationHurdles at h
  unfold layerCount
  cases hlayers : applicationLayers plan applicationIndex with
  | error error => simp [hlayers, follow] at h
  | ok named =>
    obtain ⟨applicationKappa, layers⟩ := named
    simp only [hlayers] at h ⊢
    cases hview : viewPrimary plan applicationIndex layers with
    | error error => simp [hview, follow] at h
    | ok primary =>
      cases hrequested : applicationRequestedCapabilities plan applicationIndex with
      | error error => simp [hview, hrequested, follow] at h
      | ok requested =>
        cases hgrant : admittedGrants.lookup applicationIndex with
        | none => simp [hview, hrequested, hgrant, follow] at h
        | some grant =>
          simp only [hview, hrequested, hgrant, List.cons_append, follow, follow_append, bind_ok] at h
          obtain ⟨reached, hfollow, hlast⟩ := h
          obtain ⟨hprepared, hcount, hinvocations⟩ := follow_layerHurdles _ 0 layers
            { progress with invocations := progress.invocations + 1 } hfollow
          have hsame : progress' = reached := by
            cases hbind : bindPrimary applicationKappa primary (layerInstances upstream plan registry
              ⟨applicationIndex, applicationKappa, grant, requested,
                ⟨applicationKappa, progress.invocations⟩⟩ progress.prepared.length 0 layers) with
            | error error => simp [hbind, faultOf, follow] at hlast
            | ok _ => simpa [hbind, faultOf, follow, eq_comm] using hlast
          rw [hsame, hprepared, List.length_append]
          exact ⟨by rw [hcount], hinvocations⟩

theorem prepareApplications_follow (admittedGrants : List (Nat × EffectiveGrant))
    (order : List Nat) (progress : Progress) :
    prepareApplications upstream plan registry admittedGrants order progress =
      follow (hurdles upstream plan registry admittedGrants order
        progress.prepared.length progress.invocations) progress := by
  induction order generalizing progress with
  | nil => rfl
  | cons applicationIndex rest ih =>
    rw [prepareApplications, hurdles, follow_append, prepareApplication_follow]
    cases hfollow : follow _ _ with
    | error run => rfl
    | ok progress' =>
      obtain ⟨hprepared, hinvocations⟩ := follow_applicationHurdles hfollow
      rw [ok_bind, ok_bind, ih, hprepared, hinvocations]

end Loops

end HologramLive.Lifecycle
