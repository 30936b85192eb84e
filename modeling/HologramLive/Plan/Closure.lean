import HologramLive.Lib.Result
import HologramLive.Plan.Types

namespace HologramLive.Plan
open Lib.Result

/-- Where the planner looks for an object outside the archive. It may answer by
what it was asked before, so equal questions can get different answers. -/
abbrev Resolver := List String → String → Except LiveError (Option Bytes)

inductive ResolutionFailure where
  | missing
  | mismatch (source : ResolutionSource)

/-- The resolver's tables, with the log of what was asked outside the archive. -/
structure ClosureResolver where
  embedded : List (String × Bytes)
  limits : PlanLimits
  referenced : List String := []
  failures : List (String × ResolutionFailure) := []
  objects : Objects := []
  blockers : List PlanBlocker := []
  resolvedBytes : Nat := 0
  embeddedObjectCount : Nat := 0
  halted : Bool := false
  asked : List String := []

namespace ClosureResolver

def block (closure : ClosureResolver) (blocker : PlanBlocker) : ClosureResolver :=
  { closure with blockers := closure.blockers ++ [blocker] }

def fail (closure : ClosureResolver) (kappa : String) (failure : ResolutionFailure) :
    ClosureResolver :=
  { closure with failures := (kappa, failure) :: closure.failures }

def failureBlocker (kappa : String) (edge : ManifestEdge) : ResolutionFailure → PlanBlocker
  | .missing => .missingObject kappa edge
  | .mismatch source => .contentMismatch kappa edge source

/-- Count a kappa on its first reference; `none` where the object limit is met. -/
def refer (closure : ClosureResolver) (kappa : String) : Option ClosureResolver :=
  if kappa ∈ closure.referenced then some closure
  else if closure.limits.maxObjects < closure.referenced.length + 1 then none
  else
    some { closure with
      referenced := closure.referenced ++ [kappa]
      embeddedObjectCount := closure.embeddedObjectCount +
        if (closure.embedded.lookup kappa).isSome then 1 else 0 }

/-- The bytes an archive or the resolver has under a kappa. -/
def fetch (resolver : Resolver) (closure : ClosureResolver) (kappa : String) :
    Except LiveError (Option Bytes × ResolutionSource × ClosureResolver) :=
  match closure.embedded.lookup kappa with
  | some bytes => .ok (some bytes, .embedded, closure)
  | none => do
    let bytes ← resolver closure.asked kappa
    .ok (bytes, .localStore, { closure with asked := closure.asked ++ [kappa] })

/-- Check fetched bytes against their kappa and the byte limit, and keep them. -/
def keep (upstream : Upstream) (closure : ClosureResolver) (kappa : String)
    (edge : ManifestEdge) (bytes : Option Bytes) (source : ResolutionSource) :
    Option ResolvedObject × ClosureResolver :=
  match bytes with
  | none => (none, (closure.fail kappa .missing).block (.missingObject kappa edge))
  | some bytes =>
    if upstream.addressBytes bytes ≠ kappa then
      (none, (closure.fail kappa (.mismatch source)).block (.contentMismatch kappa edge source))
    else
      let nextTotal := closure.resolvedBytes + bytes.length
      if closure.limits.maxResolvedBytes < nextTotal then
        (none, { closure.block (.limitExceeded "resolved_bytes" closure.limits.maxResolvedBytes
          nextTotal (some edge)) with halted := true })
      else
        let object : ResolvedObject := ⟨kappa, bytes, source⟩
        (some object, { closure with
          resolvedBytes := nextTotal
          objects := (kappa, object) :: closure.objects })

def resolve (upstream : Upstream) (resolver : Resolver) (closure : ClosureResolver)
    (kappa : String) (edge : ManifestEdge) :
    Except LiveError (Option ResolvedObject × ClosureResolver) :=
  match closure.objects.lookup kappa with
  | some object => .ok (some object, closure)
  | none =>
    match closure.failures.lookup kappa with
    | some failure => .ok (none, closure.block (failureBlocker kappa edge failure))
    | none =>
      if closure.halted then .ok (none, closure)
      else
        match closure.refer kappa with
        | none =>
          .ok (none, { closure.block (.limitExceeded "resolved_objects" closure.limits.maxObjects
            (closure.referenced.length + 1) (some edge)) with halted := true })
        | some closure => do
          let (bytes, source, closure) ← closure.fetch resolver kappa
          .ok (closure.keep upstream kappa edge bytes source)

/-- Objects are kept under their address, and whatever was given up on has left a
blocker. -/
structure Valid (upstream : Upstream) (closure : ClosureResolver) : Prop where
  addressed : ∀ kappa object, closure.objects.lookup kappa = some object →
    object.kappa = kappa ∧ upstream.addressBytes object.bytes = kappa
  explained : closure.halted = true ∨ closure.failures ≠ [] →
    ∃ blocker ∈ closure.blockers, blocker.closing

/-- What is never taken back. -/
structure Grows (before after : ClosureResolver) : Prop where
  objects : ∀ kappa object, before.objects.lookup kappa = some object →
    after.objects.lookup kappa = some object
  blockers : before.blockers <+: after.blockers

theorem Grows.refl (closure : ClosureResolver) : Grows closure closure :=
  ⟨fun _ _ h => h, List.prefix_refl _⟩

theorem Grows.trans (h : Grows first second) (h' : Grows second third) : Grows first third :=
  ⟨fun kappa object hobject => h'.objects kappa object (h.objects kappa object hobject),
    h.blockers.trans h'.blockers⟩

theorem grows_block (closure : ClosureResolver) (blocker : PlanBlocker) :
    Grows closure (closure.block blocker) :=
  ⟨fun _ _ h => h, List.prefix_append _ _⟩

theorem Valid.block {closure : ClosureResolver} (h : closure.Valid upstream)
    (blocker : PlanBlocker) : (closure.block blocker).Valid upstream :=
  ⟨h.addressed, fun hgiven => by
    obtain ⟨found, hfound, hcloses⟩ := h.explained hgiven
    exact ⟨found, List.mem_append_left _ hfound, hcloses⟩⟩

/-- A resolution that ends with its object in the tables. -/
structure Found (upstream : Upstream) (before : ClosureResolver) (kappa : String)
    (object : ResolvedObject) (after : ClosureResolver) : Prop where
  valid : after.Valid upstream
  grows : before.Grows after
  blockers : after.blockers = before.blockers
  kept : after.objects.lookup kappa = some object

theorem Found.kappa_eq (h : Found upstream before kappa object after) : object.kappa = kappa :=
  (h.valid.addressed kappa object h.kept).1

inductive Resolved (upstream : Upstream) (closure : ClosureResolver) (kappa : String) :
    Option ResolvedObject × ClosureResolver → Prop where
  | found (h : Found upstream closure kappa object after) :
    Resolved upstream closure kappa (some object, after)
  | blocked (valid : after.Valid upstream) (grows : closure.Grows after)
    (closes : ∃ blocker ∈ after.blockers, blocker.closing) :
    Resolved upstream closure kappa (none, after)

theorem Resolved.valid {closure : ClosureResolver} (h : Resolved upstream closure kappa ended) :
    ended.2.Valid upstream := by
  cases h with
  | found h => exact h.valid
  | blocked valid => exact valid

theorem Resolved.grows {closure : ClosureResolver}
    (h : Resolved upstream closure kappa ended) : closure.Grows ended.2 := by
  cases h with
  | found h => exact h.grows
  | blocked _ grows => exact grows

theorem blocked_by {closure after : ClosureResolver} (hvalid : closure.Valid upstream)
    (hobjects : after.objects = closure.objects)
    (hblockers : after.blockers = closure.blockers ++ [blocker])
    (hcloses : PlanBlocker.closing blocker) :
    Resolved upstream closure kappa (none, after) := by
  have hmem : blocker ∈ after.blockers := by simp [hblockers]
  refine .blocked ⟨?_, fun _ => ⟨blocker, hmem, hcloses⟩⟩ ⟨?_, ?_⟩ ⟨blocker, hmem, hcloses⟩
  · rw [hobjects]
    exact hvalid.addressed
  · rw [hobjects]
    exact fun _ _ h => h
  · rw [hblockers]
    exact List.prefix_append _ _

theorem kept_under {closure after : ClosureResolver} (hvalid : closure.Valid upstream)
    (habsent : closure.objects.lookup kappa = none)
    (haddress : upstream.addressBytes bytes = kappa)
    (hobjects : after.objects = (kappa, ⟨kappa, bytes, source⟩) :: closure.objects)
    (hblockers : after.blockers = closure.blockers) (hfailures : after.failures = closure.failures)
    (hhalted : after.halted = closure.halted) :
    Resolved upstream closure kappa (some ⟨kappa, bytes, source⟩, after) := by
  refine .found ⟨⟨fun other object hobject => ?_, ?_⟩, ⟨fun other object hobject => ?_, ?_⟩,
    hblockers, by simp [hobjects]⟩
  · rw [hobjects, List.lookup_cons] at hobject
    split at hobject
    · rename_i hsame
      cases hobject
      obtain rfl := LawfulBEq.eq_of_beq hsame
      exact ⟨rfl, haddress⟩
    · exact hvalid.addressed other object hobject
  · rw [hblockers, hfailures, hhalted]
    exact hvalid.explained
  · rw [hobjects, List.lookup_cons]
    split
    · rename_i hsame
      obtain rfl := LawfulBEq.eq_of_beq hsame
      rw [habsent] at hobject
      cases hobject
    · exact hobject
  · rw [hblockers]

theorem admit_resolved {closure : ClosureResolver} (hvalid : closure.Valid upstream)
    (habsent : closure.objects.lookup kappa = none) (edge : ManifestEdge)
    (bytes : Option Bytes) (source : ResolutionSource) :
    Resolved upstream closure kappa (closure.keep upstream kappa edge bytes source) := by
  cases bytes with
  | none => exact blocked_by hvalid rfl rfl rfl
  | some bytes =>
    by_cases haddress : upstream.addressBytes bytes = kappa
    · by_cases hlimit : closure.limits.maxResolvedBytes < closure.resolvedBytes + bytes.length
      · simp only [keep, haddress, ne_eq, not_true_eq_false, hlimit, ↓reduceIte]
        exact blocked_by hvalid rfl rfl rfl
      · simp only [keep, haddress, ne_eq, not_true_eq_false, hlimit, ↓reduceIte]
        exact kept_under hvalid habsent haddress rfl rfl rfl rfl
    · simp only [keep, ne_eq, haddress, not_false_eq_true, ↓reduceIte]
      exact blocked_by hvalid rfl rfl rfl

theorem fetch_grows {closure : ClosureResolver}
    (h : closure.fetch resolver kappa = .ok (bytes, source, after)) :
    ∃ asked, after = { closure with asked } := by
  unfold fetch at h
  split at h
  · cases h
    exact ⟨_, rfl⟩
  · obtain ⟨_, _, hlast⟩ := bind_ok.mp h
    cases hlast
    exact ⟨_, rfl⟩

theorem refer_eq {closure : ClosureResolver} (h : closure.refer kappa = some after) :
    ∃ referenced count,
      after = { closure with referenced, embeddedObjectCount := count } := by
  unfold refer at h
  split at h
  · cases h
    exact ⟨_, _, rfl⟩
  split at h
  · cases h
  · cases h
    exact ⟨_, _, rfl⟩

theorem resolve_resolved {closure : ClosureResolver} (hvalid : closure.Valid upstream)
    (h : closure.resolve upstream resolver kappa edge = .ok ended) :
    Resolved upstream closure kappa ended := by
  unfold resolve at h
  split at h
  · rename_i object hobject
    cases h
    exact .found ⟨hvalid, .refl _, rfl, hobject⟩
  · rename_i habsent
    split at h
    · rename_i failure hfailure
      cases h
      have hgiven : closure.failures ≠ [] := by
        rintro hnil
        simp [hnil] at hfailure
      refine .blocked (hvalid.block _) (grows_block _ _) ?_
      exact ((hvalid.block _).explained (.inr hgiven))
    split at h
    · rename_i hhalted
      cases h
      exact .blocked hvalid (.refl _) (hvalid.explained (.inl hhalted))
    split at h
    · cases h
      exact blocked_by hvalid rfl rfl rfl
    · rename_i referred hrefer
      obtain ⟨⟨bytes, source, fetched⟩, hfetch, hlast⟩ := bind_ok.mp h
      cases hlast
      obtain ⟨referenced, count, rfl⟩ := refer_eq hrefer
      obtain ⟨asked, rfl⟩ := fetch_grows hfetch
      have hvalid' : Valid upstream { closure with
          referenced, embeddedObjectCount := count, asked } :=
        ⟨hvalid.addressed, hvalid.explained⟩
      have hadmit := admit_resolved hvalid' habsent edge bytes source
      generalize keep upstream _ kappa edge bytes source = admitted at hadmit ⊢
      cases hadmit with
      | found h =>
        exact .found ⟨h.valid, ⟨h.grows.objects, h.grows.blockers⟩, h.blockers, h.kept⟩
      | blocked valid grows closes => exact .blocked valid ⟨grows.objects, grows.blockers⟩ closes

/-- No blocker so far leaves part of the closure unresolved. -/
def Clean (closure : ClosureResolver) : Prop := ∀ blocker ∈ closure.blockers, blocker.closing = false

theorem Grows.clean (h : Grows before after) (hclean : after.Clean) : before.Clean :=
  fun blocker hblocker => hclean blocker (h.blockers.subset hblocker)

theorem Clean.running {closure : ClosureResolver} (hclean : closure.Clean)
    (hvalid : closure.Valid upstream) : closure.halted = false := by
  by_contra hhalted
  obtain ⟨blocker, hmem, hcloses⟩ := hvalid.explained (.inl (by simpa using hhalted))
  rw [hclean blocker hmem] at hcloses
  cases hcloses

/-- While nothing closing is met, every resolution finds its object. -/
theorem Resolved.clean {closure : ClosureResolver}
    (h : Resolved upstream closure kappa (outcome, after)) (hclean : after.Clean) :
    ∃ object, outcome = some object ∧ Found upstream closure kappa object after := by
  cases h with
  | found h => exact ⟨_, rfl, h⟩
  | blocked valid grows closes =>
    obtain ⟨blocker, hmem, hcloses⟩ := closes
    rw [hclean blocker hmem] at hcloses
    cases hcloses

/-- What is found is in the tables, whatever they held before. -/
theorem resolve_found {closure : ClosureResolver}
    (h : closure.resolve upstream resolver kappa edge = .ok (some object, after)) :
    after.objects.lookup kappa = some object := by
  unfold resolve at h
  split at h
  · rename_i hobject
    cases h
    exact hobject
  split at h
  · cases h
  split at h
  · cases h
  split at h
  · cases h
  obtain ⟨⟨bytes, source, fetched⟩, _, hlast⟩ := bind_ok.mp h
  cases bytes with
  | none => simp [keep] at hlast
  | some bytes =>
    dsimp only [keep] at hlast
    split at hlast
    · cases hlast
    split at hlast
    · cases hlast
    · cases hlast
      simp

/-- Fetched bytes are given up, refused by the byte limit, or kept. -/
theorem keep_cases (upstream : Upstream) (closure : ClosureResolver) (kappa : String)
    (edge : ManifestEdge) (bytes : Option Bytes) (source : ResolutionSource) :
    (∃ reason blocker, closure.keep upstream kappa edge bytes source =
      (none, (closure.fail kappa reason).block blocker)) ∨
    (∃ blocker, closure.keep upstream kappa edge bytes source =
      (none, { closure.block blocker with halted := true })) ∨
    ∃ content, bytes = some content ∧
      closure.resolvedBytes + content.length ≤ closure.limits.maxResolvedBytes ∧
      closure.keep upstream kappa edge bytes source = (some ⟨kappa, content, source⟩,
        { closure with
          resolvedBytes := closure.resolvedBytes + content.length
          objects := (kappa, ⟨kappa, content, source⟩) :: closure.objects }) := by
  cases bytes with
  | none => exact .inl ⟨_, _, rfl⟩
  | some content =>
    unfold keep
    dsimp only
    split
    · exact .inl ⟨_, _, rfl⟩
    split
    · exact .inr (.inl ⟨_, rfl⟩)
    · rename_i hfits
      exact .inr (.inr ⟨content, rfl, not_lt.mp hfits, rfl⟩)

/-- What a resolution can end in. -/
inductive Resolution (upstream : Upstream) (resolver : Resolver) (closure : ClosureResolver)
    (kappa : String) (edge : ManifestEdge) : Option ResolvedObject × ClosureResolver → Prop where
  | known (object : closure.objects.lookup kappa = some found) :
    Resolution upstream resolver closure kappa edge (some found, closure)
  | failed (failure : closure.failures.lookup kappa = some reason) :
    Resolution upstream resolver closure kappa edge
      (none, closure.block (failureBlocker kappa edge reason))
  | halted (halts : closure.halted = true) :
    Resolution upstream resolver closure kappa edge (none, closure)
  | refused :
    Resolution upstream resolver closure kappa edge
      (none, { closure.block (.limitExceeded "resolved_objects" closure.limits.maxObjects
        (closure.referenced.length + 1) (some edge)) with halted := true })
  | embedded (absent : closure.objects.lookup kappa = none)
    (referred : closure.refer kappa = some counted)
    (found : closure.embedded.lookup kappa = some bytes) :
    Resolution upstream resolver closure kappa edge
      (counted.keep upstream kappa edge (some bytes) .embedded)
  | asked (absent : closure.objects.lookup kappa = none)
    (untried : closure.failures.lookup kappa = none) (running : closure.halted = false)
    (referred : closure.refer kappa = some counted)
    (outside : closure.embedded.lookup kappa = none)
    (answer : resolver closure.asked kappa = .ok bytes) :
    Resolution upstream resolver closure kappa edge
      ({ counted with asked := closure.asked ++ [kappa] }.keep upstream kappa edge bytes
        .localStore)

theorem resolve_cases {closure : ClosureResolver}
    (h : closure.resolve upstream resolver kappa edge = .ok ended) :
    Resolution upstream resolver closure kappa edge ended := by
  unfold resolve at h
  split at h
  · cases h
    exact .known ‹_›
  rename_i habsent
  split at h
  · cases h
    exact .failed ‹_›
  rename_i huntried
  split at h
  · cases h
    exact .halted ‹_›
  rename_i hrunning
  split at h
  · cases h
    exact .refused
  rename_i counted hrefer
  obtain ⟨⟨bytes, source, fetched⟩, hfetch, hlast⟩ := bind_ok.mp h
  cases hlast
  obtain ⟨referenced, count, hcounted⟩ := refer_eq hrefer
  unfold fetch at hfetch
  split at hfetch
  · rename_i hembedded
    cases hfetch
    rw [hcounted] at hembedded
    exact .embedded habsent hrefer hembedded
  · rename_i houtside
    obtain ⟨bytes, hanswer, hlast⟩ := bind_ok.mp hfetch
    cases hlast
    rw [hcounted] at houtside hanswer
    have hasked : counted.asked = closure.asked := by rw [hcounted]
    rw [hasked]
    exact .asked habsent huntried (by simpa using hrunning) hrefer houtside hanswer

end ClosureResolver
end HologramLive.Plan
