import HologramLive.Artifact.Published
import HologramLive.Lib.Interleaving

/-! Pushes of several clients to one reference, call by call and in any order. -/

namespace HologramLive.Artifact
open Lib Lib.Files Lib.Interleaving Plan Store

/-- Who pushes: a local store, an archive and what inspecting it gave. -/
structure Client where
  store : DiskStore
  files : FileSystem
  archiveBytes : Bytes
  inspection : HoloInspection

/-- A push with the calls that are ahead of it, and how many manifests had landed under the
tag when it looked for the tag. -/
structure Running where
  files : FileSystem
  program : PushProgram PushReport
  looked : Option Nat := none

structure Race where
  registry : Registry
  landed : Nat := 0
  pushes : List Running

/-- The next call of one of the pushes, and what becomes of it. -/
structure Move where
  place : Nat
  answer : Answer × Verdict

def looks : ∀ {β : Type}, Either LayerPublish FileCall β → Bool
  | _, .left (.tagExists _ _) => true
  | _, _ => false

def lands (answer : Answer) : ∀ {β : Type}, Either LayerPublish FileCall β → Nat
  | _, .left (.putManifest _ _ _) => if answer.landed then 1 else 0
  | _, _ => 0

namespace Race

def step (race : Race) (move : Move) : Option Race :=
  match race.pushes[move.place]? with
  | none => none
  | some running =>
    match running.program with
    | .done _ => none
    | .fail _ => none
    | .call operation next =>
      let served := Either.serve Registry.serve Files.serve operation move.answer
        (race.registry, running.files)
      some
        { registry := served.2.1
          landed := race.landed + lands move.answer.1 operation
          pushes := race.pushes.set move.place
            { files := served.2.2, program := next served.1
              looked := if looks operation then some race.landed else running.looked } }

end Race

def Client.push (client : Client) (codec : JsonCodec) (reference : ArtifactRef) :
    PushProgram PushReport :=
  Artifact.push client.store codec reference client.archiveBytes client.inspection false

/-- Pushes that have yet to begin. None of them is forced. -/
def Race.start (registry : Registry) (codec : JsonCodec) (reference : ArtifactRef)
    (clients : List Client) : Race :=
  { registry
    pushes := clients.map fun client =>
      { files := client.files, program := client.push codec reference } }

def sendsManifest : PushProgram PushReport → Bool
  | .call (.left (.putManifest _ _ _)) _ => true
  | _ => false

/-- A push sends its manifest only if none has landed since it looked for the tag. -/
def Undisturbed (race : Race) (move : Move) : Prop :=
  ∀ running, race.pushes[move.place]? = some running → sendsManifest running.program = true →
    running.looked = some race.landed

def Running.succeeded (running : Running) : Bool :=
  match running.program with
  | .done _ => true
  | _ => false

section Quiet
variable {reference : ArtifactRef}

/-- What is left of a push that has found its tag free: it does not look again, and its
manifest is the last thing it sends. -/
def Quiet (reference : ArtifactRef) : PushProgram PushReport → Prop
  | .done _ => False
  | .fail _ => True
  | .call (.left (.tagExists _ _)) _ => False
  | .call (.left (.putManifest repository tag _)) next =>
    repository = reference.repository ∧ tag = reference.tag ∧ (∃ report, next (.ok ()) = .done report) ∧
      ∀ error, next (.error error) = .fail error
  | .call (.left (.putBlob _ _ _ _)) next => ∀ reply, Quiet reference (next reply)
  | .call (.right _) next => ∀ reply, Quiet reference (next reply)

/-- A call that has nothing to do with tags. -/
def tagless : ∀ {β : Type}, Either LayerPublish FileCall β → Prop
  | _, .left (.putBlob _ _ _ _) => True
  | _, .left _ => False
  | _, .right _ => True

theorem Quiet.bind {program : PushProgram α} {rest : α → PushProgram PushReport}
    (h : program.Uses tagless) (hrest : ∀ value, Quiet reference (rest value)) :
    Quiet reference (program >>= rest) := by
  induction program with
  | done value => exact hrest value
  | fail error => trivial
  | call operation next ih =>
    cases operation with
    | right operation => exact fun reply => ih reply (h.2 reply)
    | left operation =>
      cases operation with
      | putBlob repository kappa mediaType bytes => exact fun reply => ih reply (h.2 reply)
      | putManifest repository tag body => exact h.1.elim
      | tagExists repository tag => exact h.1.elim

theorem gather_tagless (store : DiskStore) (kappas : List String) :
    (gather store kappas).Uses tagless := by
  induction kappas with
  | nil => trivial
  | cons kappa rest ih =>
    apply Program.Uses.bind
    · exact Program.Uses.translate (fun _ => trivial) _
    · intro found
      cases found with
      | none => trivial
      | some bytes => exact ih.bind fun _ => trivial

theorem putBlob_tagless (repository kappa mediaType : String) (bytes : Bytes) :
    (publish (.putBlob repository kappa mediaType bytes)).Uses tagless :=
  ⟨trivial, fun reply => .ofExcept reply⟩

theorem upload_tagless (repository : String) (payloads : List (String × Bytes)) (uploaded : Uploaded) :
    (upload repository payloads uploaded).Uses tagless := by
  induction payloads generalizing uploaded with
  | nil => trivial
  | cons payload rest ih => exact (putBlob_tagless ..).bind fun _ => ih _

/-- A push looks for its tag first. It goes on when the tag is free. -/
theorem push_looks (client : Client) (codec : JsonCodec) (reference : ArtifactRef) :
    ∃ next, client.push codec reference =
        .call (.left (.tagExists reference.repository reference.tag)) next ∧
      (∀ error, next (.error error) = .fail error) ∧ (∃ error, next (.ok true) = .fail error) ∧
      Quiet reference (next (.ok false)) := by
  refine ⟨_, rfl, fun _ => rfl, ⟨_, rfl⟩, ?_⟩
  apply Quiet.bind (gather_tagless _ _)
  intro payloads
  apply Quiet.bind (putBlob_tagless ..)
  intro _
  apply Quiet.bind (upload_tagless ..)
  intro uploaded
  apply Quiet.bind (.ofExcept _)
  intro body
  exact ⟨rfl, rfl, ⟨_, rfl⟩, fun _ => rfl⟩

end Quiet

section Invariant
variable {reference : ArtifactRef} {codec : JsonCodec}

def Race.tag (race : Race) (reference : ArtifactRef) : Option Bytes :=
  race.registry.tags reference.repository reference.tag

/-- How far a push can have come. One that found its tag free and still sees as many
manifests as then has a free tag before it. -/
inductive Stage (codec : JsonCodec) (reference : ArtifactRef) (race : Race) (running : Running) : Prop
  | fresh (client : Client) (program : running.program = client.push codec reference)
  | free (count : Nat) (quiet : Quiet reference running.program) (looked : running.looked = some count)
      (before : count ≤ race.landed) (free : count = race.landed → race.tag reference = none)
  | ended (outcome : running.program.outcome.isSome = true)

/-- What holds in every run: manifests that have landed are under the tag, and a push that
succeeded has landed one. -/
structure Orderly (codec : JsonCodec) (reference : ArtifactRef) (race : Race) : Prop where
  stages : ∀ running ∈ race.pushes, Stage codec reference race running
  resolved : 0 < race.landed → (race.tag reference).isSome = true
  succeeded : ∀ running ∈ race.pushes, running.succeeded = true → 0 < race.landed

/-- What a step does: it leaves the tag alone and nobody succeeds by it, or it lands a
manifest. -/
inductive Stepped (codec : JsonCodec) (reference : ArtifactRef) (race next : Race)
    (running after : Running) : Prop
  | quiet (tag : next.tag reference = race.tag reference) (landed : next.landed = race.landed)
      (fails : after.succeeded = false) (stage : Stage codec reference next after)
  | lands (sends : sendsManifest running.program = true) (landed : next.landed = race.landed + 1)
      (resolved : (next.tag reference).isSome = true) (ends : after.program.outcome.isSome = true)

variable {race next : Race} {running after : Running} {move : Move}

theorem Quiet.unsuccessful {program : PushProgram PushReport} (h : Quiet reference program)
    (hrunning : running.program = program) : running.succeeded = false := by
  subst hrunning
  unfold Running.succeeded
  split
  · rename_i hdone
    rw [hdone] at h
    exact h.elim
  · rfl

/-- One call of one push. -/
theorem step_cases (h : Orderly codec reference race) (hstep : race.step move = some next) :
    ∃ running after, race.pushes[move.place]? = some running ∧
      next.pushes = race.pushes.set move.place after ∧
      Stepped codec reference race next running after := by
  obtain ⟨place, answer, verdict⟩ := move
  unfold Race.step at hstep
  cases hplace : race.pushes[place]? with
  | none => simp [hplace] at hstep
  | some running =>
    obtain ⟨files, program, looked⟩ := running
    simp only [hplace] at hstep
    have hstage := h.stages _ (List.mem_of_getElem? hplace)
    cases hstage with
    | ended houtcome =>
      cases program with
      | done value => cases hstep
      | fail error => cases hstep
      | call operation rest => cases houtcome
    | fresh client hprogram =>
      obtain ⟨rest, hpush, hfails, ⟨conflict, htaken⟩, hquiet⟩ := push_looks client codec reference
      obtain rfl : program = _ := hprogram.trans hpush
      obtain rfl := Option.some.inj hstep
      refine ⟨_, _, rfl, rfl, ?_⟩
      cases answer with
      | failed error landed =>
        have hnext : rest (.error error) = .fail error := hfails error
        exact .quiet rfl rfl (by simp [Running.succeeded, Either.serve, Registry.serve, Answer.reply, hnext])
          (.ended (by simp [Either.serve, Registry.serve, Answer.reply, hnext, Program.outcome]))
      | given =>
        simp only [Either.serve, Registry.serve, Answer.reply]
        cases hfound : (race.registry.tags reference.repository reference.tag).isSome with
        | true =>
          exact .quiet rfl rfl (by simp [Running.succeeded, htaken])
            (.ended (by simp [htaken, Program.outcome]))
        | false =>
          have hfree : race.tag reference = none := Option.isSome_eq_false_iff.mp hfound |> Option.isNone_iff_eq_none.mp
          exact .quiet rfl rfl (hquiet.unsuccessful rfl)
            (.free race.landed hquiet rfl (Nat.le_refl _) fun _ => hfree)
    | free count hquiet hlooked hbefore hfree =>
      cases program with
      | done value => cases hstep
      | fail error => cases hstep
      | call operation rest =>
        obtain rfl := Option.some.inj hstep
        refine ⟨_, _, rfl, rfl, ?_⟩
        cases operation with
        | right operation =>
          have hrest := hquiet (Files.serve operation verdict files).1
          exact .quiet rfl rfl (hrest.unsuccessful rfl) (.free count hrest hlooked hbefore hfree)
        | left operation =>
          cases operation with
          | tagExists repository tag => exact hquiet.elim
          | putBlob repository kappa mediaType bytes =>
            have hrest := hquiet (answer.reply ())
            have htag : (if answer.landed then race.registry.putBlob repository kappa bytes
                else race.registry).tags = race.registry.tags := by
              split <;> rfl
            have hsame : ∀ pushes : List Running, Race.tag
                { registry := if answer.landed then race.registry.putBlob repository kappa bytes
                    else race.registry
                  landed := race.landed, pushes } reference = race.tag reference := by
              intro pushes
              simp only [Race.tag, htag]
            exact .quiet (hsame _) rfl (hrest.unsuccessful rfl)
              (.free count hrest hlooked hbefore fun hcount => (hsame _).trans (hfree hcount))
          | putManifest repository tag body =>
            obtain ⟨rfl, rfl, ⟨report, hdone⟩, hfails⟩ := hquiet
            cases answer with
            | given =>
              exact .lands rfl rfl (by simp [Race.tag, Either.serve, Registry.serve, Answer.landed, Registry.putManifest])
                (by simp [Either.serve, Registry.serve, Answer.reply, hdone, Program.outcome])
            | failed error landed =>
              have hnext : rest (.error error) = .fail error := hfails error
              cases landed with
              | true =>
                exact .lands rfl rfl (by simp [Race.tag, Either.serve, Registry.serve, Answer.landed, Registry.putManifest])
                  (by simp [Either.serve, Registry.serve, Answer.reply, hnext, Program.outcome])
              | false =>
                exact .quiet rfl rfl
                  (by simp [Running.succeeded, Either.serve, Registry.serve, Answer.reply, hnext])
                  (.ended (by simp [Either.serve, Registry.serve, Answer.reply, hnext, Program.outcome]))

theorem Stepped.landed_le (h : Stepped codec reference race next running after) :
    race.landed ≤ next.landed := by
  cases h with
  | quiet tag landed => omega
  | lands sends landed => omega

/-- The pushes that did not move are as far as they were. -/
theorem Stage.unmoved {other : Running} (h : Stage codec reference race other)
    (hstepped : Stepped codec reference race next running after) :
    Stage codec reference next other := by
  cases h with
  | fresh client hprogram => exact .fresh client hprogram
  | ended houtcome => exact .ended houtcome
  | free count hquiet hlooked hbefore hfree =>
    apply Stage.free count hquiet hlooked (hbefore.trans hstepped.landed_le)
    intro hcount
    cases hstepped with
    | quiet tag landed => exact tag.trans (hfree (hcount.trans landed))
    | lands sends landed => omega

theorem Orderly.step (h : Orderly codec reference race) (hstep : race.step move = some next) :
    Orderly codec reference next := by
  obtain ⟨running, after, hplace, hpushes, hstepped⟩ := step_cases h hstep
  refine ⟨?_, ?_, ?_⟩
  · intro other hother
    rw [hpushes] at hother
    rcases mem_set_cases hother with rfl | ⟨place, _, hplace⟩
    · cases hstepped with
      | quiet _ _ _ stage => exact stage
      | lands _ _ _ ends => exact .ended ends
    · exact (h.stages other (List.mem_of_getElem? hplace)).unmoved hstepped
  · intro hlanded
    cases hstepped with
    | lands _ _ resolved => exact resolved
    | quiet tag landed =>
      rw [tag]
      exact h.resolved (landed ▸ hlanded)
  · intro other hother hsucceeded
    rw [hpushes] at hother
    rcases mem_set_cases hother with rfl | ⟨place, _, hplace⟩
    · cases hstepped with
      | quiet _ _ fails =>
        rw [fails] at hsucceeded
        cases hsucceeded
      | lands _ landed => omega
    · have := h.succeeded other (List.mem_of_getElem? hplace) hsucceeded
      exact this.trans_le hstepped.landed_le

theorem Orderly.start (registry : Registry) (clients : List Client) :
    Orderly codec reference (Race.start registry codec reference clients) := by
  refine ⟨?_, fun hlanded => absurd hlanded (Nat.lt_irrefl 0), ?_⟩
  · intro running hrunning
    obtain ⟨client, _, rfl⟩ := List.mem_map.mp hrunning
    exact .fresh client rfl
  · intro running hrunning hsucceeded
    obtain ⟨client, _, rfl⟩ := List.mem_map.mp hrunning
    obtain ⟨rest, hpush, _⟩ := push_looks client codec reference
    rw [Running.succeeded, hpush] at hsucceeded
    cases hsucceeded

theorem orderly {registry : Registry} {clients : List Client} {allowed : Race → Move → Prop}
    (h : Reaches Race.step allowed (Race.start registry codec reference clients) race) :
    Orderly codec reference race :=
  h.invariant (.start registry clients) fun _ _ _ horderly _ hstep => horderly.step hstep

/-- A push that is about to send its manifest found the tag free when it looked. -/
theorem Stage.sends (h : Stage codec reference race running)
    (hsends : sendsManifest running.program = true) :
    ∃ count, running.looked = some count ∧ count ≤ race.landed ∧
      (count = race.landed → race.tag reference = none) := by
  cases h with
  | free count hquiet hlooked hbefore hfree => exact ⟨count, hlooked, hbefore, hfree⟩
  | fresh client hprogram =>
    obtain ⟨rest, hpush, _⟩ := push_looks client codec reference
    rw [hprogram, hpush] at hsends
    cases hsends
  | ended houtcome =>
    cases hprogram : running.program with
    | done value => rw [hprogram] at hsends; cases hsends
    | fail error => rw [hprogram] at hsends; cases hsends
    | call operation rest => rw [hprogram] at houtcome; cases houtcome

/-- A manifest that is sent undisturbed is sent under a free tag. -/
theorem Orderly.undisturbed (h : Orderly codec reference race) (hundisturbed : Undisturbed race move)
    (hplace : race.pushes[move.place]? = some running)
    (hsends : sendsManifest running.program = true) : race.tag reference = none := by
  obtain ⟨count, hlooked, _, hfree⟩ := (h.stages running (List.mem_of_getElem? hplace)).sends hsends
  have := hundisturbed running hplace hsends
  rw [hlooked] at this
  exact hfree (Option.some.inj this)

/-- The pushes that have succeeded are one and the same. -/
def Single (race : Race) : Prop :=
  ∀ (i j : Nat) (left right : Running), race.pushes[i]? = some left → race.pushes[j]? = some right →
    left.succeeded = true → right.succeeded = true → i = j

theorem Single.start (registry : Registry) (clients : List Client) :
    Single (Race.start registry codec reference clients) := by
  intro i j left right hi _ hleft
  have hstart : Orderly codec reference (Race.start registry codec reference clients) :=
    .start registry clients
  exact absurd (hstart.succeeded left (List.mem_of_getElem? hi) hleft) (Nat.lt_irrefl 0)

theorem Single.step (h : Orderly codec reference race) (hsingle : Single race)
    (hundisturbed : Undisturbed race move) (hstep : race.step move = some next) : Single next := by
  obtain ⟨running, after, hplace, hpushes, hstepped⟩ := step_cases h hstep
  -- Who has succeeded after the step had succeeded before, or is the one that moved.
  have hold : ∀ (k : Nat) (push : Running), next.pushes[k]? = some push → push.succeeded = true →
      k ≠ move.place → race.pushes[k]? = some push := by
    intro k push hk _ hne
    rwa [hpushes, List.getElem?_set_ne hne.symm] at hk
  cases hstepped with
  | quiet _ _ fails =>
    have hmoved : ∀ (k : Nat) (push : Running), next.pushes[k]? = some push →
        push.succeeded = true → k ≠ move.place := by
      rintro k push hk hsucceeded rfl
      rw [hpushes, List.getElem?_set_self (List.getElem?_eq_some_iff.mp hplace).1] at hk
      obtain rfl := Option.some.inj hk
      rw [fails] at hsucceeded
      cases hsucceeded
    intro i j left right hi hj hleft hright
    exact hsingle i j left right (hold i left hi hleft (hmoved i left hi hleft))
      (hold j right hj hright (hmoved j right hj hright)) hleft hright
  | lands sends =>
    have hnone : ∀ push ∈ race.pushes, push.succeeded = true → False := by
      intro push hpush hsucceeded
      have hresolved := h.resolved (h.succeeded push hpush hsucceeded)
      rw [h.undisturbed hundisturbed hplace sends] at hresolved
      cases hresolved
    have hmoved : ∀ (k : Nat) (push : Running), next.pushes[k]? = some push →
        push.succeeded = true → k = move.place := by
      intro k push hk hsucceeded
      by_contra hne
      exact hnone push (List.mem_of_getElem? (hold k push hk hsucceeded hne)) hsucceeded
    intro i j left right hi hj hleft hright
    rw [hmoved i left hi hleft, hmoved j right hj hright]

theorem Orderly.keeps (h : Orderly codec reference race) (hundisturbed : Undisturbed race move)
    (hstep : race.step move = some next) {body : Bytes} (htag : race.tag reference = some body) :
    next.tag reference = some body := by
  obtain ⟨running, after, hplace, _, hstepped⟩ := step_cases h hstep
  cases hstepped with
  | quiet tag => exact tag.trans htag
  | lands sends =>
    rw [h.undisturbed hundisturbed hplace sends] at htag
    cases htag

end Invariant

/-- Where no push is overtaken between its look at the tag and its manifest, what the tag
resolves to stays and at most one push succeeds. In any run at all, a push that is overtaken
sends its manifest under a tag that resolves. -/
theorem tag_stays_put (registry : Registry) (codec : JsonCodec) (reference : ArtifactRef)
    (clients : List Client) :
    (∀ earlier later, Reaches Race.step Undisturbed (Race.start registry codec reference clients) earlier →
      Reaches Race.step Undisturbed earlier later →
      (∀ body, earlier.tag reference = some body → later.tag reference = some body) ∧ Single later) ∧
    ∀ race move, Reaches Race.step (fun _ _ => True) (Race.start registry codec reference clients) race →
      ¬Undisturbed race move → (race.tag reference).isSome = true := by
  constructor
  · intro earlier later hearlier hlater
    have hearly : Orderly codec reference earlier ∧ Single earlier := by
      apply hearlier.invariant
      · exact ⟨.start registry clients, .start registry clients⟩
      · exact fun _ _ _ hboth hallowed hstep =>
          ⟨hboth.1.step hstep, hboth.2.step hboth.1 hallowed hstep⟩
    have hlate : Orderly codec reference later ∧ Single later ∧
        ∀ body, earlier.tag reference = some body → later.tag reference = some body := by
      apply hlater.invariant
      · exact ⟨hearly.1, hearly.2, fun _ htag => htag⟩
      · rintro race move next ⟨horderly, hsingle, hkept⟩ hallowed hstep
        exact ⟨horderly.step hstep, hsingle.step horderly hallowed hstep,
          fun body htag => horderly.keeps hallowed hstep (hkept body htag)⟩
    exact ⟨hlate.2.2, hlate.2.1⟩
  · intro race move hreaches hdisturbed
    simp only [Undisturbed, not_forall] at hdisturbed
    obtain ⟨running, hplace, hsends, hovertaken⟩ := hdisturbed
    have horderly := orderly hreaches
    obtain ⟨count, hlooked, hbefore, _⟩ :=
      (horderly.stages running (List.mem_of_getElem? hplace)).sends hsends
    rw [hlooked, Option.some.injEq] at hovertaken
    exact horderly.resolved (by omega)

/-! Two clients, one of whom pushes an empty file and one the letter a. -/

def letterHash : Vector UInt8 32 :=
  #v[0x17, 0x76, 0x2f, 0xdd, 0xd9, 0x69, 0xa4, 0x53, 0x92, 0x5d, 0x65, 0x71, 0x7a, 0xc3, 0xee, 0xa2,
    0x13, 0x20, 0xb6, 0x6b, 0x54, 0x34, 0x2f, 0xde, 0x15, 0x12, 0x8d, 0x6c, 0xaf, 0x21, 0x21, 0x5f]

def raceStore : DiskStore :=
  { DiskStore.sampleStore with
    blake3 := fun bytes => if bytes = [0x61] then letterHash else DiskStore.emptyHash }

def letterManifest : ArtifactManifest :=
  manifestOf sampleReference <|
    Uploaded.add ⟨[], 0⟩ (address raceStore.blake3 [0x61]) holoMediaType .archive [0x61]

def letterManifestText : Bytes := Utf8.encode <|
  "\x7b\"annotations\":\x7b\"dev.hologram.kind\":\"holo\",\"dev.hologram.name\":\"demo\"," ++
  "\"dev.hologram.tag\":\"v1\"\x7d,\"artifactType\":\"application/vnd.hologram.artifact.v1+json\"," ++
  "\"config\":\x7b\"digest\":" ++
  "\"blake3:17762fddd969a453925d65717ac3eea21320b66b54342fde15128d6caf21215f\"," ++
  "\"mediaType\":\"application/vnd.oci.empty.v1+json\",\"size\":1\x7d," ++
  "\"layers\":[\x7b\"annotations\":\x7b\"dev.hologram.role\":\"archive\"\x7d,\"digest\":" ++
  "\"blake3:17762fddd969a453925d65717ac3eea21320b66b54342fde15128d6caf21215f\"," ++
  "\"mediaType\":\"application/vnd.hologram.holo\",\"size\":1\x7d]," ++
  "\"mediaType\":\"application/vnd.oci.image.manifest.v1+json\",\"schemaVersion\":2\x7d"

def raceCodec : JsonCodec :=
  listedCodec [(sampleManifest, sampleManifestText), (letterManifest, letterManifestText)]

def raceClients : List Client :=
  [⟨raceStore, fun _ => none, [], sampleInspection⟩,
    ⟨raceStore, fun _ => none, [0x61], sampleInspection⟩]

/-- Both clients look for the tag; then the first uploads and sends its manifest, then the
second does. -/
def raceMoves : List Move :=
  [0, 1, 0, 0, 1, 1].map fun place => { place, answer := (.given, .granted) }

def raceAfter (moves : Nat) : Option Race :=
  run Race.step (raceMoves.take moves) (Race.start {} raceCodec sampleReference raceClients)

/-- The tag resolves to the first client's manifest, and the second client moves it without
having been told to. Both succeed. -/
theorem tag_moves_silently :
    (raceAfter 4).map (fun race => race.tag sampleReference) = some (some sampleManifestText) ∧
      (raceAfter 6).map (fun race => race.tag sampleReference) = some (some letterManifestText) ∧
      sampleManifestText ≠ letterManifestText ∧
      (raceAfter 6).map (fun race => race.pushes.map Running.succeeded) = some [true, true] := by
  decide +kernel

end HologramLive.Artifact
