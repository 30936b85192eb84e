import HologramLive.Registry.KappaTimes
import HologramLive.Registry.LocalTimes
import HologramLive.Store.Integrity

/-! The time an object is said to be created at, over all calls made on one provider. -/

namespace HologramLive.Registry
open Lib Lib.Interleaving Lib.Sequence Store KappaClient

/-- Where every put reads the record there is, or goes by its time all the same, and no
record is lost with the move of a new one, all calls agree on when an object was
created. -/
theorem creation_time_stays (setting : KappaSteps.Setting)
    (hcodec : KappaSteps.KeepsManifests setting.provider.codec) (store : DiskStore)
    (hstore : ∀ metadata, store.fromSlice (store.toVecPretty metadata) = .ok metadata) (pid : Nat) :
    (∀ shared session, KappaSteps.Filed setting shared →
      Reaches (Session.step (KappaSteps.answer setting) (KappaSteps.serve setting))
        (Session.Permitted (KappaSteps.Dated setting)) ⟨shared, []⟩ session →
      Steady Answer.times session) ∧
    ∀ files session, Local.Filed store files →
      Reaches (Session.step (Local.answer store pid) Local.serve)
        (Session.Permitted (Local.RecalledLocally store)) ⟨files, []⟩ session →
      Steady Answer.times session := by
  constructor
  · intro shared session hfiled hreaches
    exact steady_of_keeps (fun call base hbase => KappaSteps.answer_meets hcodec hbase call)
      hfiled hreaches
  · intro files session hfiled hreaches
    exact steady_of_keeps (fun call base hbase => Local.answer_meets hstore hbase pid call)
      hfiled hreaches

/-! A put of an empty file, a second one and a listing. -/

open DiskStore (emptyHash emptyFile sampleStore sampleStore_reads)
open KappaSteps (ProviderProgram listedCodec listedCodec_keeps emptyId)

def datedText (millis : String) : Bytes := Utf8.encode <|
  "\x7b\"annotations\":\x7b\"dev.hologram.created-at-millis\":\"" ++ millis ++ "\"," ++
  "\"dev.hologram.filename\":\"empty.txt\",\"dev.hologram.kind\":\"file\"\x7d," ++
  "\"artifactType\":\"application/vnd.hologram.object.v1+json\"," ++
  "\"config\":\x7b\"digest\":\"" ++ emptyId ++
  "\",\"mediaType\":\"application/vnd.oci.empty.v1+json\",\"size\":0\x7d," ++
  "\"layers\":[\x7b\"digest\":\"" ++ emptyId ++ "\",\"mediaType\":\"text/plain\",\"size\":0\x7d]," ++
  "\"mediaType\":\"application/vnd.oci.image.manifest.v1+json\",\"schemaVersion\":2," ++
  "\"subject\":\x7b\"digest\":\"" ++ emptyId ++
  "\",\"mediaType\":\"text/plain\",\"size\":0\x7d\x7d"

def redatedFile : ObjectMetadata := { emptyFile with createdAtMillis := 9 }

def datedCodec : JsonCodec :=
  listedCodec [(emptyFile, datedText "5"), (redatedFile, datedText "9")]

/-- A provider whose clock moves on by `pace` with each reading. -/
def datedSetting (pace : Nat) : KappaSteps.Setting where
  provider :=
    ⟨⟨fun _ _ => .unreachable "", fun _ => .unreachable ""⟩, datedCodec,
      fun reading => reading * pace, 20⟩
  blake3 _ := emptyHash
  addressed tag := tag
  legal _ _ := rfl

theorem datedCodec_keeps : KappaSteps.KeepsManifests datedCodec := by
  apply listedCodec_keeps
  · decide +kernel
  · have hbrace : ∀ entry ∈ [(emptyFile, datedText "5"), (redatedFile, datedText "9")],
        (0x7b : UInt8) ∈ entry.2 := by decide
    exact fun entry hentry => ⟨0x7b, hbrace entry hentry, by decide⟩

def putEmpty : Request := .putObject "file" "text/plain" (some "empty.txt") []

def requests (count : Nat) (verdict : ν) : List (Sequence.Event κ ν) :=
  List.replicate count (.move verdict)

/-- The object is put, and put again when its record is in the cache. -/
def putTwice : List (Sequence.Event Request KappaSteps.Verdict) :=
  [Event.begin putEmpty] ++ requests 6 { millis := 5 } ++ [Event.begin putEmpty] ++
    requests 4 { millis := 9 } ++ [Event.begin (Request.listObjects none)] ++
    requests 2 ({} : KappaSteps.Verdict)

/-- The second put comes when the record has left the cache, and its manifest cannot be
read just then. -/
def putUnread : List (Sequence.Event Request KappaSteps.Verdict) :=
  [Event.begin putEmpty] ++ requests 6 { millis := 5 } ++ [Event.begin putEmpty] ++
    requests 1 ({} : KappaSteps.Verdict) ++
    requests 1 { trouble := some (.unreachable "connection reset") } ++ requests 4 { millis := 9 }

def asksClock : ProviderProgram Answer → Bool
  | .call .nowMillis _ => true
  | _ => false

/-- The clock is asked only while the registry is empty. -/
def firstDated
    (session : Session Request KappaSteps.ProviderCall LiveError Answer KappaSteps.Shared) :
    Sequence.Event Request KappaSteps.Verdict → Bool
  | .begin _ => true
  | .move _ =>
    match session.calls with
    | [] => true
    | newest :: _ => newest.base.log.isEmpty || !asksClock newest.program

def localPuts : List (Sequence.Event Local.LocalCall Local.LocalVerdict) :=
  [Event.begin ⟨5, putEmpty⟩] ++ requests 10 ({} : Local.LocalVerdict) ++
    [Event.begin ⟨9, putEmpty⟩] ++ requests 7 ({} : Local.LocalVerdict)

def showing {Call : Type → Type} (session : Session κ Call LiveError Answer σ) :
    List (Option (List (String × Nat))) :=
  session.calls.map fun call =>
    (call.program.outcome.bind Except.toOption).map Answer.times

/-- Nothing is refused. -/
def served (_ : Session Local.LocalCall DirCall LiveError Answer Lib.Files.FileSystem) :
    Sequence.Event Local.LocalCall Local.LocalVerdict → Bool
  | .begin _ => true
  | .move verdict => verdict.file = .granted

theorem firstDated_permitted (pace : Nat)
    (session : Session Request KappaSteps.ProviderCall LiveError Answer KappaSteps.Shared)
    (event : Sequence.Event Request KappaSteps.Verdict) (h : firstDated session event = true) :
    session.Permitted (KappaSteps.Dated (datedSetting pace)) event := by
  cases event with
  | begin call => trivial
  | move verdict =>
    obtain ⟨state, calls⟩ := session
    cases calls with
    | nil => trivial
    | cons newest earlier =>
      obtain ⟨call, base, program⟩ := newest
      cases program with
      | done value => trivial
      | fail error => trivial
      | call operation next =>
        cases operation with
        | nowMillis =>
          have hempty : base.log = [] := by simpa [firstDated, asksClock] using h
          cases call with
          | putObject kind mediaType filename bytes =>
            intro time htime
            rw [KappaSteps.timeOf, KappaSteps.Shared.manifest, hempty] at htime
            cases htime
          | renameFile id filename => trivial
          | getObject id => trivial
          | listObjects kind => trivial
          | search query => trivial
        | cached tag => trivial
        | remember tag metadata => trivial
        | getManifest tag => trivial
        | putManifest tag body => trivial
        | getBlob kappa => trivial
        | putBlob kappa mediaType bytes => trivial
        | listTags limit last => trivial

theorem served_permitted (store : DiskStore)
    (session : Session Local.LocalCall DirCall LiveError Answer Lib.Files.FileSystem)
    (event : Sequence.Event Local.LocalCall Local.LocalVerdict) (h : served session event = true) :
    session.Permitted (Local.RecalledLocally store) event := by
  cases event with
  | begin call => trivial
  | move verdict =>
    obtain ⟨file, listing⟩ := verdict
    obtain rfl : file = .granted := of_decide_eq_true h
    obtain ⟨state, calls⟩ := session
    cases calls with
    | nil => trivial
    | cons newest earlier =>
      obtain ⟨call, base, program⟩ := newest
      cases program with
      | done value => trivial
      | fail error => trivial
      | call operation next =>
        cases operation with
        | left operation => cases operation <;> trivial
        | right operation => trivial

theorem nothing_filed : KappaSteps.Filed (datedSetting pace) ⟨[], {}⟩ where
  manifests _ _ _ hmanifest := nomatch hmanifest
  cached _ hentry := nomatch hentry

theorem creation_time_stays_sample :
    (∃ session : Session Request KappaSteps.ProviderCall LiveError Answer KappaSteps.Shared,
      showing session = List.replicate 3 (some [(emptyId, 5)]) ∧ Steady Answer.times session) ∧
    ∃ session : Session Local.LocalCall DirCall LiveError Answer Lib.Files.FileSystem,
      showing session = List.replicate 2 (some [(emptyId, 5)]) ∧ Steady Answer.times session := by
  have hkappa : (checked (Session.step (KappaSteps.answer (datedSetting 1))
      (KappaSteps.serve (datedSetting 1))) firstDated putTwice ⟨⟨[], {}⟩, []⟩).map showing =
        some (List.replicate 3 (some [(emptyId, 5)])) := by decide +kernel
  have hlocal : (checked (Session.step (Local.answer sampleStore 7) Local.serve) served localPuts
      ⟨fun _ => none, []⟩).map showing = some (List.replicate 2 (some [(emptyId, 5)])) := by
    decide +kernel
  obtain ⟨session, hrun, hshowing⟩ := Option.map_eq_some_iff.mp hkappa
  obtain ⟨session', hrun', hshowing'⟩ := Option.map_eq_some_iff.mp hlocal
  have hstays := creation_time_stays (datedSetting 1) datedCodec_keeps sampleStore sampleStore_reads 7
  refine ⟨⟨session, hshowing, hstays.1 _ _ nothing_filed ?_⟩,
    session', hshowing', hstays.2 (fun _ => none) _ (fun _ _ _ _ hfile => nomatch hfile) ?_⟩
  · exact Reaches.start.checked (firstDated_permitted 1) hrun
  · exact Reaches.start.checked (served_permitted sampleStore) hrun'

/-- Both puts succeed, and the object is created at two times. -/
theorem creation_time_moves :
    ∃ session, Reaches (Session.step (KappaSteps.answer (datedSetting Kappa.metadataTtl))
        (KappaSteps.serve (datedSetting Kappa.metadataTtl))) (fun _ _ => True)
        ⟨⟨[], {}⟩, []⟩ session ∧
      session.calls.map Running.call = [putEmpty, putEmpty] ∧
      showing session = [some [(emptyId, 9)], some [(emptyId, 5)]] ∧
      ¬ Steady Answer.times session := by
  have hruns : (run (Session.step (KappaSteps.answer (datedSetting Kappa.metadataTtl))
      (KappaSteps.serve (datedSetting Kappa.metadataTtl))) putUnread ⟨⟨[], {}⟩, []⟩).map
        (fun session => (session.calls.map Running.call, session.calls.map fun call =>
          call.program.outcome.bind Except.toOption)) =
      some ([putEmpty, putEmpty], [some (.wrote redatedFile), some (.wrote emptyFile)]) := by
    decide
  obtain ⟨session, hrun, hlast⟩ := Option.map_eq_some_iff.mp hruns
  obtain ⟨hcalls, houtcomes⟩ := Prod.mk.inj hlast
  refine ⟨session, Reaches.start.run hrun, hcalls, ?_, fun hsteady => ?_⟩
  · have := congrArg (List.map (Option.map Answer.times)) houtcomes
    rwa [List.map_map] at this
  · obtain ⟨state, calls⟩ := session
    obtain ⟨later, rest, rfl, hlater, hrest⟩ := List.map_eq_cons_iff.mp houtcomes
    obtain ⟨earlier, rest, rfl, hearlier, _⟩ := List.map_eq_cons_iff.mp hrest
    have houtcome : ∀ {call : Running Request KappaSteps.ProviderCall LiveError Answer
        KappaSteps.Shared} {answer : Answer}, call.program.outcome.bind Except.toOption = some answer →
          call.program.outcome = some (.ok answer) := by
      intro call answer h
      obtain ⟨result, hresult, hanswer⟩ := Option.bind_eq_some_iff.mp h
      rw [hresult, Result.toOption_eq_some.mp hanswer]
    have hagree := (List.pairwise_cons.mp hsteady).1 earlier List.mem_cons_self
    have := hagree _ _ (houtcome hlater) (houtcome hearlier) _ List.mem_cons_self _
      List.mem_cons_self rfl
    exact absurd this (by decide)

end HologramLive.Registry
